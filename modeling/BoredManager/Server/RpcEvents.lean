import BoredManager.Js.Utf8

/-! The outbound events of one socket: the queue that a call puts an event on, and the pump
that authorizes and sends them. -/
namespace BoredManager.Server.RpcEvents
open BoredManager.Js

/-- The limits that bear on events. -/
structure Limits where
  maxQueuedFrames : Nat
  outboundHighWater : Nat
  outboundHardLimit : Nat

def replaceableEvents : List Text :=
  [js "push:system", js "push:top", js "push:services", js "push:update", js "push:modules",
    js "push:modules-list", js "push:conn-status", js "packages:state"]

def replaceableEvent (channel : Text) : Bool := decide (channel ∈ replaceableEvents)

structure SerializedEvent where
  channel : Text
  text : Text
  bytes : Nat
  replaceable : Bool
deriving DecidableEq

/-- An event around the text of its frame. -/
def serializeEvent (channel text : Text) : SerializedEvent :=
  ⟨channel, text, (utf8 text).length, replaceableEvent channel⟩

/-- `ticket` is the number of the accepted call that the payload is from; it is kept for the
statements, and nothing reads it. -/
structure QueuedEvent extends SerializedEvent where
  authorized : Bool
  version : Nat
  object : Nat
  ticket : Nat
deriving DecidableEq

/-- Where the pump is: the loop's condition is next, an authorization is awaited, or the head
is about to be sent. -/
inductive Pump where
  | idle
  | running
  | waiting (object version : Nat)
  | sending
deriving DecidableEq

/-- A trimmed payload, and how full the queue was. -/
structure Drop where
  ticket : Nat
  eventBytes : Int
  length : Nat
deriving DecidableEq

/-- `accepted`, `sent` and `dropped` are the history: the payloads of the calls that returned
true, the events that were handed to the socket, and those that were trimmed. -/
structure ClientState where
  closed : Bool
  isOpen : Bool
  accepting : Bool
  protectedReply : Bool
  events : List QueuedEvent
  eventBytes : Int
  pump : Pump
  eventTimer : Bool
  created : Nat
  accepted : List SerializedEvent
  sent : List QueuedEvent
  dropped : List Drop
deriving DecidableEq

def attach : ClientState :=
  ⟨false, true, true, false, [], 0, .idle, false, 0, [], [], []⟩

variable (limits : Limits)

def closeState (s : ClientState) : ClientState :=
  if s.closed then s
  else { s with closed := true, events := [], eventBytes := 0, eventTimer := false }

/-- The first event that passes a test, and the list with another in its place. -/
def replaceFirst (p : QueuedEvent → Bool) (new : QueuedEvent → QueuedEvent) :
    List QueuedEvent → Option (QueuedEvent × List QueuedEvent)
  | [] => none
  | q :: rest =>
    if p q then some (q, new q :: rest)
    else (replaceFirst p new rest).map fun r => (r.1, q :: r.2)

/-- The event goes in the place of a queued one of its channel, else to the end. -/
def place (s : ClientState) (event : SerializedEvent) : ClientState :=
  let existing :=
    if event.replaceable then
      replaceFirst (fun q => q.replaceable && q.channel == event.channel)
        (fun q => { q with
          text := event.text, bytes := event.bytes, authorized := false, version := q.version + 1,
          ticket := s.accepted.length }) s.events
    else none
  match existing with
  | some (old, events) => { s with events, eventBytes := s.eventBytes + (event.bytes - old.bytes) }
  | none => { s with
      events := s.events ++ [{ event with
        authorized := false, version := 1, object := s.created, ticket := s.accepted.length }],
      eventBytes := s.eventBytes + event.bytes, created := s.created + 1 }

/-- The first replaceable event that is not the last, and the list without it. -/
def spliceReplaceable : List QueuedEvent → Option (QueuedEvent × List QueuedEvent)
  | [] => none
  | [_] => none
  | q :: next :: rest =>
    if q.replaceable then some (q, next :: rest)
    else (spliceReplaceable (next :: rest)).map fun r => (r.1, q :: r.2)

def Over (eventBytes : Int) (length : Nat) : Prop :=
  limits.outboundHighWater < eventBytes ∨ limits.maxQueuedFrames < length

instance (eventBytes : Int) (length : Nat) : Decidable (Over limits eventBytes length) :=
  inferInstanceAs (Decidable (_ ∨ _))

def dropEvent (s : ClientState) (dropped : QueuedEvent) (rest : List QueuedEvent) : ClientState :=
  { s with
    events := rest, eventBytes := s.eventBytes - dropped.bytes,
    dropped := s.dropped ++ [⟨dropped.ticket, s.eventBytes, s.events.length⟩] }

/-- Each turn of the loop takes one event out, so the length of the queue bounds the turns. -/
def trimReplaceableEvents : Nat → ClientState → ClientState
  | 0, s => s
  | turns + 1, s =>
    if Over limits s.eventBytes s.events.length then
      match spliceReplaceable s.events with
      | none => s
      | some (dropped, rest) => trimReplaceableEvents turns (dropEvent s dropped rest)
    else s

def pumpEvents (s : ClientState) : ClientState :=
  if s.pump ≠ .idle ∨ s.closed ∨ !s.accepting then s else { s with pump := .running }

def queueSerializedEvent (s : ClientState) (event : SerializedEvent) : Bool × ClientState :=
  if !s.accepting || s.closed || !s.isOpen || s.protectedReply then (false, s)
  else if limits.outboundHardLimit < event.bytes then (false, closeState s)
  else
    let placed := place s event
    let trimmed := trimReplaceableEvents limits placed.events.length placed
    if limits.outboundHardLimit < trimmed.eventBytes ∨
        limits.maxQueuedFrames < trimmed.events.length then (false, closeState trimmed)
    else (true, pumpEvents { trimmed with accepted := s.accepted ++ [event] })

def scheduleEventPump (s : ClientState) : ClientState :=
  if s.eventTimer || s.closed then s else { s with eventTimer := true }

/-- The condition of the pump's loop, up to the await or the buffer checks. -/
def loopTurn (s : ClientState) : ClientState :=
  if s.closed || !s.accepting || s.protectedReply then { s with pump := .idle }
  else
    match s.events with
    | [] => { s with pump := .idle }
    | event :: _ =>
      if event.authorized then { s with pump := .sending }
      else { s with pump := .waiting event.object event.version }

/-- What the pump does when the authorization it awaits is there. -/
def authorization (s : ClientState) (object version : Nat) (authorized : Bool) : ClientState :=
  match s.events with
  | [] => { s with pump := .running }
  | event :: rest =>
    if event.object ≠ object ∨ event.version ≠ version then { s with pump := .running }
    else if !authorized then { closeState s with pump := .idle }
    else { s with events := { event with authorized := true } :: rest, pump := .sending }

/-- `sendText`, and what the loop does with its answer. -/
def sendText (s : ClientState) (event : QueuedEvent) (buffered : Nat) (sends : Bool) : ClientState :=
  if s.closed || !s.isOpen then { s with pump := .idle }
  else if limits.outboundHardLimit < buffered + event.bytes then
    { closeState s with pump := .idle }
  else if sends then { s with sent := s.sent ++ [event], pump := .running }
  else { s with pump := .idle }

/-- From the buffer checks to the send; `buffered` and `atSend` are the two readings of
`bufferedAmount`, and `sends` is false where `socket.send` throws. -/
def sendHead (s : ClientState) (buffered atSend : Nat) (sends : Bool) : ClientState :=
  match s.events with
  | [] => { s with pump := .idle }
  | event :: rest =>
    if event.replaceable ∧ limits.outboundHighWater < buffered + event.bytes then
      { scheduleEventPump s with pump := .idle }
    else if limits.outboundHardLimit < buffered + event.bytes then
      { closeState s with pump := .idle }
    else
      sendText limits { s with events := rest, eventBytes := s.eventBytes - event.bytes } event
        atSend sends

/-- What can happen to the events of a socket: a call, a stretch of the pump, an answer it
waits for, its timer, and what the rest of the router and the peer do. -/
inductive Action where
  | queue (event : SerializedEvent)
  | loop
  | authorized (answer : Bool)
  | send (buffered atSend : Nat) (sends : Bool)
  | timer
  | protectReply
  | replied
  | leavesOpen
  | close
  | socketClosed
  | terminate
  | stopAccepting

def step (s : ClientState) : Action → ClientState
  | .queue event => (queueSerializedEvent limits s event).2
  | .loop => if s.pump = .running then loopTurn s else s
  | .authorized answer =>
    match s.pump with
    | .waiting object version => authorization s object version answer
    | _ => s
  | .send buffered atSend sends =>
    if s.pump = .sending then sendHead limits s buffered atSend sends else s
  | .timer => if s.eventTimer then pumpEvents { s with eventTimer := false } else s
  | .protectReply => { s with protectedReply := true }
  | .replied => pumpEvents { s with protectedReply := false }
  | .leavesOpen => { s with isOpen := false }
  | .close => closeState s
  | .socketClosed => { s with closed := true, events := [], eventBytes := 0, eventTimer := false }
  | .terminate => { s with closed := true }
  | .stopAccepting =>
    if s.accepting then
      { s with accepting := false, events := [], eventBytes := 0, eventTimer := false }
    else s

variable {limits}

theorem replaceFirst_eq_some {p : QueuedEvent → Bool} {new : QueuedEvent → QueuedEvent}
    {events : List QueuedEvent} {r : QueuedEvent × List QueuedEvent}
    (h : replaceFirst p new events = some r) :
    ∃ front rest, events = front ++ r.1 :: rest ∧ r.2 = front ++ new r.1 :: rest ∧ p r.1 = true := by
  induction events generalizing r with
  | nil => cases h
  | cons q events ih =>
    rw [replaceFirst] at h
    split at h
    · cases h
      exact ⟨[], events, rfl, rfl, by assumption⟩
    · obtain ⟨r', hr', rfl⟩ := Option.map_eq_some_iff.mp h
      obtain ⟨front, rest, hevents, hnew, hp⟩ := ih hr'
      exact ⟨q :: front, rest, by rw [hevents]; rfl, by rw [hnew]; rfl, hp⟩

theorem spliceReplaceable_eq_some {events : List QueuedEvent} {r : QueuedEvent × List QueuedEvent}
    (h : spliceReplaceable events = some r) :
    ∃ front rest, events = front ++ r.1 :: rest ∧ r.2 = front ++ rest ∧ rest ≠ [] ∧
      r.1.replaceable = true := by
  induction events generalizing r with
  | nil => cases h
  | cons q events ih =>
    cases events with
    | nil => cases h
    | cons next events =>
      rw [spliceReplaceable] at h
      split at h
      · cases h
        exact ⟨[], next :: events, rfl, rfl, List.cons_ne_nil _ _, by assumption⟩
      · obtain ⟨r', hr', rfl⟩ := Option.map_eq_some_iff.mp h
        obtain ⟨front, rest, hevents, hrest, hne, hrep⟩ := ih hr'
        exact ⟨q :: front, rest, by rw [hevents]; rfl, by rw [hrest]; rfl, hne, hrep⟩

/-- What a call does to the queue: it puts its payload in, under the number of the call, and
takes at most one event out, a snapshot of the same channel. -/
structure Placed (s t : ClientState) (event : SerializedEvent) : Prop where
  events : ∃ front taken rest new, s.events = front ++ taken ++ rest ∧
    t.events = front ++ new :: rest ∧ new.toSerializedEvent = event ∧
    new.ticket = s.accepted.length ∧
    t.eventBytes = s.eventBytes + event.bytes - (taken.map fun q => (q.bytes : Int)).sum ∧
    ((taken = [] ∧ rest = []) ∨ ∃ old, taken = [old] ∧ old.replaceable = true ∧
      event.replaceable = true ∧ old.channel = event.channel)
  frame : t = { s with events := t.events, eventBytes := t.eventBytes, created := t.created }

theorem place_placed (s : ClientState) (event : SerializedEvent) : Placed s (place s event) event := by
  cases hold : (if event.replaceable then
      replaceFirst (fun q => q.replaceable && q.channel == event.channel)
        (fun q => { q with
          text := event.text, bytes := event.bytes, authorized := false, version := q.version + 1,
          ticket := s.accepted.length }) s.events
    else none) with
  | none =>
    rw [place, hold]
    refine ⟨⟨s.events, [], [], _, by simp, rfl, rfl, rfl, by simp, .inl ⟨rfl, rfl⟩⟩, rfl⟩
  | some r =>
    obtain ⟨old, events⟩ := r
    rw [place, hold]
    split at hold
    · rename_i hrep
      obtain ⟨front, rest, hevents, hnew, hmatch⟩ := replaceFirst_eq_some hold
      rw [Bool.and_eq_true, beq_iff_eq] at hmatch
      refine ⟨⟨front, [old], rest, _, by simp [hevents], hnew, ?_, rfl, ?_,
        .inr ⟨old, rfl, hmatch.1, hrep, hmatch.2⟩⟩, rfl⟩
      · have hchannel : old.channel = event.channel := hmatch.2
        have hsame : old.replaceable = event.replaceable := hmatch.1.trans hrep.symm
        simp only [hchannel, hsame]
      · simp
        omega
    · cases hold

/-- What every single trim keeps, the trimming keeps. -/
theorem trim_preserves {P : ClientState → Prop}
    (hdrop : ∀ s front dropped rest, P s → s.events = front ++ dropped :: rest →
      dropped.replaceable = true → Over limits s.eventBytes s.events.length →
      P (dropEvent s dropped (front ++ rest)))
    (turns : Nat) {s : ClientState} (h : P s) : P (trimReplaceableEvents limits turns s) := by
  induction turns generalizing s with
  | zero => exact h
  | succ turns ih =>
    rw [trimReplaceableEvents]
    split
    · rename_i hover
      cases hsplice : spliceReplaceable s.events with
      | none => exact h
      | some r =>
        obtain ⟨front, rest, hevents, hrest, -, hrep⟩ := spliceReplaceable_eq_some hsplice
        dsimp only
        rw [hrest]
        exact ih (hdrop s front r.1 rest h hevents hrep hover)
    · exact h

/-- Trimming changes the queue and its count, and nothing else. -/
theorem trim_frame (limits : Limits) (turns : Nat) (s : ClientState) :
    trimReplaceableEvents limits turns s = { s with
      events := (trimReplaceableEvents limits turns s).events,
      eventBytes := (trimReplaceableEvents limits turns s).eventBytes,
      dropped := (trimReplaceableEvents limits turns s).dropped } := by
  refine trim_preserves (P := fun t =>
    t = { s with events := t.events, eventBytes := t.eventBytes, dropped := t.dropped }) ?_ turns rfl
  intro t front dropped rest ht _ _ _
  rw [ht]
  rfl

/-- The turns that the length of the queue allows are enough for the loop to end by itself. -/
theorem trim_ends (turns : Nat) {s : ClientState} (h : s.events.length ≤ turns) :
    ¬Over limits (trimReplaceableEvents limits turns s).eventBytes
        (trimReplaceableEvents limits turns s).events.length ∨
      spliceReplaceable (trimReplaceableEvents limits turns s).events = none := by
  induction turns generalizing s with
  | zero =>
    have hnil : s.events = [] := List.length_eq_zero_iff.mp (by omega)
    exact .inr (by rw [trimReplaceableEvents, hnil]; rfl)
  | succ turns ih =>
    rw [trimReplaceableEvents]
    split
    · cases hsplice : spliceReplaceable s.events with
      | none => exact .inr hsplice
      | some r =>
        obtain ⟨front, rest, hevents, hrest, -, -⟩ := spliceReplaceable_eq_some hsplice
        refine ih ?_
        change r.2.length ≤ turns
        rw [hevents] at h
        rw [hrest]
        simp only [List.length_append, List.length_cons] at h ⊢
        omega
    · rename_i hover
      exact .inl hover

end BoredManager.Server.RpcEvents
