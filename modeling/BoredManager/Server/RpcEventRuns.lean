import BoredManager.Machine.Ledger
import BoredManager.Machine.Runs
import BoredManager.Server.RpcEvents

/-! What becomes of accepted events over every order of calls, pump turns, authorizations and
buffer readings. -/
namespace BoredManager.Server.RpcEvents
open BoredManager.Js BoredManager.Machine

variable {limits : Limits} {s : ClientState}

def bytesOf (events : List QueuedEvent) : Int := (events.map fun q => (q.bytes : Int)).sum

/-- The byte count is right, and the queue is within its bounds. -/
structure Accounted (limits : Limits) (s : ClientState) : Prop where
  bytes : s.eventBytes = bytesOf s.events
  hard : s.eventBytes ≤ limits.outboundHardLimit
  frames : s.events.length ≤ limits.maxQueuedFrames

theorem accounted_empty {t : ClientState} (hevents : t.events = []) (hbytes : t.eventBytes = 0) :
    Accounted limits t := by
  refine ⟨by rw [hevents, hbytes]; rfl, by rw [hbytes]; omega, by rw [hevents]; simp⟩

theorem Accounted.closeState (h : Accounted limits s) : Accounted limits (closeState s) := by
  unfold RpcEvents.closeState
  split
  · exact h
  · exact accounted_empty rfl rfl

theorem Accounted.pumpEvents (h : Accounted limits s) : Accounted limits (pumpEvents s) := by
  unfold RpcEvents.pumpEvents
  split
  · exact h
  · exact ⟨h.bytes, h.hard, h.frames⟩

theorem place_bytes (event : SerializedEvent) (h : s.eventBytes = bytesOf s.events) :
    (place s event).eventBytes = bytesOf (place s event).events := by
  obtain ⟨front, taken, rest, new, hs, ht, hnew, -, hbytes, -⟩ := (place_placed s event).events
  have hb : new.bytes = event.bytes := by rw [← hnew]
  rw [hbytes, h, hs, ht, bytesOf, bytesOf]
  simp only [List.map_append, List.sum_append, List.map_cons, List.sum_cons, hb]
  omega

theorem trim_bytes (turns : Nat) (h : s.eventBytes = bytesOf s.events) :
    (trimReplaceableEvents limits turns s).eventBytes =
      bytesOf (trimReplaceableEvents limits turns s).events := by
  refine trim_preserves (P := fun t => t.eventBytes = bytesOf t.events) ?_ turns h
  intro t front dropped rest ht hevents _ _
  change t.eventBytes - dropped.bytes = bytesOf (front ++ rest)
  rw [ht, hevents, bytesOf, bytesOf]
  simp only [List.map_append, List.sum_append, List.map_cons, List.sum_cons]
  omega

/-- What a call that is not refused at once leaves behind. -/
def trimmed (limits : Limits) (s : ClientState) (event : SerializedEvent) : ClientState :=
  trimReplaceableEvents limits (place s event).events.length (place s event)

theorem trimmed_frame (limits : Limits) (s : ClientState) (event : SerializedEvent) :
    ∃ created, trimmed limits s event = { s with
      events := (trimmed limits s event).events, eventBytes := (trimmed limits s event).eventBytes,
      dropped := (trimmed limits s event).dropped, created := created } := by
  refine ⟨(place s event).created, ?_⟩
  have hplace := (place_placed s event).frame
  have htrim := trim_frame limits (place s event).events.length (place s event)
  rw [trimmed, htrim]
  rw [hplace]

theorem queueSerializedEvent_cases (limits : Limits) (s : ClientState) (event : SerializedEvent) :
    queueSerializedEvent limits s event = (false, s) ∨
    queueSerializedEvent limits s event = (false, closeState s) ∨
    (s.accepting = true ∧ s.closed = false ∧ s.isOpen = true ∧ s.protectedReply = false ∧
      (queueSerializedEvent limits s event = (false, closeState (trimmed limits s event)) ∨
      ((trimmed limits s event).eventBytes ≤ limits.outboundHardLimit ∧
        (trimmed limits s event).events.length ≤ limits.maxQueuedFrames ∧
        queueSerializedEvent limits s event =
          (true, pumpEvents { trimmed limits s event with accepted := s.accepted ++ [event] })))) := by
  unfold queueSerializedEvent
  split
  · exact .inl rfl
  rename_i hguard
  simp only [Bool.or_eq_true, Bool.not_eq_true', not_or, Bool.not_eq_true, Bool.not_eq_false] at hguard
  split
  · exact .inr (.inl rfl)
  refine .inr (.inr ⟨hguard.1.1.1, hguard.1.1.2, hguard.1.2, hguard.2, ?_⟩)
  dsimp only
  split
  · exact .inl rfl
  · rename_i hover
    rw [not_or, not_lt, not_lt] at hover
    exact .inr ⟨hover.1, hover.2, rfl⟩

theorem Accounted.queue (event : SerializedEvent) (h : Accounted limits s) :
    Accounted limits (queueSerializedEvent limits s event).2 := by
  rcases queueSerializedEvent_cases limits s event with
    heq | heq | ⟨-, hopen, -, -, heq | ⟨hhard, hframes, heq⟩⟩ <;> rw [heq]
  · exact h
  · exact h.closeState
  · obtain ⟨created, hframe⟩ := trimmed_frame limits s event
    have hclosed : (trimmed limits s event).closed = false := by rw [hframe, hopen]
    rw [RpcEvents.closeState, hclosed]
    exact accounted_empty rfl rfl
  · exact Accounted.pumpEvents ⟨trim_bytes _ (place_bytes event h.bytes), hhard, hframes⟩

/-- The client is open and the router accepts. -/
structure Live (s : ClientState) : Prop where
  notClosed : s.closed = false
  isOpen : s.isOpen = true
  accepting : s.accepting = true

/-- `socket.send` does not throw. -/
def Action.Sends : Action → Prop
  | .send _ _ sends => sends = true
  | _ => True

/-- What anything but a call does. -/
inductive Effect (limits : Limits) (s : ClientState) (sends : Prop) : ClientState → Prop
  | wait (pump : Pump) (timer reply : Bool)
      (awake : Live s → s.events ≠ [] → reply = false → pump = .idle →
        timer = true ∨ s.pump = .idle ∧ s.eventTimer = timer ∧ s.protectedReply = reply) :
      Effect limits s sends { s with pump := pump, eventTimer := timer, protectedReply := reply }
  | authorize {q : QueuedEvent} {rest : List QueuedEvent} (hevents : s.events = q :: rest) :
      Effect limits s sends { s with events := { q with authorized := true } :: rest, pump := .sending }
  | send {q : QueuedEvent} {rest : List QueuedEvent} (hevents : s.events = q :: rest)
      (hfits : q.replaceable = true → q.bytes ≤ limits.outboundHighWater) :
      Effect limits s sends { s with
        events := rest, eventBytes := s.eventBytes - q.bytes, sent := s.sent ++ [q],
        pump := .running }
  | lose {q : QueuedEvent} {rest : List QueuedEvent} (hevents : s.events = q :: rest)
      (cause : ¬Live s ∨ ¬sends) :
      Effect limits s sends { s with events := rest, eventBytes := s.eventBytes - q.bytes, pump := .idle }
  | shut {t : ClientState} (hlive : ¬Live t)
      (hevents : t.events = s.events ∧ t.eventBytes = s.eventBytes ∨
        t.events = [] ∧ t.eventBytes = 0)
      (hframe : t.sent = s.sent ∧ t.accepted = s.accepted) : Effect limits s sends t

theorem closeState_effect (sends : Prop) (pump : Pump) :
    Effect limits s sends { closeState s with pump := pump } := by
  unfold closeState
  split
  · rename_i hclosed
    have hdead : ¬Live { s with pump := pump } := fun h => by
      have := h.notClosed
      simp [hclosed] at this
    exact .shut hdead (.inl ⟨rfl, rfl⟩) ⟨rfl, rfl⟩
  · exact .shut (fun h => nomatch h.notClosed) (.inr ⟨rfl, rfl⟩) ⟨rfl, rfl⟩

theorem pumpEvents_effect (sends : Prop) (timer reply : Bool) :
    Effect limits s sends (pumpEvents { s with eventTimer := timer, protectedReply := reply }) := by
  unfold pumpEvents
  split
  · rename_i hno
    refine .wait s.pump timer reply fun hlive _ _ hidle => absurd hno ?_
    simp [hidle, hlive.notClosed, hlive.accepting]
  · exact .wait .running timer reply fun _ _ _ hidle => nomatch hidle

theorem authorization_effect (sends : Prop) (object version : Nat) (answer : Bool) :
    Effect limits s sends (authorization s object version answer) := by
  unfold authorization
  split
  · exact .wait .running s.eventTimer s.protectedReply fun _ _ _ hidle => nomatch hidle
  split
  · exact .wait .running s.eventTimer s.protectedReply fun _ _ _ hidle => nomatch hidle
  split
  · exact closeState_effect sends .idle
  · exact .authorize (by assumption)

theorem loopTurn_effect (sends : Prop) : Effect limits s sends (loopTurn s) := by
  unfold loopTurn
  split
  · rename_i hstop
    refine .wait .idle s.eventTimer s.protectedReply fun hlive _ hreply _ => ?_
    simp [hlive.notClosed, hlive.accepting, hreply] at hstop
  split
  · exact .wait .idle s.eventTimer s.protectedReply fun _ hne => absurd (by assumption) hne
  split
  · exact .wait .sending s.eventTimer s.protectedReply fun _ _ _ hidle => nomatch hidle
  · exact .wait _ s.eventTimer s.protectedReply fun _ _ _ hidle => nomatch hidle

theorem sendHead_effect (buffered atSend : Nat) (sends : Bool) :
    Effect limits s (sends = true) (sendHead limits s buffered atSend sends) := by
  unfold sendHead
  split
  · exact .wait .idle s.eventTimer s.protectedReply fun _ hne => absurd (by assumption) hne
  rename_i event rest hevents
  split
  · unfold scheduleEventPump
    split
    · rename_i htimer
      refine .wait .idle s.eventTimer s.protectedReply fun hlive _ _ _ => .inl ?_
      simpa [hlive.notClosed] using htimer
    · exact .wait .idle true s.protectedReply fun _ _ _ _ => .inl rfl
  rename_i hsoft
  split
  · exact closeState_effect _ .idle
  unfold sendText
  split
  · rename_i hgone
    refine .lose hevents (.inl fun hlive => ?_)
    simp [hlive.notClosed, hlive.isOpen] at hgone
  split
  · unfold closeState
    split
    · rename_i hopen _ hclosed
      have hclosed' : s.closed = true := hclosed
      simp [hclosed'] at hopen
    · exact .shut (fun h => nomatch h.notClosed) (.inr ⟨rfl, rfl⟩) ⟨rfl, rfl⟩
  split
  · exact .send hevents fun hrep => not_lt.mp fun hlt => hsoft ⟨hrep, by omega⟩
  · rename_i hfail
    exact .lose hevents (.inr hfail)

theorem step_effect (limits : Limits) (s : ClientState) {action : Action}
    (hcall : ∀ event, action ≠ .queue event) : Effect limits s action.Sends (step limits s action) := by
  have hstay : ∀ sends, Effect limits s sends s := fun sends =>
    .wait s.pump s.eventTimer s.protectedReply fun _ _ _ hidle => .inr ⟨hidle, rfl, rfl⟩
  cases action with
  | queue event => exact absurd rfl (hcall event)
  | loop =>
    unfold step
    dsimp only
    split
    · exact loopTurn_effect _
    · exact hstay _
  | authorized answer =>
    unfold step
    dsimp only
    split
    · exact authorization_effect _ _ _ answer
    · exact hstay _
  | send buffered atSend sends =>
    unfold step
    dsimp only
    split
    · exact sendHead_effect buffered atSend sends
    · exact hstay _
  | timer =>
    unfold step
    dsimp only
    split
    · exact pumpEvents_effect _ false s.protectedReply
    · exact hstay _
  | protectReply => exact .wait s.pump s.eventTimer true fun _ _ h => nomatch h
  | replied => exact pumpEvents_effect _ s.eventTimer false
  | leavesOpen => exact .shut (fun h => nomatch h.isOpen) (.inl ⟨rfl, rfl⟩) ⟨rfl, rfl⟩
  | close => exact closeState_effect _ (closeState s).pump
  | socketClosed => exact .shut (fun h => nomatch h.notClosed) (.inr ⟨rfl, rfl⟩) ⟨rfl, rfl⟩
  | terminate => exact .shut (fun h => nomatch h.notClosed) (.inl ⟨rfl, rfl⟩) ⟨rfl, rfl⟩
  | stopAccepting =>
    unfold step
    dsimp only
    split
    · exact .shut (fun h => nomatch h.accepting) (.inr ⟨rfl, rfl⟩) ⟨rfl, rfl⟩
    · exact hstay _

theorem Accounted.effect {sends : Prop} {t : ClientState} (h : Accounted limits s)
    (heffect : Effect limits s sends t) : Accounted limits t := by
  have hrest : ∀ {q : QueuedEvent} {rest : List QueuedEvent}, s.events = q :: rest →
      s.eventBytes - q.bytes = bytesOf rest ∧ s.eventBytes - q.bytes ≤ limits.outboundHardLimit ∧
        rest.length ≤ limits.maxQueuedFrames := by
    intro q rest hevents
    have hbytes := h.bytes
    have hframes := h.frames
    have hhard := h.hard
    rw [hevents, bytesOf, List.map_cons, List.sum_cons] at hbytes
    rw [hevents, List.length_cons] at hframes
    exact ⟨by rw [hbytes, bytesOf]; omega, by omega, by omega⟩
  cases heffect with
  | wait => exact ⟨h.bytes, h.hard, h.frames⟩
  | authorize hevents =>
    have hbytes := h.bytes
    have hframes := h.frames
    rw [hevents] at hbytes hframes
    exact ⟨hbytes, h.hard, hframes⟩
  | send hevents =>
    obtain ⟨hbytes, hhard, hframes⟩ := hrest hevents
    exact ⟨hbytes, hhard, hframes⟩
  | lose hevents =>
    obtain ⟨hbytes, hhard, hframes⟩ := hrest hevents
    exact ⟨hbytes, hhard, hframes⟩
  | shut _ hevents =>
    rcases hevents with ⟨hevents, hbytes⟩ | ⟨hevents, hbytes⟩
    · exact ⟨by rw [hbytes, hevents, h.bytes], by rw [hbytes]; exact h.hard,
        by rw [hevents]; exact h.frames⟩
    · exact accounted_empty hevents hbytes

theorem action_cases (action : Action) :
    (∃ event, action = .queue event) ∨ ∀ event, action ≠ .queue event := by
  cases action <;> simp

theorem Accounted.step (h : Accounted limits s) (action : Action) :
    Accounted limits (step limits s action) := by
  rcases action_cases action with ⟨event, rfl⟩ | hcall
  · exact h.queue event
  · exact h.effect (step_effect limits s hcall)

def entry (q : QueuedEvent) : SerializedEvent × Nat := (q.toSerializedEvent, q.ticket)

/-- What was handed to the socket, then what is queued. -/
def entries (s : ClientState) : List (SerializedEvent × Nat) := (s.sent ++ s.events).map entry

/-- The ledger of the accepted payloads, the last of which may be on its way. -/
structure Books (limits : Limits) (accepted : List SerializedEvent) (s : ClientState) : Prop where
  ledger : Ledger (fun e => e.replaceable) (fun e => e.channel) (entries s) accepted
    (s.dropped.map fun d => d.ticket)
  overfull : ∀ d ∈ s.dropped, Over limits d.eventBytes d.length

theorem live_of_effect {sends : Prop} {t : ClientState} (h : Effect limits s sends t) (hlive : Live t) :
    Live s := by
  cases h with
  | shut hdead => exact absurd hlive hdead
  | _ => exact ⟨hlive.notClosed, hlive.isOpen, hlive.accepting⟩

/-- Apart from calls, whatever happens hands events on in their order and loses none, as long
as the client is open. -/
theorem entries_effect {sends : Prop} {t : ClientState} (h : Effect limits s sends t) (hsends : sends)
    (hlive : Live t) :
    entries t = entries s ∧ t.accepted = s.accepted ∧ t.dropped = s.dropped := by
  have hbefore := live_of_effect h hlive
  cases h with
  | wait => exact ⟨rfl, rfl, rfl⟩
  | authorize hevents =>
    refine ⟨?_, rfl, rfl⟩
    rw [entries, entries, hevents, List.map_append, List.map_append]
    rfl
  | send hevents =>
    refine ⟨?_, rfl, rfl⟩
    rw [entries, entries, hevents, List.append_assoc]
    rfl
  | lose _ cause => exact absurd hsends (cause.resolve_left fun hno => hno hbefore)
  | shut hdead => exact absurd hlive hdead

theorem books_place (event : SerializedEvent) (h : Books limits s.accepted s) :
    Books limits (s.accepted ++ [event]) (place s event) := by
  obtain ⟨front, taken, rest, new, hevents, hplaced, hnew, hticket, -, htaken⟩ :=
    (place_placed s event).events
  have hframe := (place_placed s event).frame
  have hdropped : (place s event).dropped = s.dropped := by rw [hframe]
  have hsent : (place s event).sent = s.sent := by rw [hframe]
  have hbefore : entries s = (s.sent ++ front).map entry ++ taken.map entry ++ rest.map entry := by
    rw [entries, hevents]
    simp
  have hafter : entries (place s event) =
      (s.sent ++ front).map entry ++ (event, s.accepted.length) :: rest.map entry := by
    rw [entries, hplaced, hsent, ← hticket, ← hnew]
    simp [entry]
  refine ⟨?_, by rw [hdropped]; exact h.overfull⟩
  rw [hdropped, hafter]
  refine Ledger.accept (hbefore ▸ h.ledger) event ?_
  rcases htaken with ⟨rfl, rfl⟩ | ⟨old, rfl, hold, hrep, hchannel⟩
  · exact .inl ⟨rfl, rfl⟩
  · exact .inr ⟨entry old, rfl, hold, hrep, hchannel⟩

theorem books_trim {accepted : List SerializedEvent} (turns : Nat) (h : Books limits accepted s) :
    Books limits accepted (trimReplaceableEvents limits turns s) := by
  refine trim_preserves (P := Books limits accepted) ?_ turns h
  intro t front q rest ht hevents hrep hover
  have hbefore : entries t = (t.sent ++ front).map entry ++ entry q :: rest.map entry := by
    rw [entries, hevents]
    simp
  have hafter : entries (dropEvent t q (front ++ rest)) =
      (t.sent ++ front).map entry ++ rest.map entry := by
    rw [entries, dropEvent]
    simp
  have hdrops : (dropEvent t q (front ++ rest)).dropped.map (fun d => d.ticket) =
      t.dropped.map (fun d => d.ticket) ++ [(entry q).2] := by
    rw [dropEvent, List.map_append]
    rfl
  constructor
  · rw [hafter, hdrops]
    exact Ledger.drop (hbefore ▸ ht.ledger) hrep
  · intro d hd
    rcases List.mem_append.mp hd with hd | hd
    · exact ht.overfull d hd
    · rw [List.mem_singleton.mp hd]
      exact hover

theorem not_live_closeState (s : ClientState) : ¬Live (closeState s) := by
  unfold closeState
  split
  · rename_i hclosed
    exact fun h => by simp [h.notClosed] at hclosed
  · exact fun h => nomatch h.notClosed

theorem pumpEvents_frame (s : ClientState) : ∃ pump, pumpEvents s = { s with pump := pump } := by
  unfold pumpEvents
  split
  · exact ⟨s.pump, rfl⟩
  · exact ⟨.running, rfl⟩

theorem Books.step {action : Action} (hsends : action.Sends)
    (h : Live s → Books limits s.accepted s) (hlive : Live (step limits s action)) :
    Books limits (step limits s action).accepted (step limits s action) := by
  rcases action_cases action with ⟨event, rfl⟩ | hcall
  · change Live (queueSerializedEvent limits s event).2 at hlive
    change Books limits (queueSerializedEvent limits s event).2.accepted
      (queueSerializedEvent limits s event).2
    rcases queueSerializedEvent_cases limits s event with
      heq | heq | ⟨haccepting, hclosed, hopen, -, heq | ⟨-, -, heq⟩⟩ <;> rw [heq] at hlive ⊢
    · exact h hlive
    · exact absurd hlive (not_live_closeState s)
    · exact absurd hlive (not_live_closeState _)
    · obtain ⟨pump, hpump⟩ := pumpEvents_frame
        { trimmed limits s event with accepted := s.accepted ++ [event] }
      have hbooks := books_trim (place s event).events.length
        (books_place event (h ⟨hclosed, hopen, haccepting⟩))
      rw [hpump]
      exact ⟨hbooks.ledger, hbooks.overfull⟩
  · have heffect := step_effect limits s hcall
    obtain ⟨hentries, haccepted, hdropped⟩ := entries_effect heffect hsends hlive
    have hbooks := h (live_of_effect heffect hlive)
    refine ⟨?_, by rw [hdropped]; exact hbooks.overfull⟩
    rw [hentries, haccepted, hdropped]
    exact hbooks.ledger

theorem pumpEvents_wakes (hclosed : s.closed = false) (haccepting : s.accepting = true) :
    (pumpEvents s).pump ≠ .idle := by
  unfold pumpEvents
  split
  · rename_i hno
    simpa [hclosed, haccepting] using hno
  · exact nofun

/-- No event waits without a pump turn or the timer to come. -/
def Awake (s : ClientState) : Prop :=
  Live s → s.events ≠ [] → s.protectedReply = false → s.pump = .idle → s.eventTimer = true

theorem Awake.step {action : Action} (hsends : action.Sends) (h : Awake s) :
    Awake (step limits s action) := by
  rcases action_cases action with ⟨event, rfl⟩ | hcall
  · change Awake (queueSerializedEvent limits s event).2
    rcases queueSerializedEvent_cases limits s event with
      heq | heq | ⟨haccepting, hclosed, -, -, heq | ⟨-, -, heq⟩⟩ <;> rw [heq]
    · exact h
    · exact fun hlive => absurd hlive (not_live_closeState s)
    · exact fun hlive => absurd hlive (not_live_closeState _)
    · obtain ⟨created, hframe⟩ := trimmed_frame limits s event
      have hclosed' : (trimmed limits s event).closed = false := by rw [hframe]; exact hclosed
      have haccepting' : (trimmed limits s event).accepting = true := by
        rw [hframe]
        exact haccepting
      exact fun _ _ _ hidle => absurd hidle (pumpEvents_wakes hclosed' haccepting')
  · have heffect := step_effect limits s hcall
    generalize RpcEvents.step limits s action = t at heffect
    cases heffect with
    | wait pump timer reply awake =>
      intro hlive hne hreply hidle
      have hbefore : Live s := ⟨hlive.notClosed, hlive.isOpen, hlive.accepting⟩
      rcases awake hbefore hne hreply hidle with htimer | ⟨hpump, htimer, hprotected⟩
      · exact htimer
      · exact htimer ▸ h hbefore hne (hprotected.trans hreply) hpump
    | authorize => exact fun _ _ _ hidle => nomatch hidle
    | send => exact fun _ _ _ hidle => nomatch hidle
    | lose _ cause =>
      intro hlive
      have hbefore : Live s := ⟨hlive.notClosed, hlive.isOpen, hlive.accepting⟩
      exact absurd hsends (cause.resolve_left fun hno => hno hbefore)
    | shut hdead => exact fun hlive => absurd hlive hdead

/-- Both readings of the buffer leave room for an event. -/
def Room (limits : Limits) (q : QueuedEvent) (buffered atSend : Nat) : Prop :=
  (q.replaceable = true → buffered + q.bytes ≤ limits.outboundHighWater) ∧
    buffered + q.bytes ≤ limits.outboundHardLimit ∧ atSend + q.bytes ≤ limits.outboundHardLimit

/-- What the pump is waiting for happens: its next stretch, a granted authorization, a send
with room, or its timer. -/
def PumpTurn (limits : Limits) (s : ClientState) : Action → Prop
  | .loop => s.pump = .running
  | .authorized answer => answer = true ∧ ∃ object version, s.pump = .waiting object version
  | .send buffered atSend sends =>
    s.pump = .sending ∧ sends = true ∧ ∀ q ∈ s.events.head?, Room limits q buffered atSend
  | .timer => s.eventTimer = true
  | _ => False

/-- How many turns the pump can take before the queue is empty. -/
def rank (s : ClientState) : Nat :=
  5 * s.events.length + (if s.eventTimer then 1 else 0) +
    match s.pump with
    | .idle => 4
    | .running => 3
    | .sending => 1
    | .waiting object version =>
      match s.events with
      | [] => 4
      | q :: _ => if q.object = object ∧ q.version = version then 2 else 4

/-- The pump may send. -/
structure Clear (s : ClientState) : Prop where
  live : Live s
  reply : s.protectedReply = false

theorem loopTurn_clear (h : Clear s) (hpump : s.pump = .running) :
    Clear (loopTurn s) ∧ (loopTurn s).events = s.events ∧
      (s.events ≠ [] → rank (loopTurn s) < rank s) := by
  have hgo : (s.closed || !s.accepting || s.protectedReply) = false := by
    simp [h.live.notClosed, h.live.accepting, h.reply]
  unfold loopTurn
  rw [hgo, if_neg (by decide)]
  split
  · exact ⟨⟨⟨h.live.notClosed, h.live.isOpen, h.live.accepting⟩, h.reply⟩, rfl,
      fun hne => absurd (by assumption) hne⟩
  · rename_i event rest hevents
    split <;> refine ⟨⟨⟨h.live.notClosed, h.live.isOpen, h.live.accepting⟩, h.reply⟩, rfl, fun _ => ?_⟩
    · simp only [rank, hpump]
      omega
    · simp only [rank, hpump, hevents, and_self, if_true]
      omega

theorem authorization_clear (h : Clear s) {object version : Nat}
    (hpump : s.pump = .waiting object version) :
    Clear (authorization s object version true) ∧
      (authorization s object version true).events.length = s.events.length ∧
      (s.events ≠ [] → rank (authorization s object version true) < rank s) := by
  unfold authorization
  split
  · exact ⟨⟨⟨h.live.notClosed, h.live.isOpen, h.live.accepting⟩, h.reply⟩, rfl,
      fun hne => absurd (by assumption) hne⟩
  rename_i event rest hevents
  split
  · rename_i hother
    refine ⟨⟨⟨h.live.notClosed, h.live.isOpen, h.live.accepting⟩, h.reply⟩, rfl, fun _ => ?_⟩
    have hno : ¬(event.object = object ∧ event.version = version) := by tauto
    simp only [rank, hpump, hevents, if_neg hno]
    omega
  · rename_i hsame
    have hyes : event.object = object ∧ event.version = version := by tauto
    refine ⟨⟨⟨h.live.notClosed, h.live.isOpen, h.live.accepting⟩, h.reply⟩, by simp [hevents],
      fun _ => ?_⟩
    simp [rank, hpump, hevents, hyes]

theorem sendHead_clear (h : Clear s) (hpump : s.pump = .sending) {buffered atSend : Nat}
    (hroom : ∀ q ∈ s.events.head?, Room limits q buffered atSend) :
    Clear (sendHead limits s buffered atSend true) ∧
      (sendHead limits s buffered atSend true).events = s.events.tail ∧
      (s.events ≠ [] → rank (sendHead limits s buffered atSend true) < rank s) := by
  unfold sendHead
  split
  · rename_i hevents
    exact ⟨⟨⟨h.live.notClosed, h.live.isOpen, h.live.accepting⟩, h.reply⟩, by simp [hevents],
      fun hne => absurd hevents hne⟩
  rename_i event rest hevents
  obtain ⟨hsoft, hhard, hagain⟩ := hroom event (by simp [hevents])
  rw [if_neg (fun hno => by have := hsoft hno.1; omega), if_neg (by omega), sendText]
  simp only [h.live.notClosed, h.live.isOpen, Bool.not_true, Bool.or_self, Bool.false_eq_true,
    if_false, if_neg (not_lt.mpr hagain), if_true]
  refine ⟨⟨⟨rfl, rfl, h.live.accepting⟩, h.reply⟩, by simp [hevents], fun _ => ?_⟩
  simp only [rank, hpump, hevents, List.length_cons]
  omega

/-- A turn of the pump keeps the client clear and the queue no longer, and as long as something
is queued it comes closer to the end. -/
theorem pumpTurn_clear {action : Action} (h : Clear s) (hturn : PumpTurn limits s action) :
    Clear (step limits s action) ∧ (s.events = [] → (step limits s action).events = []) ∧
      (s.events ≠ [] → rank (step limits s action) < rank s) := by
  cases action with
  | loop =>
    have hpump : s.pump = .running := hturn
    obtain ⟨hclear, hevents, hrank⟩ := loopTurn_clear h hpump
    rw [step, if_pos hpump]
    exact ⟨hclear, fun hnil => by rw [hevents, hnil], hrank⟩
  | authorized answer =>
    obtain ⟨rfl, object, version, hpump⟩ := hturn
    obtain ⟨hclear, hlength, hrank⟩ := authorization_clear h hpump
    have hstep : step limits s (.authorized true) = authorization s object version true := by
      rw [step, hpump]
    rw [hstep]
    refine ⟨hclear, fun hnil => ?_, hrank⟩
    rw [hnil] at hlength
    exact List.length_eq_zero_iff.mp hlength
  | send buffered atSend sends =>
    obtain ⟨hpump, rfl, hroom⟩ := hturn
    obtain ⟨hclear, hevents, hrank⟩ := sendHead_clear h hpump hroom
    rw [step, if_pos hpump]
    exact ⟨hclear, fun hnil => by rw [hevents, hnil]; rfl, hrank⟩
  | timer =>
    have htimer : s.eventTimer = true := hturn
    rw [step, if_pos htimer]
    obtain ⟨pump, hpump⟩ := pumpEvents_frame { s with eventTimer := false }
    refine ⟨?_, ?_, fun _ => ?_⟩
    · rw [hpump]
      exact ⟨⟨h.live.notClosed, h.live.isOpen, h.live.accepting⟩, h.reply⟩
    · rw [hpump]
      exact id
    · unfold pumpEvents
      split
      · simp [rank, htimer]
      · rename_i hidle
        have hpump' : s.pump = .idle := by
          simp only [not_or, not_not] at hidle
          exact hidle.1
        simp only [rank, htimer, hpump']
        simp
  | _ => exact hturn.elim

/-- Any turns of the pump hand on what is queued in its order; either nothing is queued any
more, or there were few turns and another is due. -/
def Delivers (limits : Limits) (s : ClientState) : Prop :=
  ∀ turns, Guarded (step limits) (PumpTurn limits) s turns →
    entries (run (step limits) s turns) = entries s ∧
      ((run (step limits) s turns).events = [] ∨
        turns.length ≤ 5 * s.events.length + 5 ∧
          ∃ action, PumpTurn limits (run (step limits) s turns) action)

theorem pumpTurn_sends {action : Action} (h : PumpTurn limits s action) : action.Sends := by
  cases action with
  | send => exact h.2.1
  | _ => trivial

theorem pumpTurn_entries {action : Action} (h : Clear s) (hturn : PumpTurn limits s action) :
    entries (step limits s action) = entries s := by
  have hcall : ∀ event, action ≠ .queue event := by
    rintro event rfl
    exact hturn
  exact (entries_effect (step_effect limits s hcall) (pumpTurn_sends hturn)
    (pumpTurn_clear h hturn).1.live).1

theorem rank_le (s : ClientState) : rank s ≤ 5 * s.events.length + 5 := by
  have htimer : (if s.eventTimer then 1 else 0) ≤ 1 := by split <;> omega
  have hpump : (match s.pump with
      | .idle => 4
      | .running => 3
      | .sending => 1
      | .waiting object version =>
        match s.events with
        | [] => 4
        | q :: _ => if q.object = object ∧ q.version = version then 2 else 4) ≤ 4 := by
    split
    · omega
    · omega
    · omega
    · split
      · omega
      · split <;> omega
  unfold rank
  omega

theorem le_bytesOf {q : QueuedEvent} {events : List QueuedEvent} (h : q ∈ events) :
    (q.bytes : Int) ≤ bytesOf events := by
  have hnonneg : ∀ l : List QueuedEvent, 0 ≤ bytesOf l := by
    intro l
    induction l with
    | nil => exact le_rfl
    | cons p l ih =>
      rw [bytesOf, List.map_cons, List.sum_cons]
      have : 0 ≤ (l.map fun q => (q.bytes : Int)).sum := ih
      omega
  obtain ⟨front, rest, rfl⟩ := List.append_of_mem h
  have h1 := hnonneg front
  have h2 := hnonneg rest
  unfold bytesOf at h1 h2 ⊢
  simp only [List.map_append, List.sum_append, List.map_cons, List.sum_cons]
  omega

theorem pumpTurn_due (h : Clear s) (hne : s.events ≠ []) (hawake : Awake s)
    (hbytes : Accounted limits s)
    (hfits : ∀ q ∈ s.events, q.replaceable = true → q.bytes ≤ limits.outboundHighWater) :
    ∃ action, PumpTurn limits s action := by
  cases hpump : s.pump with
  | idle => exact ⟨.timer, hawake h.live hne h.reply hpump⟩
  | running => exact ⟨.loop, hpump⟩
  | waiting object version => exact ⟨.authorized true, rfl, object, version, hpump⟩
  | sending =>
    refine ⟨.send 0 0 true, hpump, rfl, fun q hq => ?_⟩
    have hmem : q ∈ s.events := List.mem_of_mem_head? hq
    have hle : (q.bytes : Int) ≤ bytesOf s.events := le_bytesOf hmem
    have hhard := hbytes.hard
    rw [hbytes.bytes] at hhard
    exact ⟨fun hrep => by have := hfits q hmem hrep; omega, by omega, by omega⟩

theorem forall_events_effect {P : SerializedEvent → Prop} {sends : Prop} {t : ClientState}
    (heffect : Effect limits s sends t) (h : ∀ q ∈ s.events, P q.toSerializedEvent) :
    ∀ q ∈ t.events, P q.toSerializedEvent := by
  cases heffect with
  | wait => exact h
  | @authorize head rest hevents =>
    intro q hq
    rw [hevents] at h
    rcases List.mem_cons.mp hq with rfl | hq
    · exact h head List.mem_cons_self
    · exact h q (List.mem_cons_of_mem _ hq)
  | send hevents => exact fun q hq => h q (hevents ▸ List.mem_cons_of_mem _ hq)
  | lose hevents => exact fun q hq => h q (hevents ▸ List.mem_cons_of_mem _ hq)
  | shut _ hevents =>
    rcases hevents with ⟨hevents, -⟩ | ⟨hevents, -⟩
    · rwa [hevents]
    · rw [hevents]
      exact nofun

def Fits (limits : Limits) (event : SerializedEvent) : Prop :=
  event.replaceable = true → event.bytes ≤ limits.outboundHighWater

theorem delivers_of_clear (h : Clear s) (hawake : Awake s) (hbytes : Accounted limits s)
    (hfits : ∀ q ∈ s.events, Fits limits q.toSerializedEvent) : Delivers limits s := by
  intro turns hturns
  have hkeep : ∀ t action, (Clear t ∧ Awake t ∧ Accounted limits t ∧
      (∀ q ∈ t.events, Fits limits q.toSerializedEvent) ∧ entries t = entries s) →
      PumpTurn limits t action → Clear (step limits t action) ∧ Awake (step limits t action) ∧
        Accounted limits (step limits t action) ∧
        (∀ q ∈ (step limits t action).events, Fits limits q.toSerializedEvent) ∧
        entries (step limits t action) = entries s := by
    rintro t action ⟨hclear, hawake, hbytes, hfits, hentries⟩ hturn
    have hcall : ∀ event, action ≠ .queue event := by
      rintro event rfl
      exact hturn
    exact ⟨(pumpTurn_clear hclear hturn).1, hawake.step (pumpTurn_sends hturn), hbytes.step action,
      forall_events_effect (step_effect limits t hcall) hfits,
      (pumpTurn_entries hclear hturn).trans hentries⟩
  have hinv := run_preserves hkeep hturns ⟨h, hawake, hbytes, hfits, rfl⟩
  refine ⟨hinv.2.2.2.2, ?_⟩
  by_cases hempty : (run (step limits) s turns).events = []
  · exact .inl hempty
  · have hprogress := run_progress (fun t => t.events = []) rank hkeep
      (fun t action ht hturn => (pumpTurn_clear ht.1 hturn).2.1)
      (fun t action ht hturn hne => (pumpTurn_clear ht.1 hturn).2.2 hne) hturns
      ⟨h, hawake, hbytes, hfits, rfl⟩
    have hle := hprogress.resolve_left hempty
    have hrank := rank_le s
    exact .inr ⟨by omega, pumpTurn_due hinv.1 hempty hinv.2.1 hinv.2.2.1 hinv.2.2.2.1⟩

/-- Over every order of calls, pump turns, authorizations, buffer readings and closings: the
byte count is right and the queue within its bounds; while the client is open every accepted
payload was sent or is queued, unless it is replaceable and was superseded, or trimmed from an
overfull queue; the others keep their order, each once; and where no queued snapshot is larger
than the high-water mark, the pump sends the whole queue as soon as the buffer has room. -/
theorem accepted_events_kept (limits : Limits) {actions : List Action}
    (hsends : ∀ action ∈ actions, action.Sends) :
    Accounted limits (run (step limits) attach actions) ∧
      (Live (run (step limits) attach actions) →
        Books limits (run (step limits) attach actions).accepted
            (run (step limits) attach actions) ∧
          ((run (step limits) attach actions).protectedReply = false →
            (∀ q ∈ (run (step limits) attach actions).events, Fits limits q.toSerializedEvent) →
            Delivers limits (run (step limits) attach actions))) := by
  have hkeep : ∀ s action, (Accounted limits s ∧ Awake s ∧ (Live s → Books limits s.accepted s)) →
      action.Sends → Accounted limits (step limits s action) ∧ Awake (step limits s action) ∧
        (Live (step limits s action) →
          Books limits (step limits s action).accepted (step limits s action)) :=
    fun s action h hsend =>
      ⟨h.1.step action, h.2.1.step hsend, fun hlive => Books.step hsend h.2.2 hlive⟩
  obtain ⟨hbytes, hawake, hbooks⟩ := run_preserves hkeep (guarded_of_forall hsends attach)
    ⟨accounted_empty rfl rfl, fun _ hne => absurd rfl hne, fun _ => ⟨.empty, nofun⟩⟩
  exact ⟨hbytes, fun hlive => ⟨hbooks hlive, fun hreply hfits =>
    delivers_of_clear ⟨hlive, hreply⟩ hawake hbytes hfits⟩⟩

def eventFrame (channel payload : String) : Text :=
  js "\x7b\"kind\":\"event\",\"channel\":\"" ++ js channel ++ js "\",\"payload\":" ++ js payload ++
    js "\x7d"

def snapshot (channel payload : String) : SerializedEvent :=
  serializeEvent (js channel) (eventFrame channel payload)

/-- The limits of a client that is soon too slow. -/
def tight : Limits := ⟨64, 100, 400⟩

def longPayload : String :=
  "\"0123456789012345678901234567890123456789012345678901234567890123456789\""

/-- A snapshot that is superseded while its authorization is pending. -/
def coalescing : List Action :=
  [.queue (snapshot "push:system" "1"), .loop, .queue (snapshot "push:system" "2"),
    .authorized true]

theorem accepted_events_kept_coalescing :
    Accounted tight (run (step tight) attach coalescing) ∧
      (Live (run (step tight) attach coalescing) →
        Books tight (run (step tight) attach coalescing).accepted
            (run (step tight) attach coalescing) ∧
          ((run (step tight) attach coalescing).protectedReply = false →
            (∀ q ∈ (run (step tight) attach coalescing).events, Fits tight q.toSerializedEvent) →
            Delivers tight (run (step tight) attach coalescing))) :=
  accepted_events_kept tight (by simp [coalescing, Action.Sends])

/-- An accepted payload that is neither sent nor queued. -/
structure Lost (n : Nat) (s : ClientState) : Prop where
  accepted : n < s.accepted.length
  gone : ∀ q ∈ s.sent ++ s.events, q.ticket ≠ n

theorem Lost.closeState {n : Nat} (h : Lost n s) : Lost n (closeState s) := by
  unfold RpcEvents.closeState
  split
  · exact h
  · refine ⟨h.accepted, fun q hq => h.gone q ?_⟩
    rw [List.append_nil] at hq
    exact List.mem_append_left _ hq

theorem lost_trimmed {n : Nat} (h : Lost n s) (event : SerializedEvent) :
    Lost n (trimmed limits s event) := by
  have hplace : Lost n (place s event) := by
    obtain ⟨front, taken, rest, new, hevents, hplaced, -, hticket, -⟩ := (place_placed s event).events
    have hframe := (place_placed s event).frame
    have haccepted : (place s event).accepted = s.accepted := by rw [hframe]
    have hsent : (place s event).sent = s.sent := by rw [hframe]
    refine ⟨by rw [haccepted]; exact h.accepted, fun q hq => ?_⟩
    have hlt := h.accepted
    rw [hsent, hplaced] at hq
    by_cases hnew : q = new
    · subst hnew
      omega
    · refine h.gone q ?_
      simp only [List.mem_append, List.mem_cons, hevents] at hq ⊢
      tauto
  refine trim_preserves (P := Lost n) ?_ _ hplace
  intro t front dropped rest ht hevents _ _
  refine ⟨ht.accepted, fun q hq => ht.gone q ?_⟩
  rw [hevents]
  simp only [dropEvent, List.mem_append, List.mem_cons] at hq ⊢
  tauto

/-- A lost payload is never found again. -/
theorem Lost.step {n : Nat} (h : Lost n s) (action : Action) : Lost n (step limits s action) := by
  rcases action_cases action with ⟨event, rfl⟩ | hcall
  · change Lost n (queueSerializedEvent limits s event).2
    have htrimmed : Lost n (trimmed limits s event) := lost_trimmed h event
    rcases queueSerializedEvent_cases limits s event with
      heq | heq | ⟨-, -, -, -, heq | ⟨-, -, heq⟩⟩ <;> rw [heq]
    · exact h
    · exact h.closeState
    · exact htrimmed.closeState
    · obtain ⟨pump, hpump⟩ := pumpEvents_frame
        { trimmed limits s event with accepted := s.accepted ++ [event] }
      rw [hpump]
      refine ⟨?_, htrimmed.gone⟩
      have := h.accepted
      rw [List.length_append]
      omega
  · have heffect := step_effect limits s hcall
    generalize RpcEvents.step limits s action = t at heffect
    cases heffect with
    | wait => exact ⟨h.accepted, h.gone⟩
    | @authorize head rest hevents =>
      refine ⟨h.accepted, fun q hq => ?_⟩
      rcases List.mem_append.mp hq with hq | hq
      · exact h.gone q (List.mem_append_left _ hq)
      · rcases List.mem_cons.mp hq with rfl | hq
        · exact h.gone head (by simp [hevents])
        · exact h.gone q (by simp [hevents, hq])
    | send hevents =>
      refine ⟨h.accepted, fun q hq => h.gone q ?_⟩
      simpa [hevents] using hq
    | lose hevents =>
      refine ⟨h.accepted, fun q hq => h.gone q ?_⟩
      rw [hevents]
      simp only [List.mem_append, List.mem_cons] at hq ⊢
      tauto
    | shut _ hevents hframe =>
      refine ⟨by rw [hframe.2]; exact h.accepted, fun q hq => h.gone q ?_⟩
      rw [hframe.1] at hq
      rcases hevents with ⟨hevents, -⟩ | ⟨hevents, -⟩ <;> rw [hevents] at hq
      · exact hq
      · exact List.mem_append_left _ (by simpa using hq)

theorem Lost.run {n : Nat} (h : Lost n s) (actions : List Action) :
    Lost n (run (RpcEvents.step limits) s actions) :=
  List.foldlRecOn actions _ h fun _ ht action _ => ht.step action

/-- A snapshot larger than the high-water mark is not sent, whatever the buffer: without
another call, nothing is sent any more. -/
theorem oversized_never_sent {actions : List Action}
    (hcall : ∀ action ∈ actions, ∀ event, action ≠ .queue event)
    (h : ∀ q ∈ s.events, ¬Fits limits q.toSerializedEvent) :
    (run (step limits) s actions).sent = s.sent := by
  have hkeep : ∀ t action, (t.sent = s.sent ∧ ∀ q ∈ t.events, ¬Fits limits q.toSerializedEvent) →
      (∀ event, action ≠ .queue event) → (step limits t action).sent = s.sent ∧
        ∀ q ∈ (step limits t action).events, ¬Fits limits q.toSerializedEvent := by
    rintro t action ⟨hsent, hbig⟩ hno
    have heffect := step_effect limits t hno
    refine ⟨?_, forall_events_effect (P := fun e => ¬Fits limits e) heffect hbig⟩
    generalize step limits t action = u at heffect
    cases heffect with
    | send hevents hfits => exact absurd hfits (hbig _ (hevents ▸ List.mem_cons_self))
    | shut _ _ hframe => rw [hframe.1, hsent]
    | _ => exact hsent
  exact (run_preserves hkeep (guarded_of_forall hcall s) ⟨rfl, h⟩).1

theorem accepted_of_no_call {actions : List Action}
    (hcall : ∀ action ∈ actions, ∀ event, action ≠ .queue event) :
    (run (step limits) s actions).accepted = s.accepted := by
  have hkeep : ∀ t action, t.accepted = s.accepted → (∀ event, action ≠ .queue event) →
      (step limits t action).accepted = s.accepted := by
    intro t action ht hno
    have heffect := step_effect limits t hno
    generalize step limits t action = u at heffect
    cases heffect with
    | shut _ _ hframe => rw [hframe.2, ht]
    | _ => exact ht
  exact run_preserves hkeep (guarded_of_forall hcall s) rfl

def trimming : List Action := [.queue (snapshot "push:system" "1"), .queue (snapshot "push:top" "2")]

def oversized : List Action := [.queue (snapshot "push:system" longPayload)]

/-- Two calls on different channels return true, and the second trims the payload of the first:
it is not sent, and nothing takes its place. A payload between the two limits is accepted and
never sent. -/
theorem accepted_event_lost :
    ((run (step tight) attach trimming).accepted =
        [snapshot "push:system" "1", snapshot "push:top" "2"] ∧
      ∀ more : List Action, (∀ action ∈ more, ∀ event, action ≠ .queue event) →
        Lost 0 (run (step tight) attach (trimming ++ more)) ∧
        ¬Superseded (fun e => e.replaceable) (fun e => e.channel)
          (run (step tight) attach (trimming ++ more)).accepted 0 (snapshot "push:system" "1")) ∧
    (run (step tight) attach oversized).accepted = [snapshot "push:system" longPayload] ∧
      ∀ more : List Action, (∀ action ∈ more, ∀ event, action ≠ .queue event) →
        (run (step tight) attach (oversized ++ more)).sent = [] ∧
        (run (step tight) attach (oversized ++ more)).accepted =
          [snapshot "push:system" longPayload] := by
  have hboth : (run (step tight) attach trimming).accepted =
      [snapshot "push:system" "1", snapshot "push:top" "2"] := by decide +kernel
  have hbig : (run (step tight) attach oversized).accepted =
      [snapshot "push:system" longPayload] := by decide +kernel
  refine ⟨⟨hboth, fun more hmore => ?_⟩, hbig, fun more hmore => ?_⟩
  · rw [run_append]
    refine ⟨Lost.run ⟨by decide +kernel, by decide +kernel⟩ more, ?_⟩
    rw [accepted_of_no_call hmore, hboth]
    rintro ⟨m, e, hm, he, -, hchannel⟩
    obtain ⟨hlt, rfl⟩ := List.getElem?_eq_some_iff.mp he
    have hone : m = 1 := by simp at hlt; omega
    subst hone
    exact absurd (show js "push:top" = js "push:system" from hchannel) (by decide)
  · rw [run_append, accepted_of_no_call hmore, oversized_never_sent hmore]
    · exact ⟨by decide +kernel, hbig⟩
    · unfold Fits
      decide +kernel

end BoredManager.Server.RpcEvents
