import BoredManager.Server.RpcEventRuns
import BoredManager.Shared.Rpc

/-! Broadcasts about several machines on one channel: a snapshot takes the place of the queued
one of its channel, whichever machine that one is about. -/
namespace BoredManager.Server.RpcEvents
open BoredManager.Js BoredManager.Machine

variable {limits : Limits} {s : ClientState}

/-- The `machineId` of the payload in a frame; a payload about the whole pool has none. -/
def machineIdOf (parse : Text → Option Json) (event : SerializedEvent) : Option Text :=
  (parse event.text).bind fun frame =>
    (frame.field? (js "payload")).bind fun payload =>
      match payload.field? (js "machineId") with
      | some (.str machineId) => some machineId
      | _ => none

/-- The client is open and no reply protects it, and the event and the queue with it are
within the limits. -/
structure Below (limits : Limits) (s : ClientState) (event : SerializedEvent) : Prop where
  live : Live s
  unprotected : s.protectedReply = false
  fits : event.bytes ≤ limits.outboundHardLimit
  hard : (place s event).eventBytes ≤ limits.outboundHardLimit
  room : ¬Over limits (place s event).eventBytes (place s event).events.length

/-- No snapshot of another machine waits on the channel of the event. -/
def Unmixed (machineOf : SerializedEvent → Option Text) (s : ClientState)
    (event : SerializedEvent) : Prop :=
  event.replaceable = true → ∀ q ∈ s.events, q.replaceable = true → q.channel = event.channel →
    machineOf q.toSerializedEvent = machineOf event

/-- The events that a run broadcasts. -/
def broadcasts (actions : List Action) : List SerializedEvent :=
  actions.filterMap fun action => match action with
    | .queue event => some event
    | _ => none

/-- The last event of a run about its machine on its channel. -/
def IsFinal (machineOf : SerializedEvent → Option Text) (all : List SerializedEvent) (n : Nat)
    (event : SerializedEvent) : Prop :=
  all[n]? = some event ∧ ∀ m later, n < m → all[m]? = some later →
    later.channel = event.channel → machineOf later ≠ machineOf event

/-- The ledger by channel and machine, of a queue that was never trimmed. -/
structure MachineBooks (machineOf : SerializedEvent → Option Text)
    (accepted : List SerializedEvent) (s : ClientState) : Prop where
  ledger : Ledger (fun e => e.replaceable) (fun e => (e.channel, machineOf e)) (entries s) accepted []

/-- Below the limits nothing is trimmed and the broadcast is accepted. -/
theorem queue_below {event : SerializedEvent} (h : Below limits s event) :
    queueSerializedEvent limits s event =
      (true, pumpEvents { place s event with accepted := s.accepted ++ [event] }) := by
  have htrim : ∀ turns, trimReplaceableEvents limits turns (place s event) = place s event := by
    intro turns
    cases turns with
    | zero => rfl
    | succ turns => rw [trimReplaceableEvents, if_neg h.room]
  have hroom := h.room
  simp only [Over, not_or, not_lt] at hroom
  unfold queueSerializedEvent
  rw [if_neg (by simp [h.live.accepting, h.live.notClosed, h.live.isOpen, h.unprotected]),
    if_neg (not_lt.mpr h.fits)]
  dsimp only
  rw [htrim, if_neg (not_or.mpr ⟨not_lt.mpr h.hard, not_lt.mpr hroom.2⟩)]

theorem machineBooks_place {machineOf : SerializedEvent → Option Text} (event : SerializedEvent)
    (hunmixed : Unmixed machineOf s event) (h : MachineBooks machineOf s.accepted s) :
    MachineBooks machineOf (s.accepted ++ [event]) (place s event) := by
  obtain ⟨front, taken, rest, new, hevents, hplaced, hnew, hticket, -, htaken⟩ :=
    (place_placed s event).events
  have hframe := (place_placed s event).frame
  have hsent : (place s event).sent = s.sent := by rw [hframe]
  have hbefore : entries s = (s.sent ++ front).map entry ++ taken.map entry ++ rest.map entry := by
    rw [entries, hevents]
    simp
  have hafter : entries (place s event) =
      (s.sent ++ front).map entry ++ (event, s.accepted.length) :: rest.map entry := by
    rw [entries, hplaced, hsent, ← hticket, ← hnew]
    simp [entry]
  refine ⟨?_⟩
  rw [hafter]
  refine Ledger.accept (hbefore ▸ h.ledger) event ?_
  rcases htaken with ⟨rfl, rfl⟩ | ⟨old, rfl, hold, hrep, hchannel⟩
  · exact .inl ⟨rfl, rfl⟩
  · have hmachine := hunmixed hrep old (by simp [hevents]) hold hchannel
    exact .inr ⟨entry old, rfl, hold, hrep, Prod.ext hchannel hmachine⟩

/-- What happens to a client that keeps up: broadcasts below the limits, and anything else as
long as `socket.send` does not throw. -/
def KeepsUp (limits : Limits) (s : ClientState) : Action → Prop
  | .queue event => Below limits s event
  | .send _ _ sends => sends = true
  | _ => True

/-- And no broadcast mixes machines. -/
def Separate (limits : Limits) (machineOf : SerializedEvent → Option Text) (s : ClientState)
    (action : Action) : Prop :=
  KeepsUp limits s action ∧ ∀ event ∈ broadcasts [action], Unmixed machineOf s event

instance (s : ClientState) : Decidable (Live s) :=
  decidable_of_iff (s.closed = false ∧ s.isOpen = true ∧ s.accepting = true)
    ⟨fun h => ⟨h.1, h.2.1, h.2.2⟩, fun h => ⟨h.1, h.2, h.3⟩⟩

instance (limits : Limits) (s : ClientState) (event : SerializedEvent) :
    Decidable (Below limits s event) :=
  decidable_of_iff (Live s ∧ s.protectedReply = false ∧ event.bytes ≤ limits.outboundHardLimit ∧
      (place s event).eventBytes ≤ limits.outboundHardLimit ∧
      ¬Over limits (place s event).eventBytes (place s event).events.length)
    ⟨fun h => ⟨h.1, h.2.1, h.2.2.1, h.2.2.2.1, h.2.2.2.2⟩, fun h => ⟨h.1, h.2, h.3, h.4, h.5⟩⟩

instance (limits : Limits) (s : ClientState) : (action : Action) →
    Decidable (KeepsUp limits s action)
  | .queue event => inferInstanceAs (Decidable (Below limits s event))
  | .send _ _ sends => inferInstanceAs (Decidable (sends = true))
  | .loop | .authorized _ | .timer | .protectReply | .replied | .leavesOpen | .close
  | .socketClosed | .terminate | .stopAccepting => .isTrue trivial

instance (machineOf : SerializedEvent → Option Text) (s : ClientState) (event : SerializedEvent) :
    Decidable (Unmixed machineOf s event) :=
  inferInstanceAs (Decidable (event.replaceable = true → ∀ q ∈ s.events, q.replaceable = true →
    q.channel = event.channel → machineOf q.toSerializedEvent = machineOf event))

instance (limits : Limits) (machineOf : SerializedEvent → Option Text) (s : ClientState)
    (action : Action) : Decidable (Separate limits machineOf s action) :=
  inferInstanceAs (Decidable (_ ∧ _))

theorem machineBooks_step {machineOf : SerializedEvent → Option Text} {action : Action}
    (hok : Separate limits machineOf s action) (h : Live s → MachineBooks machineOf s.accepted s)
    (hlive : Live (step limits s action)) :
    MachineBooks machineOf (step limits s action).accepted (step limits s action) := by
  rcases action_cases action with ⟨event, rfl⟩ | hcall
  · have hbelow : Below limits s event := hok.1
    have hunmixed : Unmixed machineOf s event := hok.2 event (List.mem_singleton_self event)
    change MachineBooks machineOf (queueSerializedEvent limits s event).2.accepted
      (queueSerializedEvent limits s event).2
    rw [queue_below hbelow]
    obtain ⟨pump, hpump⟩ := pumpEvents_frame
      { place s event with accepted := s.accepted ++ [event] }
    have hplaced := machineBooks_place event hunmixed (h hbelow.live)
    rw [hpump]
    exact ⟨hplaced.ledger⟩
  · have hsends : action.Sends := by
      cases action with
      | queue event => exact absurd rfl (hcall event)
      | _ => exact hok.1
    have heffect := step_effect limits s hcall
    obtain ⟨hentries, haccepted, -⟩ := entries_effect heffect hsends hlive
    have hbooks := h (live_of_effect heffect hlive)
    exact ⟨by rw [hentries, haccepted]; exact hbooks.ledger⟩

/-- Every broadcast of such a run is accepted. -/
theorem accepted_broadcasts {machineOf : SerializedEvent → Option Text} {actions : List Action}
    (h : Guarded (step limits) (Separate limits machineOf) s actions) :
    (run (step limits) s actions).accepted = s.accepted ++ broadcasts actions := by
  induction actions generalizing s with
  | nil => simp [broadcasts]
  | cons action actions ih =>
    obtain ⟨hok, hrest⟩ := h
    rw [run_cons, ih hrest]
    rcases action_cases action with ⟨event, rfl⟩ | hcall
    · have hstep : (step limits s (.queue event)).accepted = s.accepted ++ [event] := by
        change (queueSerializedEvent limits s event).2.accepted = _
        rw [queue_below hok.1]
        obtain ⟨pump, hpump⟩ := pumpEvents_frame
          { place s event with accepted := s.accepted ++ [event] }
        rw [hpump]
      rw [hstep]
      simp [broadcasts]
    · have hstep : (step limits s action).accepted = s.accepted := by
        have heffect := step_effect limits s hcall
        generalize step limits s action = t at heffect
        cases heffect with
        | shut _ _ hframe => exact hframe.2
        | _ => rfl
      rw [hstep]
      cases action with
      | queue event => exact absurd rfl (hcall event)
      | _ => rfl

/-- In a run below the limits in which no broadcast meets a queued snapshot of another machine
on its channel, the drained queue has delivered the last payload of every machine on every
channel. -/
theorem final_payloads_delivered (limits : Limits) (machineOf : SerializedEvent → Option Text)
    {actions : List Action} (h : Guarded (step limits) (Separate limits machineOf) attach actions)
    (hlive : Live (run (step limits) attach actions))
    (hdrained : (run (step limits) attach actions).events = []) :
    ∀ n event, IsFinal machineOf (broadcasts actions) n event →
      ∃ q ∈ (run (step limits) attach actions).sent,
        q.ticket = n ∧ q.toSerializedEvent = event := by
  have hkeep : ∀ s action, (Live s → MachineBooks machineOf s.accepted s) →
      Separate limits machineOf s action →
      (Live (step limits s action) →
        MachineBooks machineOf (step limits s action).accepted (step limits s action)) :=
    fun s action hbooks hok hlive => machineBooks_step hok hbooks hlive
  have hbooks := run_preserves hkeep h (fun _ => ⟨.empty⟩) hlive
  have haccepted : (run (step limits) attach actions).accepted = broadcasts actions :=
    accepted_broadcasts h
  rintro n event ⟨hevent, hfinal⟩
  have hfate := hbooks.ledger.fate n event (by rw [haccepted]; exact hevent)
  rcases hfate with hentry | ⟨-, ⟨m, later, hm, hlater, -, hkey⟩ | hdropped⟩
  · rw [entries, hdrained, List.append_nil] at hentry
    obtain ⟨q, hq, heq⟩ := List.mem_map.mp hentry
    obtain ⟨hevent', hticket⟩ := Prod.mk.inj heq
    exact ⟨q, hq, hticket, hevent'⟩
  · rw [haccepted] at hlater
    obtain ⟨hchannel, hmachine⟩ := Prod.mk.inj hkey
    exact absurd hmachine (hfinal m later hm hlater hchannel)
  · cases hdropped

def machineFrame (machineId : String) : Text :=
  eventFrame "packages:state" ("\x7b\"machineId\":\"" ++ machineId ++ "\",\"data\":null\x7d")

def machineEvent (machineId : String) : SerializedEvent :=
  serializeEvent (js "packages:state") (machineFrame machineId)

def machineJson (machineId : String) : Json :=
  .obj [(js "kind", .str (js "event")), (js "channel", .str (js "packages:state")),
    (js "payload", .obj [(js "machineId", .str (js machineId)), (js "data", .null)])]

/-- `JSON.parse` of the frames of two machines. -/
def parseMachines (text : Text) : Option Json :=
  if text = machineFrame "a" then some (machineJson "a")
  else if text = machineFrame "b" then some (machineJson "b")
  else none

def roomy : Limits := ⟨64, 1000, 4000⟩

/-- The pump sends the head of the queue. -/
def delivery : List Action := [.loop, .authorized true, .send 0 0 true, .loop]

/-- Two machines whose payloads are delivered one after the other. -/
def apart : List Action :=
  [.queue (machineEvent "a")] ++ delivery ++ [.queue (machineEvent "b")] ++ delivery

theorem isFinal_of_alone {machineOf : SerializedEvent → Option Text} {first second : SerializedEvent}
    (h : machineOf second ≠ machineOf first) : IsFinal machineOf [first, second] 0 first := by
  refine ⟨rfl, fun m later hm hlater _ => ?_⟩
  obtain ⟨hlt, rfl⟩ := List.getElem?_eq_some_iff.mp hlater
  obtain rfl : m = 1 := by simp at hlt; omega
  exact h

theorem machineIds_differ :
    machineIdOf parseMachines (machineEvent "b") ≠ machineIdOf parseMachines (machineEvent "a") := by
  decide +kernel

theorem final_payloads_delivered_apart :
    ∃ q ∈ (run (step roomy) attach apart).sent,
      q.ticket = 0 ∧ q.toSerializedEvent = machineEvent "a" :=
  final_payloads_delivered roomy (machineIdOf parseMachines) (by decide +kernel) (by decide +kernel)
    (by decide +kernel) 0 (machineEvent "a") (isFinal_of_alone machineIds_differ)

/-- Two broadcasts before the pump has sent the first. -/
def mixed : List Action := [.queue (machineEvent "a"), .queue (machineEvent "b")] ++ delivery

/-- The last payload of the first machine is replaced by one of the second, and the drained
queue has not delivered it. -/
theorem final_payload_replaced :
    Guarded (step roomy) (KeepsUp roomy) attach mixed ∧
      Live (run (step roomy) attach mixed) ∧ (run (step roomy) attach mixed).events = [] ∧
      IsFinal (machineIdOf parseMachines) (broadcasts mixed) 0 (machineEvent "a") ∧
      ∀ q ∈ (run (step roomy) attach mixed).sent, q.toSerializedEvent ≠ machineEvent "a" :=
  ⟨by decide +kernel, by decide +kernel, by decide +kernel, isFinal_of_alone machineIds_differ,
    by decide +kernel⟩

end BoredManager.Server.RpcEvents
