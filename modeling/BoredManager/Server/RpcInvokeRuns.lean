import BoredManager.Machine.Desk
import BoredManager.Machine.Runs
import BoredManager.Server.RpcInvokes

/-! One reply for each frame that is owed one, in the order in which the frames came, over every
order of messages, authorizations, handlers and the shutdown. -/
namespace BoredManager.Server.RpcInvokes
open BoredManager.Js BoredManager.Shared BoredManager.Machine

variable {limits : Limits} {parse : Text → Option Json} {s : ClientState}

/-- The replies that a frame is owed. -/
def Answered (parse : Text → Option Json) (raw : Text) (replies : List Reply) : Prop :=
  match parse raw with
  | none => replies = []
  | some frame =>
    match parseRpcClientFrame frame with
    | .ok (.invoke id _ _) => ∃ reply, replies = [reply] ∧ reply.id = id
    | .ok (.send _ _) => replies = []
    | .error error =>
      match error.id with
      | some id => ∃ code message, replies = [.error id code message]
      | none => replies = []

theorem Answered.length_le {raw : Text} {replies : List Reply} (h : Answered parse raw replies) :
    replies.length ≤ 1 := by
  unfold Answered at h
  split at h
  · simp [h]
  split at h
  · obtain ⟨reply, rfl, -⟩ := h
    simp
  · simp [h]
  split at h
  · obtain ⟨code, message, rfl⟩ := h
    simp
  · simp [h]

theorem answered_notJson {raw : Text} (h : parse raw = none) : Answered parse raw [] := by
  rw [Answered, h]

theorem answered_notRecord {raw : Text} {frame : Json} (h : parse raw = some frame)
    (hrecord : frame.isRecord = false) : Answered parse raw [] := by
  have hframe : parseRpcClientFrame frame = .error (frameError (js "expected an object") none) := by
    rw [parseRpcClientFrame, hrecord]
    rfl
  rw [Answered, h]
  dsimp only
  rw [hframe]
  rfl

theorem answered_invoke {raw : Text} {frame : Json} {id : Int} {channel : Text} {args : List Json}
    (h : parse raw = some frame) (hframe : parseRpcClientFrame frame = .ok (.invoke id channel args))
    (reply : Reply) (hid : reply.id = id) : Answered parse raw [reply] := by
  rw [Answered, h]
  dsimp only
  rw [hframe]
  exact ⟨reply, rfl, hid⟩

theorem answered_send {raw : Text} {frame : Json} {channel : Text} {args : List Json}
    (h : parse raw = some frame) (hframe : parseRpcClientFrame frame = .ok (.send channel args)) :
    Answered parse raw [] := by
  rw [Answered, h]
  dsimp only
  rw [hframe]

theorem answered_error {raw : Text} {frame : Json} {error : RpcFrameError} (h : parse raw = some frame)
    (hframe : parseRpcClientFrame frame = .error error) :
    (∀ id code message, error.id = some id → Answered parse raw [.error id code message]) ∧
      (error.id = none → Answered parse raw []) := by
  constructor
  · intro id code message hid
    rw [Answered, h]
    dsimp only
    rw [hframe]
    dsimp only
    rw [hid]
    exact ⟨code, message, rfl⟩
  · intro hid
    rw [Answered, h]
    dsimp only
    rw [hframe]
    dsimp only
    rw [hid]

/-- The frame that is being dispatched. -/
def current (s : ClientState) : List Nat :=
  match s.stage with
  | .idle => []
  | .ready => []
  | .authorizing ticket _ => [ticket]
  | .invoking ticket _ => [ticket]
  | .sending ticket => [ticket]

def waitingTickets (s : ClientState) : List Nat := s.queue.map fun q => q.ticket

/-- What the stage of a dispatch says about its frame. -/
def StageFrame (parse : Text → Option Json) (received : List Text) : Stage → Prop
  | .idle => True
  | .ready => True
  | .authorizing ticket frame => ∃ raw, received[ticket]? = some raw ∧ parse raw = some frame
  | .invoking ticket id => ∃ raw frame channel args, received[ticket]? = some raw ∧
      parse raw = some frame ∧ parseRpcClientFrame frame = .ok (.invoke id channel args)
  | .sending ticket => ∃ raw frame channel args, received[ticket]? = some raw ∧
      parse raw = some frame ∧ parseRpcClientFrame frame = .ok (.send channel args)

def IsInvoking (s : ClientState) : Prop := ∃ ticket id, s.stage = .invoking ticket id

/-- The frames that wait are the one in dispatch and those in the queue; every other frame that
was received has the replies it is owed. -/
structure Facts (parse : Text → Option Json) (s : ClientState) : Prop where
  desk : Desk (Answered parse) s.received s.queued (current s ++ waitingTickets s) s.sent
  order : s.dispatched ++ waitingTickets s = s.queued
  raws : ∀ q ∈ s.queue, s.received[q.ticket]? = some q.raw
  frame : StageFrame parse s.received s.stage
  reply : s.protectedReply = true → IsInvoking s

structure Live (s : ClientState) : Prop where
  notClosed : s.closed = false
  isOpen : s.isOpen = true

theorem not_live_closeState (s : ClientState) : ¬Live (closeState s) := by
  unfold closeState
  split
  · rename_i hclosed
    exact fun h => by simp [h.notClosed] at hclosed
  · exact fun h => nomatch h.notClosed

theorem Live.atStage (h : Live s) (stage : Stage) : Live (s.atStage stage) :=
  ⟨h.notClosed, h.isOpen⟩

theorem sendText_cases (limits : Limits) (hlive : Live s) {wire : Wire} (hsends : wire.sends = true)
    (ticket : Nat) (reply : Reply) :
    sendText limits s wire ticket reply = (true, { s with sent := s.sent ++ [(ticket, reply)] }) ∨
      sendText limits s wire ticket reply = (false, closeState s) := by
  unfold sendText
  rw [hlive.notClosed, hlive.isOpen, hsends]
  split
  · rename_i hno
    simp at hno
  split
  · exact .inr rfl
  · exact .inl rfl

theorem writeError_live (hlive : Live s) {wire : Wire} (hsends : wire.sends = true) {ticket : Nat}
    {id : Int} {code message : Text} (h : Live (writeError limits s wire ticket id code message)) :
    writeError limits s wire ticket id code message =
      { s with sent := s.sent ++ [(ticket, .error id code message)] } := by
  unfold writeError at h ⊢
  rcases sendText_cases limits hlive hsends ticket (.error id code message) with heq | heq
  · rw [heq]
  · rw [heq] at h
    exact absurd h (not_live_closeState s)

theorem StageFrame.append {received : List Text} {stage : Stage}
    (h : StageFrame parse received stage) (raw : Text) :
    StageFrame parse (received ++ [raw]) stage := by
  have hleft : ∀ {n : Nat} {r : Text}, received[n]? = some r → (received ++ [raw])[n]? = some r :=
    fun hr => by rw [List.getElem?_append_left (List.getElem?_eq_some_iff.mp hr).1, hr]
  cases stage with
  | idle => trivial
  | ready => trivial
  | authorizing ticket frame =>
    obtain ⟨r, hr, hparse⟩ := h
    exact ⟨r, hleft hr, hparse⟩
  | invoking ticket id =>
    obtain ⟨r, frame, channel, args, hr, hparse⟩ := h
    exact ⟨r, frame, channel, args, hleft hr, hparse⟩
  | sending ticket =>
    obtain ⟨r, frame, channel, args, hr, hparse⟩ := h
    exact ⟨r, frame, channel, args, hleft hr, hparse⟩

theorem raws_append (h : ∀ q ∈ s.queue, s.received[q.ticket]? = some q.raw) (raw : Text) :
    ∀ q ∈ s.queue, (s.received ++ [raw])[q.ticket]? = some q.raw := fun q hq => by
  rw [List.getElem?_append_left (List.getElem?_eq_some_iff.mp (h q hq)).1, h q hq]

theorem Facts.queue (h : Facts parse s) (raw : Text) (bytes : Nat) :
    Facts parse (enqueue s raw bytes) := by
  have hwaiting : waitingTickets (enqueue s raw bytes) =
      waitingTickets s ++ [s.received.length] := by
    simp [waitingTickets, enqueue]
  refine ⟨?_, ?_, ?_, h.frame.append raw, h.reply⟩
  · have hdesk := h.desk.take raw
    rw [hwaiting, ← List.append_assoc]
    exact hdesk
  · rw [hwaiting, ← List.append_assoc]
    change s.dispatched ++ waitingTickets s ++ [s.received.length] = s.queued ++ [s.received.length]
    rw [h.order]
  · intro q hq
    rcases List.mem_append.mp hq with hq | hq
    · exact raws_append h.raws raw q hq
    · rw [List.mem_singleton.mp hq]
      simp [enqueue]

/-- A frame is received and answered at once. -/
theorem Facts.answer (h : Facts parse s) {raw : Text} {replies : List Reply}
    (hanswered : Answered parse raw replies) :
    Facts parse { s with
      received := s.received ++ [raw], sent := s.sent ++ addressed s.received.length replies } :=
  ⟨h.desk.answer hanswered, h.order, raws_append h.raws raw, h.frame.append raw, h.reply⟩

/-- The dispatch of a frame ends. -/
theorem Facts.finish (h : Facts parse s) {ticket : Nat} (hcurrent : current s = [ticket])
    {raw : Text} (hraw : s.received[ticket]? = some raw) {replies : List Reply}
    (hanswered : Answered parse raw replies) :
    Facts parse { s.atStage .ready with
      sent := s.sent ++ addressed ticket replies, protectedReply := false } := by
  have hdesk := h.desk
  rw [hcurrent] at hdesk
  exact ⟨hdesk.finish hraw hanswered hanswered.length_le, h.order, h.raws, trivial, nofun⟩

theorem notProtected (h : Facts parse s) (hstage : ¬IsInvoking s) : s.protectedReply = false := by
  cases hreply : s.protectedReply with
  | false => rfl
  | true => exact absurd (h.reply hreply) hstage

/-- In a dispatch that has no handler running, replies are not protected, so the dispatch ends
as any other. -/
theorem Facts.finish_quiet (h : Facts parse s) {ticket : Nat} (hcurrent : current s = [ticket])
    (hstage : ¬IsInvoking s) {raw : Text} (hraw : s.received[ticket]? = some raw)
    {replies : List Reply} (hanswered : Answered parse raw replies) :
    Facts parse { s.atStage .ready with sent := s.sent ++ addressed ticket replies } := by
  have hfinish := h.finish hcurrent hraw hanswered
  have hreply := notProtected h hstage
  have hsame : { s.atStage .ready with
      sent := s.sent ++ addressed ticket replies, protectedReply := false } =
      { s.atStage .ready with sent := s.sent ++ addressed ticket replies } := by
    rw [← hreply]
    rfl
  rwa [hsame] at hfinish

theorem addressed_nil (ticket : Nat) : addressed ticket ([] : List Reply) = [] := rfl

/-- A frame that is taken from the queue is the first of those that wait. -/
theorem Facts.shift (h : Facts parse s) (hcurrent : current s = []) {next : QueuedInput}
    {rest : List QueuedInput} (hqueue : s.queue = next :: rest) {frame : Json}
    (hparse : parse next.raw = some frame) (hquiet : s.protectedReply = false) :
    Facts parse ((shiftQueue s next rest).atStage (.authorizing next.ticket frame)) := by
  have hwaiting : waitingTickets s = next.ticket :: rest.map fun q => q.ticket := by
    rw [waitingTickets, hqueue]
    rfl
  have hdesk := h.desk
  have horder := h.order
  rw [hcurrent, hwaiting] at hdesk
  rw [hwaiting] at horder
  refine ⟨hdesk, ?_, fun q hq => h.raws q (hqueue ▸ List.mem_cons_of_mem _ hq), ?_,
    fun hreply => nomatch hquiet.symm.trans hreply⟩
  · change s.dispatched ++ [next.ticket] ++ rest.map (fun q => q.ticket) = s.queued
    rw [← horder, List.append_assoc]
    rfl
  · exact ⟨next.raw, h.raws next (hqueue ▸ List.mem_cons_self), hparse⟩

theorem nextFrame_cases (parse : Text → Option Json) (hopen : s.closed = false)
    (hquiet : s.protectedReply = false) :
    (s.queue = [] ∧ nextFrame parse s = s.atStage .idle) ∨
    ∃ next rest, s.queue = next :: rest ∧
      ((nextFrame parse s = shiftQueue s next rest ∧ Answered parse next.raw []) ∨
      ∃ frame, parse next.raw = some frame ∧
        nextFrame parse s = (shiftQueue s next rest).atStage (.authorizing next.ticket frame)) := by
  unfold nextFrame
  rw [hopen, if_neg (by decide)]
  split
  · exact .inl ⟨by assumption, rfl⟩
  rename_i next rest hqueue
  refine .inr ⟨next, rest, hqueue, ?_⟩
  split
  · exact .inl ⟨rfl, answered_notJson (by assumption)⟩
  rename_i frame hparse
  split
  · rename_i hrecord
    exact .inl ⟨rfl, answered_notRecord hparse (by simpa using hrecord)⟩
  split
  · rename_i hreply
    rw [hquiet] at hreply
    cases hreply
  · exact .inr ⟨frame, hparse, rfl⟩

theorem Facts.next (h : Facts parse s) (hstage : s.stage = .ready) (hopen : s.closed = false) :
    Facts parse (nextFrame parse s) ∧
      ((nextFrame parse s).stage = .idle → (nextFrame parse s).queue = []) := by
  have hcurrent : current s = [] := by rw [current, hstage]
  have hquiet : s.protectedReply = false := by
    refine notProtected h ?_
    rintro ⟨ticket, id, hno⟩
    rw [hstage] at hno
    cases hno
  have hdesk := h.desk
  rw [hcurrent] at hdesk
  rcases nextFrame_cases parse hopen hquiet with
    ⟨hqueue, heq⟩ | ⟨next, rest, hqueue, ⟨heq, hanswered⟩ | ⟨frame, hparse, heq⟩⟩ <;> rw [heq]
  · exact ⟨⟨hdesk, h.order, h.raws, trivial, fun hreply => nomatch hquiet.symm.trans hreply⟩,
      fun _ => hqueue⟩
  · refine ⟨?_, nofun⟩
    have hwaiting : waitingTickets s = next.ticket :: rest.map fun q => q.ticket := by
      rw [waitingTickets, hqueue]
      rfl
    have horder := h.order
    have hraw := h.raws next (hqueue ▸ List.mem_cons_self)
    rw [hwaiting] at hdesk horder
    have hfinish := hdesk.finish hraw hanswered hanswered.length_le
    rw [addressed_nil, List.append_nil] at hfinish
    refine ⟨hfinish, ?_, fun q hq => h.raws q (hqueue ▸ List.mem_cons_of_mem _ hq), trivial,
      fun hreply => nomatch hquiet.symm.trans hreply⟩
    change s.dispatched ++ [next.ticket] ++ rest.map (fun q => q.ticket) = s.queued
    rw [← horder, List.append_assoc]
    rfl
  · exact ⟨h.shift hcurrent hqueue hparse hquiet, nofun⟩

/-- What the part of a dispatch behind the authorization comes to. -/
theorem continueDispatch_cases (limits : Limits) (parse : Text → Option Json) (s : ClientState)
    (ticket : Nat) (frame : Json) (wire : Wire) :
    (∃ id code message, continueDispatch limits s ticket frame wire =
        writeError limits (s.atStage .ready) wire ticket id code message ∧
      ∀ raw, parse raw = some frame → Answered parse raw [.error id code message]) ∨
    (continueDispatch limits s ticket frame wire = s.atStage .ready ∧
      ∀ raw, parse raw = some frame → Answered parse raw []) ∨
    (∃ id channel args, parseRpcClientFrame frame = .ok (.invoke id channel args) ∧
      continueDispatch limits s ticket frame wire = s.atStage (.invoking ticket id)) ∨
    ∃ channel args, parseRpcClientFrame frame = .ok (.send channel args) ∧
      continueDispatch limits s ticket frame wire = s.atStage (.sending ticket) := by
  unfold continueDispatch
  cases hframe : parseRpcClientFrame frame with
  | error error =>
    dsimp only
    cases hid : error.id with
    | some id => exact .inl ⟨id, _, _, rfl, fun raw hraw => (answered_error hraw hframe).1 id _ _ hid⟩
    | none => exact .inr (.inl ⟨rfl, fun raw hraw => (answered_error hraw hframe).2 hid⟩)
  | ok parsed =>
    cases parsed with
    | invoke id channel args =>
      dsimp only
      split
      · exact .inl ⟨id, _, _, rfl, fun raw hraw => answered_invoke hraw hframe _ rfl⟩
      split
      · exact .inr (.inr (.inl ⟨id, channel, args, rfl, rfl⟩))
      · exact .inl ⟨id, _, _, rfl, fun raw hraw => answered_invoke hraw hframe _ rfl⟩
    | send channel args =>
      dsimp only
      split
      · exact .inr (.inl ⟨rfl, fun raw hraw => answered_send hraw hframe⟩)
      split
      · exact .inr (.inr (.inr ⟨channel, args, rfl, rfl⟩))
      · exact .inr (.inl ⟨rfl, fun raw hraw => answered_send hraw hframe⟩)

theorem Facts.continueDispatch (h : Facts parse s) (hlive : Live s) {ticket : Nat} {frame : Json}
    (hstage : s.stage = .authorizing ticket frame) {wire : Wire} (hsends : wire.sends = true)
    (hafter : Live (continueDispatch limits s ticket frame wire)) :
    Facts parse (continueDispatch limits s ticket frame wire) ∧
      (continueDispatch limits s ticket frame wire).stage ≠ .idle := by
  have hcurrent : current s = [ticket] := by rw [current, hstage]
  have hno : ¬IsInvoking s := by
    rintro ⟨t, id, heq⟩
    rw [hstage] at heq
    cases heq
  have hquiet := notProtected h hno
  have hdesk := h.desk
  rw [hcurrent] at hdesk
  obtain ⟨raw, hraw, hparse⟩ : ∃ raw, s.received[ticket]? = some raw ∧ parse raw = some frame := by
    have hframe := h.frame
    rw [hstage] at hframe
    exact hframe
  rcases continueDispatch_cases limits parse s ticket frame wire with
    ⟨id, code, message, heq, hanswered⟩ | ⟨heq, hanswered⟩ | ⟨id, channel, args, hframe, heq⟩ |
      ⟨channel, args, hframe, heq⟩ <;> rw [heq] at hafter ⊢
  · rw [writeError_live (hlive.atStage .ready) hsends hafter]
    exact ⟨h.finish_quiet hcurrent hno hraw (hanswered raw hparse), nofun⟩
  · have hfinish := h.finish_quiet hcurrent hno hraw (hanswered raw hparse)
    rw [addressed_nil, List.append_nil] at hfinish
    exact ⟨hfinish, nofun⟩
  · exact ⟨⟨hdesk, h.order, h.raws, ⟨raw, frame, channel, args, hraw, hparse, hframe⟩,
      fun _ => ⟨ticket, id, rfl⟩⟩, nofun⟩
  · exact ⟨⟨hdesk, h.order, h.raws, ⟨raw, frame, channel, args, hraw, hparse, hframe⟩,
      fun hreply => nomatch hquiet.symm.trans hreply⟩, nofun⟩

theorem live_of_writeError {wire : Wire} {ticket : Nat} {id : Int} {code message : Text}
    (h : Live (writeError limits s wire ticket id code message)) : Live s := by
  unfold writeError sendText at h
  split at h
  · exact h
  split at h
  · exact absurd h (not_live_closeState s)
  split at h
  · exact ⟨h.notClosed, h.isOpen⟩
  · exact h

theorem live_of_finishDeferredClose (h : Live (finishDeferredClose s)) :
    finishDeferredClose s = { s with protectedReply := false } ∧ Live s := by
  unfold finishDeferredClose at h ⊢
  split at h
  · exact absurd h (not_live_closeState _)
  · rename_i hno
    rw [if_neg hno]
    exact ⟨rfl, h.notClosed, h.isOpen⟩

/-- A handler that returned or threw has its invoke answered by one frame. -/
theorem invoked_live {ticket : Nat} {id : Int} {outcome : Outcome} {wire again : Wire}
    (hlive : Live s) (hdetail : outcome ≠ .otherError false) (hwire : wire.sends = true)
    (hagain : again.sends = true) (hafter : Live (invoked limits s ticket id outcome wire again)) :
    ∃ reply : Reply, reply.id = id ∧ invoked limits s ticket id outcome wire again =
      { s.atStage .ready with
        sent := s.sent ++ addressed ticket [reply], protectedReply := false } := by
  have hready := hlive.atStage .ready
  have herror : ∀ {w : Wire} {code message : Text}, w.sends = true →
      Live (finishDeferredClose (writeError limits (s.atStage .ready) w ticket id code message)) →
      finishDeferredClose (writeError limits (s.atStage .ready) w ticket id code message) =
        { s.atStage .ready with
          sent := s.sent ++ addressed ticket [.error id code message], protectedReply := false } := by
    intro w code message hw hl
    obtain ⟨heq, hl⟩ := live_of_finishDeferredClose hl
    rw [heq, writeError_live hready hw hl]
    rfl
  cases outcome with
  | value serializes =>
    cases serializes with
    | false =>
      have heq : invoked limits s ticket id (.value false) wire again = finishDeferredClose
          (writeError limits (s.atStage .ready) again ticket id internal
            (js "Internal server error")) := by
        simp [invoked, hready.notClosed]
      rw [heq] at hafter ⊢
      exact ⟨.error id internal (js "Internal server error"), rfl, herror hagain hafter⟩
    | true =>
      unfold invoked at hafter ⊢
      simp only [if_true] at hafter ⊢
      rcases sendText_cases limits hready hwire ticket (.result id) with heq | heq <;>
        rw [heq] at hafter ⊢
      · refine ⟨.result id, rfl, ?_⟩
        simp only [Bool.not_true, Bool.false_and, Bool.false_eq_true, if_false] at hafter ⊢
        exact (live_of_finishDeferredClose hafter).1
      · obtain ⟨-, hl⟩ := live_of_finishDeferredClose hafter
        split at hl
        · exact absurd (live_of_writeError hl) (not_live_closeState _)
        · exact absurd hl (not_live_closeState _)
  | publicError code message => exact ⟨.error id code message, rfl, herror hwire hafter⟩
  | otherError detail =>
    cases detail with
    | false => exact absurd rfl hdetail
    | true => exact ⟨.error id internal (js "Internal server error"), rfl, herror hwire hafter⟩

theorem Facts.invoked (h : Facts parse s) (hlive : Live s) {ticket : Nat} {id : Int}
    (hstage : s.stage = .invoking ticket id) {outcome : Outcome} {wire again : Wire}
    (hdetail : outcome ≠ .otherError false) (hwire : wire.sends = true) (hagain : again.sends = true)
    (hafter : Live (invoked limits s ticket id outcome wire again)) :
    Facts parse (invoked limits s ticket id outcome wire again) ∧
      (invoked limits s ticket id outcome wire again).stage ≠ .idle := by
  have hcurrent : current s = [ticket] := by rw [current, hstage]
  have hframe := h.frame
  rw [hstage] at hframe
  obtain ⟨raw, frame, channel, args, hraw, hparse, hinvoke⟩ := hframe
  obtain ⟨reply, hid, heq⟩ := invoked_live hlive hdetail hwire hagain hafter
  rw [heq]
  exact ⟨h.finish hcurrent hraw (answered_invoke hparse hinvoke reply hid), nofun⟩

theorem Facts.handledSend (h : Facts parse s) {ticket : Nat} (hstage : s.stage = .sending ticket)
    {outcome : Outcome} (hdetail : outcome ≠ .otherError false)
    (hafter : Live (handledSend s outcome)) :
    Facts parse (handledSend s outcome) ∧ (handledSend s outcome).stage ≠ .idle := by
  have hcurrent : current s = [ticket] := by rw [current, hstage]
  have hno : ¬IsInvoking s := by
    rintro ⟨t, id, heq⟩
    rw [hstage] at heq
    cases heq
  have hframe := h.frame
  rw [hstage] at hframe
  obtain ⟨raw, frame, channel, args, hraw, hparse, hsend⟩ := hframe
  have hdead : ∀ stage, ¬Live ((closeState s).atStage stage) := fun stage hl =>
    not_live_closeState s ⟨hl.notClosed, hl.isOpen⟩
  unfold RpcInvokes.handledSend at hafter ⊢
  split
  · have hfinish := h.finish_quiet hcurrent hno hraw (answered_send hparse hsend)
    rw [addressed_nil, List.append_nil] at hfinish
    exact ⟨hfinish, nofun⟩
  · exact absurd rfl hdetail
  · rename_i hvalue hother
    split at hafter
    · exact absurd rfl (hvalue _)
    · exact absurd rfl hdetail
    · exact absurd hafter (hdead _)

/-- A closed client stays closed, and a socket that is not open stays so. -/
structure Fades (s t : ClientState) : Prop where
  closed : s.closed = true → t.closed = true
  isOpen : s.isOpen = false → t.isOpen = false

theorem Fades.live {t : ClientState} (h : Fades s t) (hlive : Live t) : Live s := by
  constructor
  · cases hclosed : s.closed with
    | false => rfl
    | true => exact nomatch (h.closed hclosed).symm.trans hlive.notClosed
  · cases hopen : s.isOpen with
    | true => rfl
    | false => exact nomatch (h.isOpen hopen).symm.trans hlive.isOpen

theorem Fades.trans {t u : ClientState} (h : Fades s t) (h' : Fades t u) : Fades s u :=
  ⟨fun hs => h'.closed (h.closed hs), fun hs => h'.isOpen (h.isOpen hs)⟩

theorem fades_of_eq {t : ClientState} (hclosed : t.closed = s.closed) (hopen : t.isOpen = s.isOpen) :
    Fades s t := ⟨fun h => hclosed.trans h, fun h => hopen.trans h⟩

theorem closeState_fades (s : ClientState) : Fades s (closeState s) := by
  unfold closeState
  split
  · exact fades_of_eq rfl rfl
  · exact ⟨fun _ => rfl, id⟩

theorem sendText_fades (wire : Wire) (ticket : Nat) (reply : Reply) :
    Fades s (sendText limits s wire ticket reply).2 := by
  unfold sendText
  split
  · exact fades_of_eq rfl rfl
  split
  · exact closeState_fades s
  split <;> exact fades_of_eq rfl rfl

theorem writeError_fades (wire : Wire) (ticket : Nat) (id : Int) (code message : Text) :
    Fades s (writeError limits s wire ticket id code message) := sendText_fades wire ticket _

theorem finishDeferredClose_fades (s : ClientState) : Fades s (finishDeferredClose s) := by
  unfold finishDeferredClose
  split
  · refine Fades.trans ?_ (closeState_fades _)
    exact fades_of_eq rfl rfl
  · exact fades_of_eq rfl rfl

theorem acceptInput_fades (raw : Text) (bytes : Nat) (isBinary token : Bool) (wire : Wire) :
    Fades s (acceptInput limits parse s raw bytes isBinary token wire) := by
  unfold acceptInput
  split
  · exact fades_of_eq rfl rfl
  split
  · exact closeState_fades s
  split
  · exact closeState_fades s
  split
  · exact closeState_fades s
  split
  · split
    · exact fades_of_eq rfl rfl
    · unfold rejectDuringShutdown
      split
      · exact fades_of_eq rfl rfl
      split
      · refine Fades.trans ?_ (writeError_fades _ _ _ _ _)
        exact fades_of_eq rfl rfl
      · exact fades_of_eq rfl rfl
  split
  · exact closeState_fades s
  · unfold pumpInput
    split
    · split <;> exact fades_of_eq rfl rfl
    · exact fades_of_eq rfl rfl

theorem nextFrame_fades (s : ClientState) : Fades s (nextFrame parse s) := by
  unfold nextFrame
  split
  · exact fades_of_eq rfl rfl
  split
  · exact fades_of_eq rfl rfl
  split
  · exact fades_of_eq rfl rfl
  split
  · exact fades_of_eq rfl rfl
  split <;> exact fades_of_eq rfl rfl

theorem authorization_fades (ticket : Nat) (frame : Json) (granted : Outcome) (wire : Wire) :
    Fades s (authorization limits s ticket frame granted wire) := by
  unfold authorization
  split
  · rcases continueDispatch_cases limits (fun _ => none) s ticket frame wire with
      ⟨id, code, message, heq, -⟩ | ⟨heq, -⟩ | ⟨id, channel, args, -, heq⟩ |
        ⟨channel, args, -, heq⟩ <;> rw [heq]
    · refine Fades.trans ?_ (writeError_fades _ _ _ _ _)
      exact fades_of_eq rfl rfl
    all_goals exact fades_of_eq rfl rfl
  · exact fades_of_eq rfl rfl
  · exact (closeState_fades s).trans (fades_of_eq rfl rfl)

theorem invoked_fades (ticket : Nat) (id : Int) (outcome : Outcome) (wire again : Wire) :
    Fades s (invoked limits s ticket id outcome wire again) := by
  have hready : Fades s (s.atStage .ready) := fades_of_eq rfl rfl
  unfold invoked
  dsimp only
  split
  · rename_i serializes
    have hwritten : Fades s (if serializes then sendText limits (s.atStage .ready) wire ticket
        (.result id) else (false, s.atStage .ready)).2 := by
      split
      · exact hready.trans (sendText_fades _ _ _)
      · exact hready
    generalize (if serializes then sendText limits (s.atStage .ready) wire ticket
      (.result id) else (false, s.atStage .ready)) = written at hwritten
    refine Fades.trans ?_ (finishDeferredClose_fades _)
    split
    · exact hwritten.trans (writeError_fades _ _ _ _ _)
    · exact hwritten
  · exact (hready.trans (writeError_fades _ _ _ _ _)).trans (finishDeferredClose_fades _)
  · exact (hready.trans (writeError_fades _ _ _ _ _)).trans (finishDeferredClose_fades _)
  · exact fades_of_eq rfl rfl

theorem step_fades (action : Action) : Fades s (step limits parse s action) := by
  cases action with
  | message raw bytes isBinary token wire => exact acceptInput_fades raw bytes isBinary token wire
  | next =>
    unfold step
    dsimp only
    split
    · exact nextFrame_fades s
    · exact fades_of_eq rfl rfl
  | authorized granted wire =>
    unfold step
    dsimp only
    split
    · exact authorization_fades _ _ granted wire
    · exact fades_of_eq rfl rfl
  | handled outcome wire again =>
    unfold step
    dsimp only
    split
    · exact invoked_fades _ _ outcome wire again
    · unfold handledSend
      split
      · exact fades_of_eq rfl rfl
      · exact fades_of_eq rfl rfl
      · exact (closeState_fades s).trans (fades_of_eq rfl rfl)
    · exact fades_of_eq rfl rfl
  | close => exact closeState_fades s
  | leavesOpen => exact ⟨id, fun _ => rfl⟩
  | socketClosed => exact ⟨fun _ => rfl, id⟩
  | terminate => exact ⟨fun _ => rfl, id⟩
  | _ => exact fades_of_eq rfl rfl

/-- `socket.send` does not throw. -/
def Action.Sends : Action → Prop
  | .message _ _ _ _ wire => wire.sends = true
  | .authorized _ wire => wire.sends = true
  | .handled _ wire again => wire.sends = true ∧ again.sends = true
  | _ => True

/-- A frame that is turned away during the shutdown is valid or has no valid id, no error has a
text that throws, and replies are protected by the invoke that is answered next. -/
def Meets (limits : Limits) (parse : Text → Option Json) (s : ClientState) : Action → Prop
  | .message raw bytes _ _ _ => s.accepting = false → ¬QueuesBehind limits s bytes →
      ∀ frame error, parse raw = some frame → parseRpcClientFrame frame = .error error →
        error.id = none
  | .authorized granted _ => granted ≠ .otherError false
  | .handled outcome _ _ => outcome ≠ .otherError false
  | .protectReply => IsInvoking s
  | .closeAfterReply => IsInvoking s
  | _ => True

/-- The pump rests only when no frame is queued. -/
def Rests (s : ClientState) : Prop := s.stage = .idle → s.queue = []

/-- During the shutdown a frame that meets the condition gets the replies it is owed. -/
theorem reject_live (hlive : Live s) {raw : Text} {wire : Wire}
    (hsends : wire.sends = true)
    (hmeets : ∀ frame error, parse raw = some frame → parseRpcClientFrame frame = .error error →
      error.id = none)
    (hafter : Live (rejectDuringShutdown limits parse s raw wire)) :
    ∃ replies, Answered parse raw replies ∧ rejectDuringShutdown limits parse s raw wire =
      { s with
        received := s.received ++ [raw], sent := s.sent ++ addressed s.received.length replies } := by
  have hnone : s.receive raw = { s with
      received := s.received ++ [raw],
      sent := s.sent ++ addressed s.received.length ([] : List Reply) } := by
    rw [addressed_nil, List.append_nil]
    rfl
  have hreceive : Live (s.receive raw) := ⟨hlive.notClosed, hlive.isOpen⟩
  unfold rejectDuringShutdown at hafter ⊢
  split
  · exact ⟨[], answered_notJson (by assumption), hnone⟩
  rename_i frame hparse
  rw [hparse] at hafter
  dsimp only at hafter
  cases hframe : parseRpcClientFrame frame with
  | error error => exact ⟨[], (answered_error hparse hframe).2 (hmeets frame error hparse hframe), hnone⟩
  | ok parsed =>
    rw [hframe] at hafter
    cases parsed with
    | invoke id channel args =>
      refine ⟨[.error id shuttingDown (js "Server is shutting down")],
        answered_invoke hparse hframe _ rfl, ?_⟩
      dsimp only at hafter ⊢
      rw [writeError_live hreceive hsends hafter]
      rfl
    | send channel args => exact ⟨[], answered_send hparse hframe, hnone⟩

theorem Facts.message (h : Facts parse s) (hrests : Rests s) (hlive : Live s) {raw : Text}
    {bytes : Nat} {isBinary token : Bool} {wire : Wire} (hsends : wire.sends = true)
    (hmeets : Meets limits parse s (.message raw bytes isBinary token wire))
    (hafter : Live (acceptInput limits parse s raw bytes isBinary token wire)) :
    Facts parse (acceptInput limits parse s raw bytes isBinary token wire) ∧
      Rests (acceptInput limits parse s raw bytes isBinary token wire) := by
  have hdead := not_live_closeState s
  unfold acceptInput at hafter ⊢
  rw [hlive.notClosed, if_neg (by decide)] at hafter ⊢
  split
  · rename_i hbinary
    rw [if_pos hbinary] at hafter
    exact absurd hafter hdead
  rename_i hbinary
  rw [if_neg hbinary] at hafter
  split
  · rename_i hlarge
    rw [if_pos hlarge] at hafter
    exact absurd hafter hdead
  rename_i hlarge
  rw [if_neg hlarge] at hafter
  split
  · rename_i htoken
    rw [if_pos htoken] at hafter
    exact absurd hafter hdead
  rename_i htoken
  rw [if_neg htoken] at hafter
  split
  · rename_i hstop
    rw [if_pos hstop] at hafter
    split
    · rename_i hqueues
      refine ⟨h.queue raw bytes, fun hidle => ?_⟩
      have hprocessing := hqueues.1
      have hstage : s.stage = .idle := hidle
      rw [isProcessing, hstage] at hprocessing
      cases hprocessing
    · rename_i hqueues
      rw [if_neg hqueues] at hafter
      obtain ⟨replies, hanswered, heq⟩ :=
        reject_live hlive hsends (hmeets (by simpa using hstop) hqueues) hafter
      rw [heq]
      exact ⟨h.answer hanswered, hrests⟩
  rename_i hstop
  rw [if_neg hstop] at hafter
  split
  · rename_i hfull
    rw [if_pos hfull] at hafter
    exact absurd hafter hdead
  · have hqueued := h.queue raw bytes
    unfold pumpInput
    split
    · rename_i hidle
      have hstage : s.stage = .idle := hidle
      rw [show (enqueue s raw bytes).closed = false from hlive.notClosed, if_neg (by decide)]
      refine ⟨⟨?_, hqueued.order, hqueued.raws, trivial, fun hreply => ?_⟩, nofun⟩
      · have hdesk := hqueued.desk
        rw [show current (enqueue s raw bytes) = [] by rw [current, hidle]] at hdesk
        exact hdesk
      · obtain ⟨ticket, id, hno⟩ := h.reply hreply
        rw [hstage] at hno
        cases hno
    · rename_i hbusy
      exact ⟨hqueued, fun hidle => absurd hidle hbusy⟩

theorem Facts.authorization (h : Facts parse s) (hlive : Live s) {ticket : Nat} {frame : Json}
    (hstage : s.stage = .authorizing ticket frame) {granted : Outcome} {wire : Wire}
    (hsends : wire.sends = true) (hdetail : granted ≠ .otherError false)
    (hafter : Live (authorization limits s ticket frame granted wire)) :
    Facts parse (authorization limits s ticket frame granted wire) ∧
      (authorization limits s ticket frame granted wire).stage ≠ .idle := by
  have hdead : ¬Live ((closeState s).atStage .ready) := fun hl =>
    not_live_closeState s ⟨hl.notClosed, hl.isOpen⟩
  cases granted with
  | value serializes =>
    cases serializes with
    | true => exact h.continueDispatch hlive hstage hsends hafter
    | false => exact absurd hafter hdead
  | publicError code message => exact absurd hafter hdead
  | otherError detail =>
    cases detail with
    | true => exact absurd hafter hdead
    | false => exact absurd rfl hdetail

theorem facts_step {action : Action} (hsends : action.Sends) (hmeets : Meets limits parse s action)
    (h : Live s → Facts parse s ∧ Rests s) (hafter : Live (step limits parse s action)) :
    Facts parse (step limits parse s action) ∧ Rests (step limits parse s action) := by
  have hlive := (step_fades action).live hafter
  obtain ⟨hfacts, hrests⟩ := h hlive
  have hsame : ∀ {t : ClientState}, Facts parse t ∧ t.stage ≠ .idle → Facts parse t ∧ Rests t :=
    fun ht => ⟨ht.1, fun hidle => absurd hidle ht.2⟩
  cases action with
  | message raw bytes isBinary token wire =>
    exact hfacts.message hrests hlive hsends hmeets hafter
  | next =>
    unfold step
    dsimp only
    split
    · exact hfacts.next (by assumption) hlive.notClosed
    · exact ⟨hfacts, hrests⟩
  | authorized granted wire =>
    unfold step at hafter ⊢
    dsimp only at hafter ⊢
    cases hstage : s.stage with
    | authorizing ticket frame =>
      rw [hstage] at hafter
      exact hsame (hfacts.authorization hlive hstage hsends hmeets hafter)
    | _ => exact ⟨hfacts, hrests⟩
  | handled outcome wire again =>
    unfold step at hafter ⊢
    dsimp only at hafter ⊢
    cases hstage : s.stage with
    | invoking ticket id =>
      rw [hstage] at hafter
      exact hsame (hfacts.invoked hlive hstage hmeets hsends.1 hsends.2 hafter)
    | sending ticket =>
      rw [hstage] at hafter
      exact hsame (hfacts.handledSend hstage hmeets hafter)
    | _ => exact ⟨hfacts, hrests⟩
  | protectReply =>
    exact ⟨⟨hfacts.desk, hfacts.order, hfacts.raws, hfacts.frame, fun _ => hmeets⟩, hrests⟩
  | closeAfterReply =>
    exact ⟨⟨hfacts.desk, hfacts.order, hfacts.raws, hfacts.frame, fun _ => hmeets⟩, hrests⟩
  | stopAccepting =>
    exact ⟨⟨hfacts.desk, hfacts.order, hfacts.raws, hfacts.frame, hfacts.reply⟩, hrests⟩
  | register =>
    exact ⟨⟨hfacts.desk, hfacts.order, hfacts.raws, hfacts.frame, hfacts.reply⟩, hrests⟩
  | leavesOpen => exact nomatch hafter.isOpen
  | close => exact absurd hafter (not_live_closeState s)
  | socketClosed => exact nomatch hafter.notClosed
  | terminate => exact nomatch hafter.notClosed

/-- What the pump waits for comes. -/
def Turn (s : ClientState) : Action → Prop
  | .next => s.stage = .ready
  | .authorized _ _ => ∃ ticket frame, s.stage = .authorizing ticket frame
  | .handled _ _ _ => (∃ ticket id, s.stage = .invoking ticket id) ∨ ∃ ticket, s.stage = .sending ticket
  | _ => False

def stageRank : Stage → Nat
  | .idle => 0
  | .ready => 1
  | .sending _ => 2
  | .invoking _ _ => 2
  | .authorizing _ _ => 3

/-- How many turns there are before the pump rests. -/
def rank (s : ClientState) : Nat := 3 * s.queue.length + stageRank s.stage

theorem closeState_queue (s : ClientState) :
    (closeState s).queue.length ≤ s.queue.length ∧ (closeState s).stage = s.stage := by
  unfold closeState
  split
  · exact ⟨le_rfl, rfl⟩
  · exact ⟨Nat.zero_le _, rfl⟩

theorem sendText_queue (limits : Limits) (s : ClientState) (wire : Wire) (ticket : Nat)
    (reply : Reply) :
    (sendText limits s wire ticket reply).2.queue.length ≤ s.queue.length ∧
      (sendText limits s wire ticket reply).2.stage = s.stage := by
  unfold sendText
  split
  · exact ⟨le_rfl, rfl⟩
  split
  · exact closeState_queue s
  split <;> exact ⟨le_rfl, rfl⟩

theorem finishDeferredClose_queue (s : ClientState) :
    (finishDeferredClose s).queue.length ≤ s.queue.length ∧
      (finishDeferredClose s).stage = s.stage := by
  unfold finishDeferredClose
  split
  · exact closeState_queue _
  · exact ⟨le_rfl, rfl⟩

theorem rank_lt {t : ClientState} (hqueue : t.queue.length ≤ s.queue.length)
    (hstage : stageRank t.stage < stageRank s.stage) : rank t < rank s := by
  unfold rank
  omega

theorem nextFrame_rank (hstage : s.stage = .ready) : rank (nextFrame parse s) < rank s := by
  have hready : stageRank s.stage = 1 := by rw [hstage]; rfl
  have hidle : ∀ t : ClientState, t.stage = .idle → stageRank t.stage < stageRank s.stage :=
    fun t ht => by rw [ht, hready]; decide
  unfold nextFrame
  split
  · exact rank_lt le_rfl (hidle _ rfl)
  split
  · exact rank_lt le_rfl (hidle _ rfl)
  rename_i next rest hqueue
  have hrank : rank s = 3 * (rest.length + 1) + 1 := by
    rw [rank, hready, hqueue, List.length_cons]
  have hshift : rank (shiftQueue s next rest) = 3 * rest.length + 1 := rfl
  split
  · omega
  split
  · omega
  split
  · omega
  · change 3 * rest.length + 3 < rank s
    omega

theorem authorization_rank {ticket : Nat} {frame : Json} (hstage : s.stage = .authorizing ticket frame)
    (granted : Outcome) (wire : Wire) :
    rank (authorization limits s ticket frame granted wire) < rank s := by
  have hless : ∀ stage, stageRank stage < 3 → stageRank stage < stageRank s.stage :=
    fun stage h => by rw [hstage]; exact h
  unfold authorization
  split
  · rcases continueDispatch_cases limits (fun _ => none) s ticket frame wire with
      ⟨id, code, message, heq, -⟩ | ⟨heq, -⟩ | ⟨id, channel, args, -, heq⟩ |
        ⟨channel, args, -, heq⟩ <;> rw [heq]
    · obtain ⟨hqueue, hready⟩ := sendText_queue limits (s.atStage .ready) wire ticket
        (.error id code message)
      refine rank_lt hqueue (hless _ ?_)
      rw [writeError, hready]
      exact (by decide : 1 < 3)
    · exact rank_lt le_rfl (hless _ (by decide : 1 < 3))
    · exact rank_lt le_rfl (hless _ (by decide : 2 < 3))
    · exact rank_lt le_rfl (hless _ (by decide : 2 < 3))
  · exact rank_lt le_rfl (hless _ (by decide : 0 < 3))
  · exact rank_lt (closeState_queue s).1 (hless _ (by decide : 1 < 3))

theorem invoked_rank {ticket : Nat} {id : Int} (hstage : s.stage = .invoking ticket id)
    (outcome : Outcome) (wire again : Wire) :
    rank (invoked limits s ticket id outcome wire again) < rank s := by
  have hless : ∀ t : ClientState, t.queue.length ≤ s.queue.length ∧ t.stage = .ready →
      rank (finishDeferredClose t) < rank s := by
    rintro t ⟨hqueue, hready⟩
    obtain ⟨hfinish, hsame⟩ := finishDeferredClose_queue t
    refine rank_lt (hfinish.trans hqueue) ?_
    rw [hsame, hready, hstage]
    exact (by decide : 1 < 2)
  have hsend : ∀ (t : ClientState) (w : Wire) (reply : Reply),
      t.queue.length ≤ s.queue.length ∧ t.stage = .ready →
      (sendText limits t w ticket reply).2.queue.length ≤ s.queue.length ∧
        (sendText limits t w ticket reply).2.stage = .ready := by
    rintro t w reply ⟨hqueue, hready⟩
    obtain ⟨hle, hsame⟩ := sendText_queue limits t w ticket reply
    exact ⟨hle.trans hqueue, hsame.trans hready⟩
  have hready : (s.atStage .ready).queue.length ≤ s.queue.length ∧
      (s.atStage .ready).stage = .ready := ⟨le_rfl, rfl⟩
  unfold invoked
  dsimp only
  split
  · rename_i serializes
    have hwritten : (if serializes then sendText limits (s.atStage .ready) wire ticket
        (.result id) else (false, s.atStage .ready)).2.queue.length ≤ s.queue.length ∧
        (if serializes then sendText limits (s.atStage .ready) wire ticket
          (.result id) else (false, s.atStage .ready)).2.stage = .ready := by
      split
      · exact hsend _ _ _ hready
      · exact hready
    generalize (if serializes then sendText limits (s.atStage .ready) wire ticket
      (.result id) else (false, s.atStage .ready)) = written at hwritten
    refine hless _ ?_
    split
    · exact hsend _ _ _ hwritten
    · exact hwritten
  · exact hless _ (hsend _ _ _ hready)
  · exact hless _ (hsend _ _ _ hready)
  · refine rank_lt le_rfl ?_
    rw [hstage]
    exact (by decide : 0 < 2)

theorem turn_rank {action : Action} (h : Turn s action) :
    rank (step limits parse s action) < rank s := by
  cases action with
  | next =>
    have hstage : s.stage = .ready := h
    rw [step, hstage]
    exact nextFrame_rank hstage
  | authorized granted wire =>
    obtain ⟨ticket, frame, hstage⟩ := h
    rw [step, hstage]
    exact authorization_rank hstage granted wire
  | handled outcome wire again =>
    rcases h with ⟨ticket, id, hstage⟩ | ⟨ticket, hstage⟩
    · rw [step, hstage]
      exact invoked_rank hstage outcome wire again
    · have hready : ∀ stage, stageRank stage < 2 → stageRank stage < stageRank s.stage :=
        fun stage hlt => by rw [hstage]; exact hlt
      rw [step, hstage]
      dsimp only
      unfold handledSend
      split
      · exact rank_lt le_rfl (hready _ (by decide : 1 < 2))
      · exact rank_lt le_rfl (hready _ (by decide : 0 < 2))
      · exact rank_lt (closeState_queue s).1 (hready _ (by decide : 1 < 2))
  | _ => exact h.elim

theorem turn_due (h : s.stage ≠ .idle) : ∃ action, Turn s action := by
  cases hstage : s.stage with
  | idle => exact absurd hstage h
  | ready => exact ⟨.next, hstage⟩
  | authorizing ticket frame => exact ⟨.authorized (.value true) ⟨0, 0, true⟩, ticket, frame, hstage⟩
  | invoking ticket id =>
    exact ⟨.handled (.value true) ⟨0, 0, true⟩ ⟨0, 0, true⟩, .inl ⟨ticket, id, hstage⟩⟩
  | sending ticket =>
    exact ⟨.handled (.value true) ⟨0, 0, true⟩ ⟨0, 0, true⟩, .inr ⟨ticket, hstage⟩⟩

theorem turns_le {turns : List Action} (h : Guarded (step limits parse) Turn s turns) :
    turns.length ≤ rank s := by
  have hkeep : ∀ (t : ClientState) (action : Action), (fun _ : ClientState => True) t →
      Turn t action → (fun _ : ClientState => True) (step limits parse t action) :=
    fun _ _ _ _ => trivial
  have hprogress := run_progress (fun _ : ClientState => False) rank hkeep
    (fun _ _ _ _ hf => hf) (fun t action _ ht _ => turn_rank ht) h trivial
  have := hprogress.resolve_left id
  omega

/-- A reply carries the id of the frame that it answers. -/
theorem Facts.id_received (h : Facts parse s) {p : Nat × Reply} (hp : p ∈ s.sent) :
    ∃ raw frame, s.received[p.1]? = some raw ∧ parse raw = some frame ∧
      validId (frame.field? (js "id")) = some p.2.id := by
  have hlt := h.desk.bound p hp
  have hin : p.2 ∈ repliesTo s.sent p.1 := by
    refine List.mem_map.mpr ⟨p, List.mem_filter.mpr ⟨hp, by simp⟩, rfl⟩
  have hdone : p.1 ∉ current s ++ waitingTickets s := fun hw => by
    rw [h.desk.waiting _ hw] at hin
    cases hin
  have hraw : s.received[p.1]? = some s.received[p.1] := List.getElem?_eq_getElem hlt
  have hanswered := h.desk.settled _ _ hraw hdone
  generalize repliesTo s.sent p.1 = replies at hin hanswered
  generalize s.received[p.1] = raw at hraw hanswered
  unfold Answered at hanswered
  cases hparse : parse raw with
  | none =>
    rw [hparse] at hanswered
    rw [hanswered] at hin
    cases hin
  | some frame =>
    refine ⟨raw, frame, hraw, hparse, validId_of_replyId ?_⟩
    rw [hparse] at hanswered
    dsimp only at hanswered
    unfold replyId
    cases hframe : parseRpcClientFrame frame with
    | error error =>
      rw [hframe] at hanswered
      dsimp only at hanswered ⊢
      cases hid : error.id with
      | none =>
        rw [hid] at hanswered
        rw [hanswered] at hin
        cases hin
      | some id =>
        rw [hid] at hanswered
        obtain ⟨code, message, rfl⟩ := hanswered
        rw [List.mem_singleton.mp hin]
        rfl
    | ok parsed =>
      rw [hframe] at hanswered
      cases parsed with
      | invoke id channel args =>
        obtain ⟨reply, rfl, hid⟩ := hanswered
        rw [List.mem_singleton.mp hin, hid]
      | send channel args =>
        dsimp only at hanswered
        rw [hanswered] at hin
        cases hin

/-- Each frame that was received and does not wait has exactly the replies it is owed, in the
order of the frames, and under its own id; and the frames that wait are dispatched one after
another in a bounded number of turns, one of which is always due. -/
structure Orderly (limits : Limits) (parse : Text → Option Json) (s : ClientState) : Prop where
  facts : Facts parse s
  rests : Rests s
  ids : ∀ p ∈ s.sent, ∃ raw frame, s.received[p.1]? = some raw ∧ parse raw = some frame ∧
    validId (frame.field? (js "id")) = some p.2.id
  turns : ∀ turns, Guarded (step limits parse) Turn s turns → turns.length ≤ rank s
  due : s.stage ≠ .idle → ∃ action, Turn s action

/-- Over every run of a socket whose steps meet the condition, every frame is answered as it is
owed while the socket is open. -/
theorem invokes_answered_once (limits : Limits) (parse : Text → Option Json)
    (handlers clientHandlers sendHandlers : List Text) {actions : List Action}
    (h : Guarded (step limits parse) (fun s action => action.Sends ∧ Meets limits parse s action)
      (attach handlers clientHandlers sendHandlers) actions)
    (hlive : Live (run (step limits parse) (attach handlers clientHandlers sendHandlers) actions)) :
    Orderly limits parse
      (run (step limits parse) (attach handlers clientHandlers sendHandlers) actions) := by
  have hkeep : ∀ s action, (Live s → Facts parse s ∧ Rests s) →
      (action.Sends ∧ Meets limits parse s action) →
      (Live (step limits parse s action) →
        Facts parse (step limits parse s action) ∧ Rests (step limits parse s action)) :=
    fun s action hs hok hafter => facts_step hok.1 hok.2 hs hafter
  have hstart : Live (attach handlers clientHandlers sendHandlers) →
      Facts parse (attach handlers clientHandlers sendHandlers) ∧
        Rests (attach handlers clientHandlers sendHandlers) :=
    fun _ => ⟨⟨Desk.empty, rfl, nofun, trivial, nofun⟩, fun _ => rfl⟩
  obtain ⟨hfacts, hrests⟩ := run_preserves hkeep h hstart hlive
  exact ⟨hfacts, hrests, fun p hp => hfacts.id_received hp, fun _ => turns_le, turn_due⟩

/-- An invoke frame, as text and as the value that `JSON.parse` returns. -/
def pingText (channel : String) : Text :=
  js "\x7b\"kind\":\"invoke\",\"id\":7,\"channel\":\"" ++ js channel ++ js "\"\x7d"

def pingFrame (channel : String) : Json :=
  .obj [(js "kind", .str (js "invoke")), (js "id", .num (.ofInt 7)), (js "channel", .str (js channel))]

/-- What `JSON.parse` makes of the two frames. -/
def parsePing (raw : Text) : Option Json :=
  if raw = pingText "app:ping" then some (pingFrame "app:ping")
  else if raw = pingText "" then some (pingFrame "")
  else none

def usual : Limits := ⟨2097152, 64, 8388608, 8388608⟩

def clearWire : Wire := ⟨0, 100, true⟩

def arrives (channel : String) : Action :=
  .message (pingText channel) (pingText channel).length false true clearWire

def answered : List Action :=
  [arrives "app:ping", .next, .authorized (.value true) clearWire,
    .handled (.value true) clearWire clearWire]

theorem invokes_answered_once_ping :
    Orderly usual parsePing
      (run (step usual parsePing) (attach [js "app:ping"] [] []) answered) :=
  invokes_answered_once usual parsePing [js "app:ping"] [] []
    ⟨⟨rfl, fun h => nomatch h⟩, ⟨trivial, trivial⟩, ⟨rfl, nofun⟩, ⟨⟨rfl, rfl⟩, nofun⟩, trivial⟩
    ⟨by decide +kernel, by decide +kernel⟩

def turnedAway : List Action := [.stopAccepting, arrives ""]

def stranded : List Action :=
  [arrives "app:ping", .next, .authorized (.value true) clearWire,
    .handled (.otherError false) clearWire clearWire]

/-- A frame that fails with a valid id, during the shutdown, and an invoke whose handler throws a
value without a text: both are done with, the socket is open, and no reply was sent. -/
theorem frame_unanswered :
    ((∀ action ∈ turnedAway, action.Sends) ∧
      Live (run (step usual parsePing) (attach [js "app:ping"] [] []) turnedAway) ∧
      (run (step usual parsePing) (attach [js "app:ping"] [] []) turnedAway).received =
        [pingText ""] ∧
      (parsePing (pingText "")).bind replyId = some 7 ∧
      isProcessing (run (step usual parsePing) (attach [js "app:ping"] [] []) turnedAway) = false ∧
      (run (step usual parsePing) (attach [js "app:ping"] [] []) turnedAway).queue = [] ∧
      (run (step usual parsePing) (attach [js "app:ping"] [] []) turnedAway).sent = []) ∧
    (∀ action ∈ stranded, action.Sends) ∧
      Live (run (step usual parsePing) (attach [js "app:ping"] [] []) stranded) ∧
      (run (step usual parsePing) (attach [js "app:ping"] [] []) stranded).received =
        [pingText "app:ping"] ∧
      (parsePing (pingText "app:ping")).bind replyId = some 7 ∧
      isProcessing (run (step usual parsePing) (attach [js "app:ping"] [] []) stranded) = false ∧
      (run (step usual parsePing) (attach [js "app:ping"] [] []) stranded).queue = [] ∧
      (run (step usual parsePing) (attach [js "app:ping"] [] []) stranded).sent = [] := by
  refine ⟨⟨?_, ⟨by decide +kernel, by decide +kernel⟩, by decide +kernel, by decide +kernel,
    by decide +kernel, by decide +kernel, by decide +kernel⟩, ?_,
    ⟨by decide +kernel, by decide +kernel⟩, by decide +kernel, by decide +kernel,
    by decide +kernel, by decide +kernel, by decide +kernel⟩
  · simp [turnedAway, arrives, Action.Sends, clearWire]
  · simp [stranded, arrives, Action.Sends, clearWire]

end BoredManager.Server.RpcInvokes
