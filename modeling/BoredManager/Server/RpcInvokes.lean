import BoredManager.Shared.Rpc

/-! The inbound frames of one socket: the queue, the pump that dispatches one frame after
another, and the replies. -/
namespace BoredManager.Server.RpcInvokes
open BoredManager.Js BoredManager.Shared

/-- The limits that bear on frames and replies. -/
structure Limits where
  maxPayload : Nat
  maxQueuedFrames : Nat
  maxQueuedBytes : Nat
  outboundHardLimit : Nat

/-- `ticket` is the number under which the frame was received; nothing reads it. -/
structure QueuedInput where
  raw : Text
  bytes : Nat
  ticket : Nat
deriving DecidableEq

/-- A result or an error frame; the value of a result is left out. -/
inductive Reply where
  | result (id : Int)
  | error (id : Int) (code message : Text)
deriving DecidableEq

def Reply.id : Reply → Int
  | .result id => id
  | .error id _ _ => id

/-- Where the pump is: not started, at its loop's condition, or in a dispatch that awaits the
authorization, the handler of an invoke, or that of a send. -/
inductive Stage where
  | idle
  | ready
  | authorizing (ticket : Nat) (frame : Json)
  | invoking (ticket : Nat) (id : Int)
  | sending (ticket : Nat)

/-- `received`, `queued`, `dispatched` and `sent` are the history: the frames that were queued
or went to `rejectDuringShutdown`, the tickets that were queued and dispatched, and the replies
with the ticket they answer. -/
structure ClientState where
  closed : Bool
  isOpen : Bool
  accepting : Bool
  protectedReply : Bool
  deferredClose : Bool
  queue : List QueuedInput
  queuedBytes : Int
  stage : Stage
  handlers : List Text
  clientHandlers : List Text
  sendHandlers : List Text
  received : List Text
  queued : List Nat
  dispatched : List Nat
  sent : List (Nat × Reply)

def attach (handlers clientHandlers sendHandlers : List Text) : ClientState :=
  ⟨false, true, true, false, false, [], 0, .idle, handlers, clientHandlers, sendHandlers,
    [], [], [], []⟩

def ClientState.atStage (s : ClientState) (stage : Stage) : ClientState := { s with stage }

/-- What the socket is like when a frame is written: its buffer, the length of the frame, and
whether `socket.send` returns. -/
structure Wire where
  buffered : Nat
  bytes : Nat
  sends : Bool

/-- What `authorize` or a handler comes to. `detail` is false where `internalErrorDetail`
throws on the error: `String(error)` does so on an object without a text. -/
inductive Outcome where
  | value (serializes : Bool)
  | publicError (code message : Text)
  | otherError (detail : Bool)

def invalidRequest : Text := js "INVALID_REQUEST"
def shuttingDown : Text := js "SERVER_SHUTTING_DOWN"
def internal : Text := js "INTERNAL_ERROR"

variable (limits : Limits) (parse : Text → Option Json)

def closeState (s : ClientState) : ClientState :=
  if s.closed then s else { s with closed := true, queue := [], queuedBytes := 0 }

def sendText (s : ClientState) (wire : Wire) (ticket : Nat) (reply : Reply) : Bool × ClientState :=
  if s.closed || !s.isOpen then (false, s)
  else if limits.outboundHardLimit < wire.buffered + wire.bytes then (false, closeState s)
  else if wire.sends then (true, { s with sent := s.sent ++ [(ticket, reply)] })
  else (false, s)

def writeError (s : ClientState) (wire : Wire) (ticket : Nat) (id : Int) (code message : Text) :
    ClientState :=
  (sendText limits s wire ticket (.error id code message)).2

def pumpInput (s : ClientState) : ClientState :=
  match s.stage with
  | .idle => if s.closed then s else s.atStage .ready
  | _ => s

def isProcessing (s : ClientState) : Bool :=
  match s.stage with
  | .idle => false
  | _ => true

def enqueue (s : ClientState) (raw : Text) (bytes : Nat) : ClientState :=
  { s with
    queue := s.queue ++ [⟨raw, bytes, s.received.length⟩], queuedBytes := s.queuedBytes + bytes,
    received := s.received ++ [raw], queued := s.queued ++ [s.received.length] }

def ClientState.receive (s : ClientState) (raw : Text) : ClientState :=
  { s with received := s.received ++ [raw] }

def rejectDuringShutdown (s : ClientState) (raw : Text) (wire : Wire) : ClientState :=
  match parse raw with
  | none => s.receive raw
  | some frame =>
    match parseRpcClientFrame frame with
    | .ok (.invoke id _ _) =>
      writeError limits (s.receive raw) wire s.received.length id shuttingDown
        (js "Server is shutting down")
    | _ => s.receive raw

/-- During the shutdown a frame may still queue behind the one in dispatch. -/
def QueuesBehind (s : ClientState) (bytes : Nat) : Prop :=
  isProcessing s = true ∧ s.queue.length < limits.maxQueuedFrames ∧
    s.queuedBytes + bytes ≤ limits.maxQueuedBytes

instance (s : ClientState) (bytes : Nat) : Decidable (QueuesBehind limits s bytes) :=
  inferInstanceAs (Decidable (_ ∧ _))

/-- A message arrives; `token` is what the rate bucket says. -/
def acceptInput (s : ClientState) (raw : Text) (bytes : Nat) (isBinary token : Bool) (wire : Wire) :
    ClientState :=
  if s.closed then s
  else if isBinary then closeState s
  else if limits.maxPayload < bytes then closeState s
  else if !token then closeState s
  else if !s.accepting then
    if QueuesBehind limits s bytes then enqueue s raw bytes
    else rejectDuringShutdown limits parse s raw wire
  else if limits.maxQueuedFrames ≤ s.queue.length ∨ limits.maxQueuedBytes < s.queuedBytes + bytes then
    closeState s
  else pumpInput (enqueue s raw bytes)

/-- `state.queue.shift()`. -/
def shiftQueue (s : ClientState) (next : QueuedInput) (rest : List QueuedInput) : ClientState :=
  { s with
    queue := rest, queuedBytes := s.queuedBytes - next.bytes,
    dispatched := s.dispatched ++ [next.ticket], stage := .ready }

/-- The loop's condition, and the start of a dispatch. The end of the loop and `processing =
false` are one step: only microtasks run between them, and no message arrives in one. -/
def nextFrame (s : ClientState) : ClientState :=
  if s.closed then s.atStage .idle
  else
    match s.queue with
    | [] => s.atStage .idle
    | next :: rest =>
      match parse next.raw with
      | none => shiftQueue s next rest
      | some frame =>
        if !frame.isRecord then shiftQueue s next rest
        else if s.protectedReply then shiftQueue s next rest
        else (shiftQueue s next rest).atStage (.authorizing next.ticket frame)

/-- The part of a dispatch behind the authorization, up to the handler. -/
def continueDispatch (s : ClientState) (ticket : Nat) (frame : Json) (wire : Wire) : ClientState :=
  let ready := s.atStage .ready
  match parseRpcClientFrame frame with
  | .error error =>
    match error.id with
    | some id => writeError limits ready wire ticket id invalidRequest error.error
    | none => ready
  | .ok frame =>
    if !s.accepting then
      match frame with
      | .invoke id _ _ =>
        writeError limits ready wire ticket id shuttingDown (js "Server is shutting down")
      | .send _ _ => ready
    else
      match frame with
      | .invoke id channel _ =>
        if channel ∈ s.handlers ∨ channel ∈ s.clientHandlers then
          s.atStage (.invoking ticket id)
        else
          writeError limits ready wire ticket id (js "METHOD_NOT_FOUND")
            (js "No handler for \"" ++ channel ++ js "\"")
      | .send channel _ =>
        if channel ∈ s.sendHandlers then s.atStage (.sending ticket) else ready

/-- The answer of `authorize`; a failure that can be logged counts as a refusal. -/
def authorization (s : ClientState) (ticket : Nat) (frame : Json) (granted : Outcome) (wire : Wire) :
    ClientState :=
  match granted with
  | .value true => continueDispatch limits s ticket frame wire
  | .otherError false => s.atStage .idle
  | _ => (closeState s).atStage .ready

def finishDeferredClose (s : ClientState) : ClientState :=
  if s.deferredClose then closeState { s with protectedReply := false, deferredClose := false }
  else { s with protectedReply := false }

/-- The handler of an invoke is done; `again` is the wire of the error that follows a result
that could not be written. -/
def invoked (s : ClientState) (ticket : Nat) (id : Int) (outcome : Outcome) (wire again : Wire) :
    ClientState :=
  let ready := s.atStage .ready
  match outcome with
  | .value serializes =>
    let written := if serializes then sendText limits ready wire ticket (.result id) else (false, ready)
    finishDeferredClose
      (if !written.1 && !written.2.closed then
        writeError limits written.2 again ticket id internal (js "Internal server error")
      else written.2)
  | .publicError code message =>
    finishDeferredClose (writeError limits ready wire ticket id code message)
  | .otherError true =>
    finishDeferredClose
      (writeError limits ready wire ticket id internal (js "Internal server error"))
  | .otherError false => s.atStage .idle

def handledSend (s : ClientState) (outcome : Outcome) : ClientState :=
  match outcome with
  | .value _ => s.atStage .ready
  | .otherError false => s.atStage .idle
  | _ => (closeState s).atStage .ready

/-- What can happen to the frames of a socket: a message, a stretch of the pump, what it waits
for, a handler that protects its reply, and what the rest of the router and the peer do. -/
inductive Action where
  | message (raw : Text) (bytes : Nat) (isBinary token : Bool) (wire : Wire)
  | next
  | authorized (granted : Outcome) (wire : Wire)
  | handled (outcome : Outcome) (wire again : Wire)
  | protectReply
  | closeAfterReply
  | stopAccepting
  | register (handlers clientHandlers sendHandlers : List Text)
  | leavesOpen
  | close
  | socketClosed
  | terminate

def step (s : ClientState) : Action → ClientState
  | .message raw bytes isBinary token wire => acceptInput limits parse s raw bytes isBinary token wire
  | .next =>
    match s.stage with
    | .ready => nextFrame parse s
    | _ => s
  | .authorized granted wire =>
    match s.stage with
    | .authorizing ticket frame => authorization limits s ticket frame granted wire
    | _ => s
  | .handled outcome wire again =>
    match s.stage with
    | .invoking ticket id => invoked limits s ticket id outcome wire again
    | .sending _ => handledSend s outcome
    | _ => s
  | .protectReply => { s with protectedReply := true }
  | .closeAfterReply => { s with protectedReply := true, deferredClose := true }
  | .stopAccepting => { s with accepting := false }
  | .register handlers clientHandlers sendHandlers => { s with handlers, clientHandlers, sendHandlers }
  | .leavesOpen => { s with isOpen := false }
  | .close => closeState s
  | .socketClosed => { s with
      closed := true, queue := [], queuedBytes := 0, deferredClose := false, protectedReply := false }
  | .terminate => { s with closed := true }

end BoredManager.Server.RpcInvokes
