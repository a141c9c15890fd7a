import BoredManager.Machine.Runs

/-! The browser's end of the socket: calls and frames, the socket that carries them, and the events
of every socket that was made. What a handler does is one step. -/
namespace BoredManager.Client.Ws
open BoredManager.Machine

inductive WsState where
  | connecting | opened | closed
deriving DecidableEq

/-- A socket as its events tell it: `closing` is between `close()` and the close event. -/
inductive Phase where
  | connecting | opened | closing | closed
deriving DecidableEq

/-- `socket.close()` -/
def Phase.close : Phase → Phase
  | .connecting | .opened => .closing
  | phase => phase

/-- A frame with the call that it carries. With it stand how often the client had signed out when it
was written, and the socket that the client had then. -/
structure Frame where
  call : Option Nat
  session : Nat
  socket : Option Nat
deriving DecidableEq

structure Sent where
  frame : Frame
  socket : Nat
  session : Nat
deriving DecidableEq

/-- A pending call, with the socket that the client had when it was made. -/
structure Call where
  id : Nat
  socket : Option Nat
deriving DecidableEq

/-- A frame or a call that ended with a close event: its socket, and the one that closed. -/
structure Loss where
  written : Option Nat
  closed : Nat
deriving DecidableEq

/-- The fields of the client; then the sockets, and what became of frames, calls and connects.
`signedOut` is the number of connects before the last disconnect, `due` the connects that a socket
opened for. -/
structure WsClient where
  socket : Option Nat
  pending : List Call
  outbox : List Frame
  nextId : Nat
  timer : Bool
  stopped : Bool
  firstOpen : Option Nat
  state : WsState
  sockets : List Phase
  sent : List Sent
  settled : List Nat
  lost : List Loss
  connects : Nat
  disconnects : Nat
  signedOut : Nat
  resolved : List Nat
  due : List Nat

inductive WsEvent where
  | connect
  | disconnect
  | invoke
  | send
  | opened (n : Nat)
  | message (n : Nat) (reply : Option Nat)
  | closed (n : Nat) (unauthorized : Bool)
  | timer
deriving DecidableEq

namespace WsClient

def start : WsClient where
  socket := none
  pending := []
  outbox := []
  nextId := 1
  timer := false
  stopped := false
  firstOpen := none
  state := .closed
  sockets := []
  sent := []
  settled := []
  lost := []
  connects := 0
  disconnects := 0
  signedOut := 0
  resolved := []
  due := []

def openSocket (c : WsClient) : WsClient :=
  if c.socket.isSome || c.stopped then c
  else { c with
    state := .connecting
    sockets := c.sockets ++ [.connecting]
    socket := some c.sockets.length }

def connect (c : WsClient) : WsClient :=
  let c := { c with stopped := false, connects := c.connects + 1 }
  if c.state = .opened then { c with resolved := c.resolved ++ [c.connects] }
  else { c with firstOpen := some c.connects }.openSocket

def disconnect (c : WsClient) : WsClient :=
  { c with
    stopped := true
    timer := false
    outbox := []
    settled := c.settled ++ c.pending.map Call.id
    pending := []
    sockets := c.socket.elim c.sockets fun n => c.sockets.modify n Phase.close
    socket := none
    state := .closed
    disconnects := c.disconnects + 1
    signedOut := c.connects }

/-- `socket.send(text)`, and whether it throws: what a closed socket is given is dropped. -/
def transmit (c : WsClient) (n : Nat) (frame : Frame) : WsClient × Bool :=
  match c.sockets[n]? with
  | some .opened => ({ c with sent := c.sent ++ [⟨frame, n, c.disconnects⟩] }, false)
  | some .connecting => (c, true)
  | _ => (c, false)

def write (c : WsClient) (call : Option Nat) : WsClient × Bool :=
  match c.socket, c.state with
  | some n, .opened => c.transmit n ⟨call, c.disconnects, some n⟩
  | _, _ =>
    let after := c.openSocket
    ({ after with outbox := c.outbox ++ [⟨call, c.disconnects, after.socket⟩] }, false)

def invoke (c : WsClient) : WsClient :=
  let (after, threw) := { c with nextId := c.nextId + 1 }.write (some c.nextId)
  { after with
    pending := c.pending ++ [⟨c.nextId, after.socket⟩]
    settled := if threw then c.settled ++ [c.nextId] else c.settled }

/-- `onopen`, if the socket was still connecting. -/
def opened (c : WsClient) (n : Nat) : WsClient :=
  if c.sockets[n]? ≠ some .connecting then c
  else { c with
    sockets := c.sockets.set n .opened
    state := .opened
    sent := c.sent ++ c.outbox.map fun frame => ⟨frame, n, c.disconnects⟩
    outbox := []
    resolved := c.resolved ++ c.firstOpen.toList
    firstOpen := none
    due := c.due ++ (List.range (c.connects + 1)).filter (c.signedOut < ·) }

/-- An answer, if the socket still takes messages. -/
def message (c : WsClient) (n : Nat) (reply : Option Nat) : WsClient :=
  match reply with
  | none => c
  | some id =>
    if c.sockets[n]? ≠ some .opened then c
    else { c with
      settled := c.settled ++ (c.pending.map Call.id).filter (· = id)
      pending := c.pending.filter (·.id ≠ id) }

/-- `onclose`, if the socket did not close before. -/
def closed (c : WsClient) (n : Nat) (unauthorized : Bool) : WsClient :=
  if c.sockets[n]?.all (· = .closed) then c
  else { c with
    sockets := c.sockets.set n .closed
    socket := none
    state := .closed
    settled := c.settled ++ c.pending.map Call.id
    lost := c.lost ++ (c.pending.map Call.socket ++ c.outbox.map Frame.socket).map fun m => ⟨m, n⟩
    pending := []
    outbox := []
    stopped := c.stopped || unauthorized
    timer := c.timer || !(c.stopped || unauthorized) }

def step (c : WsClient) : WsEvent → WsClient
  | .connect => c.connect
  | .disconnect => c.disconnect
  | .invoke => c.invoke
  | .send => (c.write none).1
  | .opened n => c.opened n
  | .message n reply => c.message n reply
  | .closed n unauthorized => c.closed n unauthorized
  | .timer => if c.timer then { c with timer := false }.openSocket else c

/-! ### What is to hold -/

/-- The frame of a call is in the outbox, or went to the current socket, which is open. -/
def Waits (c : WsClient) (id : Nat) : Prop :=
  (∃ frame ∈ c.outbox, frame.call = some id) ∨
    ∃ n, c.socket = some n ∧ c.sockets[n]? = some .opened ∧
      ∃ e ∈ c.sent, e.socket = n ∧ e.frame.call = some id

/-- A socket that is connecting or open. -/
def Live (c : WsClient) (n : Nat) : Prop :=
  c.sockets[n]? = some .connecting ∨ c.sockets[n]? = some .opened

/-- Calls settle once or wait; a frame stays in its session; nothing made for a socket ends with an
earlier one; one socket at most is in use, and is open if the client says so; and the connects that
a socket opened for are resolved. -/
structure Sane (c : WsClient) : Prop where
  once : c.settled.Nodup
  settles : ∀ id, 0 < id → id < c.nextId →
    id ∈ c.settled ∧ id ∉ c.pending.map Call.id ∨
      id ∉ c.settled ∧ id ∈ c.pending.map Call.id ∧ c.Waits id
  fresh : ∀ e ∈ c.sent, e.frame.session = e.session
  own : ∀ e ∈ c.lost, ∀ m ∈ e.written, m ≤ e.closed
  single : ∀ i j, c.Live i → c.Live j → i = j
  isOpen : c.state = .opened → ∃ n, c.socket = some n ∧ c.sockets[n]? = some .opened
  resolves : ∀ k ∈ c.due, k ∈ c.resolved

/-- What is asked of an event: a connect is made when none waits, those before a disconnect aside;
and a close event comes from the current socket, or when there is none. -/
def Allowed (c : WsClient) : WsEvent → Prop
  | .connect => c.state ≠ .opened → ∀ k ∈ c.firstOpen, k ≤ c.signedOut
  | .closed n _ => c.socket = some n ∨ c.socket = none
  | _ => True

instance (c : WsClient) : (event : WsEvent) → Decidable (c.Allowed event)
  | .connect => inferInstanceAs (Decidable (_ → ∀ k ∈ c.firstOpen, k ≤ c.signedOut))
  | .closed _ _ => inferInstanceAs (Decidable (_ ∨ _))
  | .disconnect | .invoke | .send | .opened _ | .message _ _ | .timer =>
    inferInstanceAs (Decidable True)

end WsClient
end BoredManager.Client.Ws
