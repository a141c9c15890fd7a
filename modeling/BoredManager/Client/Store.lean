import BoredManager.Js.Text

/-! The store of the browser: which machine it shows, and what it holds of that machine. A function
that awaits a reply leaves a request in `pending`; the replies come in the order of the requests, and
whatever the function does after its `await` is done by the reply. -/
namespace BoredManager.Client.State
open BoredManager.Js

def HISTORY_MS : Nat := 5 * 60 * 1000

structure MachineStatus where
  machineId : Text
  revision : Nat
  label : Option Text
  host : Option Text
  hasSudo : Option Bool
deriving DecidableEq

/-- A sample with the machine it was taken on. -/
structure Sample where
  machineId : Text
  t : Nat
deriving DecidableEq

structure TerminalInfo where
  id : Text
  machineId : Text
deriving DecidableEq

/-- What the handler of a status push has read before its `await`. -/
structure Push where
  machines : List MachineStatus
  current : Option Text
  preferred : Option Text
  activeRevisionChanged : Bool
deriving DecidableEq

/-- Who waits for a refresh of the module specs. -/
inductive Waiter where
  | nobody
  | status (push : Push)
  | reseed (machines : List MachineStatus)
deriving DecidableEq

inductive Request where
  | specs (waiter : Waiter)
  | history (machineId : Text) (generation : Nat)
  | terminals (machineId : Option Text)
  | status
deriving DecidableEq

inductive Answer where
  | specs
  | history (system : List Nat) (top : Option Nat)
  | terminals (list : List TerminalInfo)
  | status (machines : List MachineStatus)
  | failed
deriving DecidableEq

/-- `status` is `none` for `{ connected: false }`, `storage` whether the session storage can be used,
and `pending` holds the requests on the socket. `chosen` records the machine that the user chose last,
as long as it has stayed in the list. -/
structure AppState where
  machines : List MachineStatus
  activeMachineId : Option Text
  status : Option MachineStatus
  system : List Sample
  topNow : Option Sample
  terminals : List TerminalInfo
  machineSeedGeneration : Nat
  storage : Bool
  stored : Option Text
  pending : List Request
  chosen : Option Text
deriving DecidableEq

inductive AppEvent where
  | setActiveMachine (machineId : Option Text)
  | status (machines : List MachineStatus)
  | reconnected
  | system (sample : Sample) (now : Nat)
  | top (sample : Sample)
  | terminalExit
  | listChanged
  | reply (answer : Answer)
deriving DecidableEq

def find (machines : List MachineStatus) (machineId : Text) : Option MachineStatus :=
  machines.find? fun machine => decide (machine.machineId = machineId)

def prune (samples : List Sample) (now : Nat) : List Sample :=
  samples.dropWhile fun sample => decide (sample.t + HISTORY_MS < now)

/-- An id that is not empty, if the list has it. -/
def listed (machines : List MachineStatus) (id : Option Text) : Option Text :=
  id.filter fun id => decide (id ≠ []) && (find machines id).isSome

namespace AppState

def start (storage : Bool) (stored : Option Text) : AppState :=
  ⟨[], stored, none, [], none, [], 0, storage, stored, [], none⟩

def persistActiveMachine (s : AppState) (machineId : Option Text) : AppState :=
  if s.storage then { s with stored := machineId } else s

def emptySession (s : AppState) : AppState := { s with system := [], topNow := none, terminals := [] }

def request (s : AppState) (r : Request) : AppState := { s with pending := s.pending ++ [r] }

/-- No machine is shown. -/
def showNothing (s : AppState) : AppState :=
  { (s.persistActiveMachine none).emptySession with activeMachineId := none, status := none }

def setActiveMachine (s : AppState) (machineId : Option Text) : AppState :=
  let s := { s with machineSeedGeneration := s.machineSeedGeneration + 1 }
  match (machineId.filter fun id => decide (id ≠ [])).bind (find s.machines) with
  | none => s.showNothing
  | some machine =>
    { (s.persistActiveMachine (some machine.machineId)).emptySession with
      activeMachineId := some machine.machineId
      status := some machine }.request (.history machine.machineId s.machineSeedGeneration)

def refreshTerminals (s : AppState) : AppState := s.request (.terminals s.activeMachineId)

/-- The machine to show with this list: the one shown now, the stored one, or the first. -/
def preferred (s : AppState) (machines : List MachineStatus) : Option Text :=
  (listed machines s.activeMachineId).orElse fun _ =>
    (listed machines (if s.storage then s.stored else none)).orElse fun _ =>
      machines.head?.map MachineStatus.machineId

def push (s : AppState) (machines : List MachineStatus) : Push :=
  let preferred := s.preferred machines
  ⟨machines, s.activeMachineId, preferred,
    preferred.any fun id => decide (some id = s.activeMachineId) &&
      decide ((find s.machines id).map MachineStatus.revision ≠
        (find machines id).map MachineStatus.revision)⟩

/-- The list is replaced, and with it what the user can have chosen. -/
def setMachines (s : AppState) (machines : List MachineStatus) : AppState :=
  { s with machines := machines, chosen := listed machines s.chosen }

end AppState

def Push.switches (p : Push) : Bool :=
  decide (p.preferred ≠ p.current) || p.activeRevisionChanged

namespace AppState

/-- The end of the handler of a status push. -/
def followStatus (s : AppState) (p : Push) : AppState :=
  if p.switches then s.setActiveMachine p.preferred
  else { s with status := p.preferred.bind (find p.machines) }

def onStatus (s : AppState) (machines : List MachineStatus) : AppState :=
  let p := s.push machines
  let newlyLive := machines.any fun machine => (find s.machines machine.machineId).isNone
  let s := s.setMachines machines
  if newlyLive then s.request (.specs (.status p)) else s.followStatus p

/-- `reseed`, once it has the list and the module specs. -/
def seed (s : AppState) (machines : List MachineStatus) : AppState :=
  let s := s.setMachines machines
  match (s.preferred machines).filter fun id => decide (id ≠ []) with
  | none => s.showNothing
  | some active => s.setActiveMachine (some active)

def resume (s : AppState) : Waiter → AppState
  | .nobody => s
  | .status p => s.followStatus p
  | .reseed machines => s.seed machines

/-- What the reply to a request does; a refresh of the specs goes on after an error too. -/
def answered (s : AppState) : Request → Answer → AppState
  | .specs waiter, _ => s.resume waiter
  | .history machineId generation, .history system top =>
    if generation ≠ s.machineSeedGeneration ∨ s.activeMachineId ≠ some machineId then s
    else { s with
      system := system.map (Sample.mk machineId)
      topNow := top.map (Sample.mk machineId) }.refreshTerminals
  | .terminals machineId, .terminals list =>
    { s with terminals := list.filter fun terminal => decide (some terminal.machineId = machineId) }
  | .status, .status machines =>
    (s.request (.specs .nobody)).request (.specs (.reseed machines))
  | _, _ => s

def reply (s : AppState) (answer : Answer) : AppState :=
  match s.pending with
  | [] => s
  | r :: rest => { s with pending := rest }.answered r answer

def step (s : AppState) : AppEvent → AppState
  | .setActiveMachine machineId =>
    { s with chosen := listed s.machines machineId }.setActiveMachine machineId
  | .status machines => s.onStatus machines
  | .reconnected => s.request .status
  | .system sample now =>
    if some sample.machineId = s.activeMachineId then
      { s with system := prune (s.system ++ [sample]) now }
    else s
  | .top sample =>
    if some sample.machineId = s.activeMachineId then { s with topNow := some sample } else s
  | .terminalExit => s.refreshTerminals
  | .listChanged => s.request (.specs .nobody)
  | .reply answer => s.reply answer

end AppState
end BoredManager.Client.State
