import BoredManager.Machine.Runs

/-! The registry of everything that a clean close disposes of: resources that come and go, single
disposals, and the drain behind `disposeAll`. An id is the number that makes it unique. -/
namespace BoredManager.Server.Registry

inductive SessionRegistryState where
  | active | shuttingDown | disposed
deriving DecidableEq, Repr

/-- Who called a disposer: `dispose(id)`, a round of the drain, or `register` once the shutdown
has begun (in `lateDisposals`) or is over (in no list). -/
inductive Caller where
  | dispose | drain | late | untracked
deriving DecidableEq, Repr

/-- One call of `disposeItem`, and whether its promise has settled. A disposer that throws settles
it too. -/
structure Disposal where
  id : Nat
  caller : Caller
  settled : Bool
deriving DecidableEq, Repr

/-- Where `shutdownPromise` stands. -/
inductive Shutdown where
  | none
  /-- Inside `current.map`: what is still to call, and what was called. -/
  | calling (todo started : List Nat)
  /-- At `settleWithin`. -/
  | waiting (work : List Nat)
  /-- At `await Promise.resolve()`. -/
  | looking
  /-- The drain has returned, `finally` has not run. -/
  | returned
  | closed
  | resolved
deriving DecidableEq, Repr

namespace Shutdown

def todo : Shutdown → List Nat
  | calling todo _ => todo
  | _ => []

/-- The calls that the drain waits for, or will when its round is complete. -/
def work : Shutdown → List Nat
  | calling _ started => started
  | waiting work => work
  | _ => []

/-- The drain has returned. -/
def ended : Shutdown → Bool
  | returned | closed | resolved => true
  | _ => false

end Shutdown

structure SessionRegistry where
  items : List Nat
  lateDisposals : List Nat
  counter : Nat
  state : SessionRegistryState
  shutdown : Shutdown
  disposals : List Disposal
  /-- What `unregister` has taken out. -/
  unregistered : List Nat
  /-- The drain gave up at its deadline. -/
  expired : Bool
  /-- The counter when the drain last looked and found nothing more to do. -/
  looked : Nat
deriving DecidableEq, Repr

def SessionRegistry.new : SessionRegistry := ⟨[], [], 0, .active, .none, [], [], false, 0⟩

namespace SessionRegistry
variable (r : SessionRegistry)

def pending (id : Nat) : Bool := r.disposals.any fun d => d.id == id && !d.settled

def disposeItem (id : Nat) (caller : Caller) : SessionRegistry :=
  { r with disposals := r.disposals ++ [⟨id, caller, false⟩] }

def register : SessionRegistry :=
  let id := r.counter + 1
  let r := { r with counter := id }
  match r.state with
  | .active => { r with items := r.items ++ [id] }
  | .shuttingDown => { r.disposeItem id .late with lateDisposals := r.lateDisposals ++ [id] }
  | .disposed => r.disposeItem id .untracked

def unregister (id : Nat) : SessionRegistry :=
  if id ∈ r.items then
    { r with items := r.items.erase id, unregistered := id :: r.unregistered }
  else r

def dispose (id : Nat) : SessionRegistry :=
  if id ∈ r.items then { r with items := r.items.erase id }.disposeItem id .dispose else r

/-- A round of the drain takes the items there are. -/
def round : SessionRegistry := { r with items := [], shutdown := .calling r.items [] }

def disposeAll : SessionRegistry :=
  if r.shutdown = .none then { r with state := .shuttingDown }.round else r

/-- The next disposer of `current.map`. -/
def call : SessionRegistry :=
  match r.shutdown with
  | .calling (id :: todo) started =>
    { r with shutdown := .calling todo (started ++ [id]) }.disposeItem id .drain
  | _ => r

/-- `work` is complete: there is something to wait for, or the drain takes a last look. -/
def collect : SessionRegistry :=
  match r.shutdown with
  | .calling [] started =>
    let work := started ++ r.lateDisposals
    { r with shutdown := if work = [] then .looking else .waiting work }
  | _ => r

def settle (id : Nat) : SessionRegistry :=
  { r with disposals := r.disposals.map fun d => if d.id = id then { d with settled := true } else d }

/-- `finally` behind a late disposal. -/
def forget (id : Nat) : SessionRegistry :=
  if r.pending id then r else { r with lateDisposals := r.lateDisposals.erase id }

/-- All that the round waits for has settled. What `finally` takes out of `lateDisposals` was
asked for first, so it has been taken out by then. -/
def Woken (work : List Nat) : Prop := ∀ id ∈ work, r.pending id = false ∧ id ∉ r.lateDisposals

instance (work : List Nat) : Decidable (r.Woken work) :=
  inferInstanceAs (Decidable (∀ id ∈ work, r.pending id = false ∧ id ∉ r.lateDisposals))

def wake : SessionRegistry :=
  match r.shutdown with
  | .waiting work => if r.Woken work then r.round else r
  | _ => r

/-- The deadline has come, or had when the round began to wait. -/
def expire : SessionRegistry :=
  match r.shutdown with
  | .waiting _ => { r with shutdown := .returned, expired := true }
  | _ => r

def look : SessionRegistry :=
  if r.shutdown = .looking then
    if r.items = [] ∧ r.lateDisposals = [] then
      { r with shutdown := .returned, looked := r.counter }
    else r.round
  else r

/-- `finally` behind the drain. -/
def close : SessionRegistry :=
  if r.shutdown = .returned then { r with shutdown := .closed, state := .disposed, items := [] }
  else r

def resolve : SessionRegistry :=
  if r.shutdown = .closed then { r with shutdown := .resolved } else r

end SessionRegistry

inductive RegistryEvent where
  | register | unregister (id : Nat) | dispose (id : Nat) | disposeAll
  | call | collect | settle (id : Nat) | forget (id : Nat) | wake | expire | look | close | resolve
deriving DecidableEq, Repr

def SessionRegistry.step (r : SessionRegistry) : RegistryEvent → SessionRegistry
  | .register => r.register
  | .unregister id => r.unregister id
  | .dispose id => r.dispose id
  | .disposeAll => r.disposeAll
  | .call => r.call
  | .collect => r.collect
  | .settle id => r.settle id
  | .forget id => r.forget id
  | .wake => r.wake
  | .expire => r.expire
  | .look => r.look
  | .close => r.close
  | .resolve => r.resolve

end BoredManager.Server.Registry
