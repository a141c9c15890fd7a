import BoredManager.Bmc.Machines
import BoredManager.Machine.Runs

/-! The sweeper of the BMC module: one sweep at a time over all machines, machines that are read on
their own, and edits and resets meanwhile. What runs between two awaits is one step; `clock` counts
the steps, and every reading carries the probe that it came from. -/
namespace BoredManager.Bmc
open BoredManager.Js BoredManager.Machine

def SWEEP_CONCURRENCY : Nat := 4

/-- The machine that was asked, in which generation, and when. -/
structure Probe where
  machine : BmcMachine
  generation : Nat
  began : Nat
  ended : Nat
deriving DecidableEq

structure Reading where
  state : MachineRuntimeState
  probe : Probe
deriving DecidableEq

/-- A probe in flight, with the state that was known of its machine when it began. -/
structure Asked where
  machine : BmcMachine
  previous : Option MachineRuntimeState
  began : Nat
deriving DecidableEq

/-- What a sweep will set, if the machine's version and fingerprint still are these. -/
structure Update where
  reading : Reading
  version : Nat
  fingerprint : BmcMachine
deriving DecidableEq

/-- The loop over the machines: `running` are the probes of the workers, `rest` the machines from the
cursor on; `captured` is when the versions were read. -/
structure Probing where
  machines : List BmcMachine
  versions : OrderedMap Text Nat
  running : List Asked
  rest : List BmcMachine
  updates : OrderedMap Text Update
  captured : Nat
deriving DecidableEq

/-- `ended` is before the `finally` of the sweep, `settled` after it. -/
inductive SweepPhase where
  | capabilities
  | probing (p : Probing)
  | ended (failed : Bool)
  | settled (failed : Bool)
deriving DecidableEq

structure Sweep where
  generation : Nat
  phase : SweepPhase
deriving DecidableEq

/-- A `refreshOne` whose probe runs. -/
structure Refresh where
  asked : Asked
  version : Nat
  generation : Nat
deriving DecidableEq

/-- `inFlight.then(…)`: it waits for its sweep, is about to run, or rejected with it. -/
inductive QueuedState where
  | waiting | ready | rejected
deriving DecidableEq

structure Queued where
  sweep : Nat
  state : QueuedState
deriving DecidableEq

/-- The promise that a `run` call got. -/
inductive Promised where
  | sweep (n : Nat)
  | queue
deriving DecidableEq

/-- A `run` call that waits, with the generation it was made in. -/
structure RunCall where
  generation : Nat
  promise : Promised
deriving DecidableEq

/-- A `run` call that settled, with the sweep that settled it. -/
structure Settled where
  generation : Nat
  sweep : Nat
  failed : Bool
deriving DecidableEq

structure Sweeper where
  config : ConfigStore
  connected : Bool
  generation : Nat
  states : OrderedMap Text Reading
  stateVersions : OrderedMap Text Nat
  latest : Option MachinesPayload
  inFlight : Option Nat
  inFlightGeneration : Nat
  queued : Option Queued
  sweeps : List Sweep
  refreshes : List Refresh
  clock : Nat
  calls : List RunCall
  settled : List Settled
  replaced : List (Reading × Reading)

inductive Ensured where
  | threw | problem | fine
deriving DecidableEq

inductive SweeperEvent where
  | run
  | refreshOne (id : Text)
  | refreshed (k : Nat) (result : IpmiResult) (now : Int)
  | forgetMachine (id : Text)
  | apply (id : Text) (fields : Fields)
  | delete (id : Text) (revision : Nat)
  | reset
  | connection (up : Bool)
  | ensured (n : Nat) (outcome : Ensured) (fails : Bool)
  | answered (n k : Nat) (result : IpmiResult) (now : Int)
  | finish (n : Nat) (fails : Bool)
  | settle (n : Nat)
  | resume
deriving DecidableEq

namespace Sweeper

def start (config : ConfigStore) (connected : Bool) : Sweeper :=
  ⟨config, connected, 0, .empty, .empty, none, none, 0, none, [], [], 0, [], [], []⟩

/-! ### States -/

def stateFor (s : Sweeper) (id : Text) (revision : Nat) : Option MachineRuntimeState :=
  ((s.states.get? id).map Reading.state).filter fun state => decide (state.revision = revision)

def active (s : Sweeper) (generation : Nat) : Bool := decide (generation = s.generation) && s.connected

def stateVersion (s : Sweeper) (id : Text) : Nat := (s.stateVersions.get? id).getD 0

def bumpStateVersion (s : Sweeper) (id : Text) : Sweeper :=
  { s with stateVersions := s.stateVersions.set id (s.stateVersion id + 1) }

/-- Entries of a map that are kept. -/
def keep {ν : Type} (m : OrderedMap Text ν) (p : Text × ν → Bool) : OrderedMap Text ν :=
  ⟨m.entries.filter p, m.nodup.sublist (List.filter_sublist.map _)⟩

def publishCards (s : Sweeper) : Sweeper :=
  let states := keep s.states fun e =>
    decide ((s.config.find e.1).map BmcMachine.revision = some e.2.state.revision)
  { s with
    states := states
    stateVersions := keep s.stateVersions fun e => (s.config.find e.1).isSome
    latest := some (buildMachinesPayload s.config.machines fun id => (states.get? id).map Reading.state) }

/-- `states.set(id, …)`, with what it replaces. -/
def setState (s : Sweeper) (id : Text) (reading : Reading) : Sweeper :=
  { s with
    states := s.states.set id reading
    replaced := s.replaced ++ ((s.states.get? id).map fun old => (old, reading)).toList }

def ask (s : Sweeper) (machine : BmcMachine) : Asked :=
  ⟨machine, s.stateFor machine.id machine.revision, s.clock⟩

def Asked.read (asked : Asked) (s : Sweeper) (generation : Nat) (result : IpmiResult) (now : Int) :
    Reading :=
  ⟨readState asked.machine asked.previous result now,
    ⟨asked.machine, generation, asked.began, s.clock⟩⟩

def forgetMachine (s : Sweeper) (id : Text) : Sweeper :=
  let s := s.bumpStateVersion id
  { s with states := s.states.erase id }.publishCards

/-! ### One machine on its own -/

def refreshOne (s : Sweeper) (id : Text) : Sweeper :=
  if s.connected = false then s
  else match s.config.find id with
    | none => s
    | some machine =>
      let s := s.bumpStateVersion id
      { s with refreshes := s.refreshes ++ [⟨s.ask machine, s.stateVersion id, s.generation⟩] }

/-- What a refresh still has to match when its probe has answered. -/
def fresh (s : Sweeper) (r : Refresh) : Bool :=
  s.active r.generation && decide (s.stateVersion r.asked.machine.id = r.version) &&
    decide (s.config.find r.asked.machine.id = some r.asked.machine)

def refreshed (s : Sweeper) (k : Nat) (result : IpmiResult) (now : Int) : Sweeper :=
  match s.refreshes[k]? with
  | none => s
  | some r =>
    let s' := { s with refreshes := s.refreshes.eraseIdx k }
    if s.fresh r = false then s'
    else (s'.setState r.asked.machine.id (Asked.read r.asked s r.generation result now)).publishCards

/-- A successful `apply` of the form, which is followed by a refresh. -/
def apply (s : Sweeper) (id : Text) (fields : Fields) : Sweeper :=
  ({ s with config := s.config.save id fields }.forgetMachine id).refreshOne id

def delete (s : Sweeper) (id : Text) (revision : Nat) : Sweeper :=
  if (s.config.find id).map BmcMachine.revision = some revision then
    { s with config := s.config.remove id }.forgetMachine id
  else s

/-! ### Sweeps -/

def setPhase (s : Sweeper) (n : Nat) (phase : SweepPhase) : Sweeper :=
  { s with sweeps := s.sweeps.modify n fun w => { w with phase := phase } }

/-- The promise that `run` returns; none is one that has rejected already. -/
def run (s : Sweeper) : Sweeper × Option Promised :=
  match s.inFlight with
  | some n =>
    if s.inFlightGeneration = s.generation then (s, some (.sweep n))
    else match s.queued with
      | none => ({ s with queued := some ⟨n, .waiting⟩ }, some .queue)
      | some q => (s, if q.state = .rejected then none else some .queue)
  | none =>
    let n := s.sweeps.length
    let phase := if s.active s.generation then SweepPhase.capabilities else .ended false
    ({ s with
        sweeps := s.sweeps ++ [⟨s.generation, phase⟩]
        inFlight := some n
        inFlightGeneration := s.generation }, some (.sweep n))

def call (s : Sweeper) : Sweeper :=
  let (s', promise) := s.run
  match promise with
  | some promise => { s' with calls := s'.calls ++ [⟨s.generation, promise⟩] }
  | none =>
    { s' with settled := s'.settled ++
        (s.queued.map fun q => (⟨s.generation, q.sweep, true⟩ : Settled)).toList }

/-- After the capabilities: nothing to ask, or the first probes of the workers. -/
def ensured (s : Sweeper) (n : Nat) (outcome : Ensured) (fails : Bool) : Sweeper :=
  match s.sweeps[n]? with
  | some ⟨generation, .capabilities⟩ =>
    if outcome = .threw then s.setPhase n (.ended true)
    else if s.active generation = false then s.setPhase n (.ended false)
    else if outcome = .problem then s.publishCards.setPhase n (.ended fails)
    else if s.config.machines = [] then
      { s with states := .empty }.publishCards.setPhase n (.ended fails)
    else s.setPhase n (.probing
      { machines := s.config.machines
        versions := .ofList (s.config.machines.map fun m => (m.id, s.stateVersion m.id))
        running := (s.config.machines.take SWEEP_CONCURRENCY).map s.ask
        rest := s.config.machines.drop SWEEP_CONCURRENCY
        updates := .empty
        captured := s.clock })
  | _ => s

/-- A worker's probe has answered: its update is kept, and it asks the next machine. -/
def answered (s : Sweeper) (n k : Nat) (result : IpmiResult) (now : Int) : Sweeper :=
  match s.sweeps[n]? with
  | some ⟨generation, .probing p⟩ =>
    match p.running[k]? with
    | none => s
    | some asked =>
      if s.active generation = false then
        s.setPhase n (.probing { p with running := p.running.eraseIdx k })
      else
        let update : Update := ⟨Asked.read asked s generation result now,
          (p.versions.get? asked.machine.id).getD 0, asked.machine⟩
        s.setPhase n (.probing { p with
          running := p.running.eraseIdx k ++ (p.rest.take 1).map s.ask
          rest := p.rest.drop 1
          updates := p.updates.set asked.machine.id update })
  | _ => s

/-- One update of a sweep, if nothing happened to its machine meanwhile. -/
def commit (s : Sweeper) (e : Text × Update) : Sweeper :=
  if s.stateVersion e.1 ≠ e.2.version then s
  else if s.config.find e.1 ≠ some e.2.fingerprint then s
  else s.setState e.1 e.2.reading

/-- After the last worker. -/
def finish (s : Sweeper) (n : Nat) (fails : Bool) : Sweeper :=
  match s.sweeps[n]? with
  | some ⟨generation, .probing p⟩ =>
    if p.running ≠ [] then s
    else if s.active generation = false then s.setPhase n (.ended false)
    else (p.updates.entries.foldl commit s).publishCards.setPhase n (.ended fails)
  | _ => s

/-- The calls on a promise, as they settle with a sweep. -/
def settledWith (s : Sweeper) (promise : Promised) (n : Nat) (failed : Bool) : List Settled :=
  (s.calls.filter (·.promise = promise)).map fun call => ⟨call.generation, n, failed⟩

/-- The `finally` of a sweep, and what waits for it. -/
def settle (s : Sweeper) (n : Nat) : Sweeper :=
  match s.sweeps[n]? with
  | some ⟨_, .ended failed⟩ =>
    let s' := { s.setPhase n (.settled failed) with
      inFlight := if s.inFlight = some n then none else s.inFlight
      settled := s.settled ++ s.settledWith (.sweep n) n failed
      calls := s.calls.filter (·.promise ≠ .sweep n) }
    if s.queued ≠ some ⟨n, .waiting⟩ then s'
    else if failed then
      { s' with
        queued := some ⟨n, .rejected⟩
        settled := s'.settled ++ s'.settledWith .queue n true
        calls := s'.calls.filter (·.promise ≠ .queue) }
    else { s' with queued := some ⟨n, .ready⟩ }
  | _ => s

/-- The callback of the queued promise: its calls wait for what `run` returns. -/
def resume (s : Sweeper) : Sweeper :=
  if s.queued.all (·.state ≠ .ready) then s
  else
    let (s', promise) := { s with queued := none }.run
    { s' with calls := s'.calls.map fun call =>
        if call.promise = .queue then { call with promise := promise.getD .queue } else call }

def reset (s : Sweeper) : Sweeper :=
  { s with generation := s.generation + 1, states := .empty, stateVersions := .empty, latest := none }

def handle (s : Sweeper) : SweeperEvent → Sweeper
  | .run => s.call
  | .refreshOne id => s.refreshOne id
  | .refreshed k result now => s.refreshed k result now
  | .forgetMachine id => s.forgetMachine id
  | .apply id fields => s.apply id fields
  | .delete id revision => s.delete id revision
  | .reset => s.reset
  | .connection up => { s with connected := up }
  | .ensured n outcome fails => s.ensured n outcome fails
  | .answered n k result now => s.answered n k result now
  | .finish n fails => s.finish n fails
  | .settle n => s.settle n
  | .resume => s.resume

def tick (s : Sweeper) : Sweeper := { s with clock := s.clock + 1 }

def step (s : Sweeper) (event : SweeperEvent) : Sweeper := (s.handle event).tick

/-! ### What is to hold -/

/-- A sweep that was begun and has not settled. -/
def Runs (s : Sweeper) (n : Nat) : Prop :=
  ∃ w, s.sweeps[n]? = some w ∧ ∀ failed, w.phase ≠ .settled failed

/-- Cards show readings of this generation of exactly the stored machines, and are counted; a reading
never gives way to one whose probe ended before its own began; one sweep runs at most; calls settle
with a sweep of their generation or a later one, and fail only if it did; and none is turned away. -/
structure Sane (s : Sweeper) : Prop where
  shown : ∀ payload ∈ s.latest, payload = buildMachinesPayload s.config.machines fun id =>
    (s.states.get? id).map Reading.state
  exact : ∀ machine ∈ s.config.machines, ∀ reading ∈ s.states.get? machine.id,
    reading.state.revision = machine.revision →
      reading.probe.machine = machine ∧ reading.probe.generation = s.generation
  counted : ∀ payload ∈ s.latest, payload.counts.sum = payload.machines.length
  newer : ∀ e ∈ s.replaced, e.1.probe.began ≤ e.2.probe.ended
  single : ∀ i j, s.Runs i → s.Runs j → i = j
  settles : ∀ e ∈ s.settled, ∃ w, s.sweeps[e.sweep]? = some w ∧ e.generation ≤ w.generation ∧
    w.phase = .settled e.failed
  accepts : ∀ q ∈ s.queued, q.state ≠ .rejected

/-- What is asked of an event: a sweep does not fail while calls of a later generation wait for it. -/
def Allowed (s : Sweeper) : SweeperEvent → Prop
  | .settle n => s.queued = some ⟨n, .waiting⟩ →
      ∀ w ∈ s.sweeps[n]?, w.phase ≠ .ended true
  | _ => True

instance (s : Sweeper) : (event : SweeperEvent) → Decidable (s.Allowed event)
  | .settle n => inferInstanceAs (Decidable (_ → ∀ w ∈ s.sweeps[n]?, _))
  | .run | .refreshOne _ | .refreshed _ _ _ | .forgetMachine _ | .apply _ _ | .delete _ _ | .reset
  | .connection _ | .ensured _ _ _ | .answered _ _ _ _ | .finish _ _ | .resume =>
    inferInstanceAs (Decidable True)

end Sweeper
end BoredManager.Bmc
