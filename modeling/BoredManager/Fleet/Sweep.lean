import BoredManager.Fleet.Roster
import BoredManager.Machine.Runs

/-! The sweep over every planned address, batch after batch, and the machines that are read on their
own meanwhile. What runs between two awaits is one step; `asks` counts the commands that were sent. -/
namespace BoredManager.Fleet.Sweeps
open BoredManager.Js BoredManager.Machine BoredManager.Fleet.Targets

/-- An answer, and the command that asked for it. -/
structure Asked where
  result : FanoutResult
  asked : Nat

/-- A sweep in flight, with the plan it began with, while the command of a batch runs. -/
structure Sweeping where
  first : FanoutTarget
  more : List FanoutTarget
  results : List Asked
  batch : List FanoutTarget
  rest : List FanoutTarget
  asked : Nat

/-- A `refreshOne` whose command runs. -/
structure Pending where
  ip : Text
  cred : TargetRule
  asked : Nat

structure Sweeper where
  roster : Roster
  connected : Bool
  asks : Nat
  sweeping : Option Sweeping
  cancelRequested : Bool
  pending : List Pending

inductive SweepEvent where
  | sweep (problem : Bool) (now : Int)
  | answered (res : ExecResult) (now : Int)
  | failed
  | cancel
  | refresh (ip : Text)
  | refreshed (n : Nat) (res : ExecResult) (now : Int)
  | refreshFailed (n : Nat)
  | connection (up : Bool)

def batchSize (setup : Setup) : Nat := (max 1 (min (setup.maxParallel * 2) 64)).toNat

def entryOf (setup : Setup) (cred : TargetRule) (answer : Asked) : SweepEntry :=
  let reach := classifyReach answer.result
  { ip := answer.result.ip, cred := cred, reach := reach
    reachMessage := Jobs.reachMessage reach answer.result
    facts := if reach = .ok then setup.facts answer.result.stdout else none
    asked := answer.asked }

/-- `byIp.get(ip)?.cred ?? plan.targets[0].cred` -/
def credOf (first : FanoutTarget) (more : List FanoutTarget) (ip : Text) : TargetRule :=
  (((first :: more).findRev? (·.ip == ip)).getD first).cred

def entries (setup : Setup) (first : FanoutTarget) (more : List FanoutTarget) (results : List Asked) :
    List SweepEntry :=
  results.map fun answer => entryOf setup (credOf first more answer.result.ip) answer

/-- The loop of `runFanout` is left: nothing is left to ask, or it is not to be asked. -/
def Sweeper.stops (s : Sweeper) (rest : List FanoutTarget) : Bool :=
  rest.isEmpty || s.cancelRequested || !s.connected

/-- The head of the loop: the next batch is asked, or the sweep is folded in with what it has. -/
def Sweeper.next (setup : Setup) (now : Int) (s : Sweeper) (first : FanoutTarget)
    (more : List FanoutTarget) (results : List Asked) (rest : List FanoutTarget) : Sweeper :=
  if s.stops rest then
    { s with
        roster := s.roster.apply setup now (entries setup first more results)
        sweeping := none
        cancelRequested := false }
  else
    { s with
        sweeping := some ⟨first, more, results, rest.take (batchSize setup),
          rest.drop (batchSize setup), s.asks⟩
        asks := s.asks + 1 }

/-- The answers of a batch, one for each target. -/
def Sweeping.answers (w : Sweeping) (res : ExecResult) : List Asked :=
  w.results ++ w.batch.map fun target => ⟨answerOf res target.ip, w.asked⟩

/-- `run()`, which joins a sweep in flight. -/
def Sweeper.sweep (setup : Setup) (s : Sweeper) (problem : Bool) (now : Int) : Sweeper :=
  if s.sweeping.isSome || !s.connected || problem then s
  else match (planTargets setup.targets setup.maxHosts).targets with
    | [] => { s with roster := s.roster.apply setup now [] }
    | first :: more =>
      Sweeper.next setup now { s with cancelRequested := false } first more [] (first :: more)

def Sweeper.refresh (setup : Setup) (s : Sweeper) (ip : Text) : Sweeper :=
  match resolveCredential ip setup.targets with
  | none => s
  | some cred =>
    if s.connected = false then s
    else { s with pending := s.pending ++ [⟨ip, cred, s.asks⟩], asks := s.asks + 1 }

def Sweeper.refreshed (setup : Setup) (s : Sweeper) (n : Nat) (res : ExecResult) (now : Int) : Sweeper :=
  match s.pending[n]? with
  | none => s
  | some p =>
    { s with
        roster := s.roster.applyOne setup now (entryOf setup p.cred ⟨answerOf res p.ip, p.asked⟩)
        pending := s.pending.eraseIdx n }

def Sweeper.step (setup : Setup) (s : Sweeper) : SweepEvent → Sweeper
  | .sweep problem now => s.sweep setup problem now
  | .answered res now =>
    match s.sweeping with
    | none => s
    | some w => s.next setup now w.first w.more (w.answers res) w.rest
  | .failed => { s with sweeping := none }
  | .cancel => if s.sweeping.isSome then { s with cancelRequested := true } else s
  | .refresh ip => s.refresh setup ip
  | .refreshed n res now => s.refreshed setup n res now
  | .refreshFailed n => { s with pending := s.pending.eraseIdx n }
  | .connection up => { s with connected := up }

/-- A roster that was just read from its document. -/
def Sweeper.start (hosts : OrderedMap Text HostRecord) (connected : Bool) : Sweeper :=
  ⟨⟨.empty, hosts⟩, connected, 0, none, false, []⟩

end BoredManager.Fleet.Sweeps
