import BoredManager.Fleet.Fanout
import BoredManager.Machine.Runs

/-! A fleet job: the batches of its fan-out one after another, the reports of the machines, and
the verdict. What runs between two awaits is one step. -/
namespace BoredManager.Fleet.Jobs
open BoredManager.Js BoredManager.Machine

inductive JobItemStatus where
  | pending | ok | error | skipped | cancelled
deriving DecidableEq

inductive JobState where
  | running | done | failed | partialDone | cancelled
deriving DecidableEq

structure JobItem where
  idx : Nat
  name : Text
  status : JobItemStatus
  message : Option Text
deriving DecidableEq

structure FleetJob where
  state : JobState
  total : Nat
  done : Nat
  failed : Nat
  items : List JobItem
deriving DecidableEq

def MAX_JOB_ITEMS : Nat := 200

structure Step where
  name : Text
  command : Text

/-- What one machine is asked to do in a job. -/
structure HostSteps where
  ip : Text
  steps : List Step

/-! ### What a machine reports -/

structure StepResult where
  name : Text
  rc : Int
  say : Text
deriving DecidableEq

namespace STEP_FRAME
def step : Text := js "===BMSTEP==="
def say : Text := js "===BMSAY==="
end STEP_FRAME

structure CurrentStep where
  name : Text
  rc : Int
  say : List Text

structure Steps where
  out : List StepResult
  current : Option CurrentStep
  inSay : Bool

/-- `flush()` -/
def Steps.flush (s : Steps) : List StepResult :=
  s.out ++ (s.current.map fun c => ⟨c.name, c.rc, trim (join [10] c.say)⟩).toList

/-- A line of a step's frame. -/
def readStep (c : CurrentStep) (line : Text) : CurrentStep :=
  if (js "name=").isPrefixOf line then { c with name := trim (line.drop 5) }
  else if (js "rc=").isPrefixOf line then { c with rc := (parseInt (trim (line.drop 3))).getD 0 }
  else c

def readStepLine (s : Steps) (line : Text) : Steps :=
  if line = STEP_FRAME.step then ⟨s.flush, some ⟨[], 0, []⟩, false⟩
  else match s.current with
    | none => s
    | some c =>
      if line = STEP_FRAME.say then { s with inSay := true }
      else if s.inSay then { s with current := some { c with say := c.say ++ [line] } }
      else { s with current := some (readStep c line) }

def parseSteps (stdout : Text) : List StepResult :=
  ((lines stdout).foldl readStepLine ⟨[], none, false⟩).flush

/-- What an outcome means, in the words of a note. -/
def reachMessage (reach : Reach) (result : FanoutResult) : Text :=
  match reach with
  | .ok => js "Connected."
  | .auth => js "Reachable, but the login was refused - check the user name, key or password for this address."
  | .refused => js "Nothing is listening on the SSH port. The machine is up but not accepting SSH."
  | .unreachable => js "No answer at this address."
  | .timeout => js "Timed out before the machine answered."
  | .hostkey => js "The host key did not match what is known. Clear it on the connected machine, or turn off strict host key checking in this module's rules."
  | .noSshpass => js "The connected machine has no sshpass, so it cannot log in with a password. Install it there or use an SSH key."
  | .error =>
    let line := ((lines result.stderr).head?).getD []
    if line = [] then js "Failed with exit code " ++ decimalInt result.rc ++ js "." else line

/-- `${step.name}: ${step.say || `exit ${step.rc}`}` -/
def failure (step : StepResult) : Text :=
  step.name ++ js ": " ++ if step.say = [] then js "exit " ++ decimalInt step.rc else step.say

/-- What the job reports of an answer: whether it is ok, and a message. -/
def judge (result : FanoutResult) : Bool × Text :=
  if classifyReach result ≠ .ok then (false, reachMessage (classifyReach result) result)
  else
    let done := parseSteps result.stdout
    let failed := done.filter fun step => step.rc ≠ 0
    if done = [] then (false, js "the machine did not report back on the action")
    else if failed = [] then (true, join (js ", ") (done.map StepResult.name))
    else (false, join (js "; ") (failed.map failure))

/-! ### The job -/

/-- `byName.get(name)`: where the last item of that name is. -/
def indexOf (name : Text) : List JobItem → Option Nat
  | [] => none
  | item :: items =>
    match indexOf name items with
    | some i => some (i + 1)
    | none => if item.name = name then some 0 else none

/-- `report(name, ok, text)` -/
def report (job : FleetJob) (name : Text) (verdict : Bool × Text) : FleetJob :=
  match (indexOf name job.items).bind fun i => job.items[i]?.map fun item => (i, item) with
  | none => job
  | some (i, item) =>
    if item.status ≠ .pending then job
    else { job with
      items := job.items.set i { item with
        status := if verdict.1 then .ok else .error
        message := if verdict.2 = [] then item.message else some verdict.2 }
      done := job.done + 1
      failed := if verdict.1 then job.failed else job.failed + 1 }

def reportAll (job : FleetJob) (results : List FanoutResult) : FleetJob :=
  results.foldl (fun job result => report job result.ip (judge result)) job

/-- Where the runner of a job waits. -/
inductive Phase where
  | contacting | refreshing | finished
deriving DecidableEq

/-- A job and its runner. `results` are those of `runFanout` so far; `called` and `threw` record
whether `cancel` was called while the job ran, and whether a command rejected. -/
structure JobRun where
  job : FleetJob
  cancelling : Bool
  offset : Nat
  results : List FanoutResult
  phase : Phase
  called : Bool
  threw : Bool
deriving DecidableEq

def batchSize (maxParallel : Int) : Nat := (max 1 (min (maxParallel * 2) 64)).toNat

def isPending (item : JobItem) : Bool := item.status = .pending

/-- What `run` does behind the `catch`. -/
def finish (s : JobRun) : JobRun :=
  let status := if s.cancelling then JobItemStatus.cancelled else .skipped
  let job := { s.job with
    items := s.job.items.map fun item => if isPending item then { item with status := status } else item
    done := s.job.done + s.job.items.countP isPending }
  { s with
    phase := .finished
    cancelling := false
    job := { job with state :=
      if s.cancelling then .cancelled
      else if job.failed = 0 then .done
      else if job.failed = job.total then .failed
      else .partialDone } }

/-- The `catch`: every item that is pending failed. -/
def stopped (message : Text) (s : JobRun) : JobRun :=
  { s with
    threw := true
    job := { s.job with
      items := s.job.items.map fun item =>
        if isPending item then { item with status := .error, message := some message } else item
      done := s.job.done + s.job.items.countP isPending
      failed := s.job.failed + s.job.items.countP isPending } }

/-- What `spec.run` does with the results. -/
def conclude (s : JobRun) : JobRun :=
  let s := { s with job := reportAll s.job s.results }
  if s.cancelling then finish s else { s with phase := .refreshing }

/-- The head of the loop over the batches. -/
def boundary (work : List HostSteps) (connected : Bool) (s : JobRun) : JobRun :=
  if s.offset < work.length ∧ s.cancelling = false ∧ connected = true then { s with phase := .contacting }
  else conclude s

def start (work : List HostSteps) (connected : Bool) : JobRun :=
  let names := work.map HostSteps.ip
  let items := (names.take MAX_JOB_ITEMS).mapIdx fun idx name => ⟨idx, name, .pending, none⟩
  boundary work connected
    ⟨⟨.running, min names.length MAX_JOB_ITEMS, 0, 0, items⟩, false, 0, [], .contacting, false, false⟩

/-- The command of a batch settles: it rejects, or its output is read. -/
def answered (work : List HostSteps) (size : Nat) (res : Except Text ExecResult) (connected : Bool)
    (s : JobRun) : JobRun :=
  match res with
  | .error message => finish (stopped message s)
  | .ok res =>
    let batch := (work.drop s.offset).take size
    boundary work connected { s with
      results := s.results ++ batch.map fun entry => answerOf res entry.ip
      offset := s.offset + size }

/-- `cancel`; a job that has finished is not found. -/
def cancel (s : JobRun) : JobRun :=
  if s.phase = .finished then s else { s with cancelling := true, called := true }

/-- What happens to a job; `refreshed` is the end of the sweep behind it. -/
inductive Event where
  | answered (res : Except Text ExecResult) (connected : Bool)
  | refreshed
  | cancel

def step (work : List HostSteps) (maxParallel : Int) (s : JobRun) : Event → JobRun
  | .answered res connected => answered work (batchSize maxParallel) res connected s
  | .refreshed => finish s
  | .cancel => cancel s

def Enabled (s : JobRun) : Event → Prop
  | .answered _ _ => s.phase = .contacting
  | .refreshed => s.phase = .refreshing
  | .cancel => True

instance (s : JobRun) : (event : Event) → Decidable (Enabled s event)
  | .answered _ _ => inferInstanceAs (Decidable (s.phase = .contacting))
  | .refreshed => inferInstanceAs (Decidable (s.phase = .refreshing))
  | .cancel => inferInstanceAs (Decidable True)

end BoredManager.Fleet.Jobs
