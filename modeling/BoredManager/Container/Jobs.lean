import BoredManager.Js.Number
import BoredManager.Machine.Runs

/-! The container job runner: a pool of workers that pull items from a shared cursor. What runs
between two awaits is one step; an item settles at an event of its own. -/
namespace BoredManager.Container
open BoredManager.Js BoredManager.Machine

variable {ρ : Type*}

inductive FleetItemStatus where
  | pending | running | ok | error | skipped | cancelled
deriving DecidableEq

inductive FleetJobState where
  | running | done | failed | partialDone | cancelled
deriving DecidableEq

inductive Concurrency where
  | sequential | parallel

inductive OnError where
  | continue_ | abort
deriving DecidableEq

structure FleetJobItem where
  idx : Nat
  name : Text
  status : FleetItemStatus
  message : Option Text

structure FleetJob where
  state : FleetJobState
  total : Nat
  done : Nat
  failed : Nat
  progressPct : Int
  items : List FleetJobItem

/-- How the promise of a runner settles. -/
inductive Outcome where
  | ok
  | error (message : Text)
  | cancelledError
deriving DecidableEq

/-- An item, and how its runner settles on what the machine answered. -/
structure JobItemSpec (ρ : Type*) where
  name : Text
  run : ρ → Outcome

structure JobSpec (ρ : Type*) where
  concurrency : Concurrency
  onError : OnError
  maxParallel : Int
  itemTimeoutMs : Int
  items : List (JobItemSpec ρ)

def MAX_JOB_ITEMS : Nat := 200

/-- How waiting for an item ends: its runner settles, or takes too long. -/
inductive Settled (ρ : Type*) where
  | answered (answer : ρ)
  | timedOut

/-- `withTimeout(source.run(cancelled), spec.itemTimeoutMs, item.name)` -/
def withTimeout (source : JobItemSpec ρ) (ms : Int) (name : Text) : Settled ρ → Outcome
  | .answered answer => source.run answer
  | .timedOut => .error (name ++ js " took longer than " ++ decimalInt (Number.roundInt (ms / 1000)) ++ js "s")

/-- What happened in a run, in order. -/
inductive Mark (ρ : Type*) where
  | started (index : Nat)
  | recorded (index : Nat) (status : FleetItemStatus) (settled : Settled ρ)
  | cancel

/-- A job and its pool: `ready` workers are about to pull, the others wait for an item or have
returned. -/
structure Pool (ρ : Type*) where
  job : FleetJob
  cancelling : Bool
  aborted : Bool
  next : Nat
  ready : Nat
  awaited : List Nat
  log : List (Mark ρ)

/-- The workers of the pool; the sequential loop is one worker. -/
def width (spec : JobSpec ρ) (items : Nat) : Nat :=
  match spec.concurrency with
  | .sequential => 1
  | .parallel => (max 1 (min spec.maxParallel items)).toNat

def start (spec : JobSpec ρ) : Pool ρ :=
  let items := (spec.items.take MAX_JOB_ITEMS).mapIdx fun idx item =>
    ⟨idx, item.name, .pending, none⟩
  ⟨⟨.running, spec.items.length, 0, 0, 0, items⟩, false, false, 0, width spec items.length, [], []⟩

/-- `job.total ? Math.round((job.done / job.total) * 100) : 100` -/
def FleetJob.progress (job : FleetJob) : Int :=
  if job.total = 0 then 100
  else Number.roundInt (Number.double (Number.double (job.done / job.total) * 100))

/-- A new status of an item. -/
def FleetJob.setStatus (job : FleetJob) (index : Nat) (item : FleetJobItem)
    (status : FleetItemStatus) : FleetJob :=
  { job with items := job.items.set index { item with status := status } }

/-- The item is passed over. -/
def Pool.pass (p : Pool ρ) (index : Nat) (item : FleetJobItem) : Pool ρ :=
  let job := p.job.setStatus index item (if p.cancelling then .cancelled else .skipped)
  { p with job := { job with done := job.done + 1 } }

/-- The runner of the item starts, and a worker waits for it. -/
def Pool.launch (p : Pool ρ) (index : Nat) (item : FleetJobItem) : Pool ρ :=
  { p with
    job := p.job.setStatus index item .running
    ready := p.ready - 1
    awaited := index :: p.awaited
    log := p.log ++ [.started index] }

def runOne (spec : JobSpec ρ) (index : Nat) (p : Pool ρ) : Pool ρ :=
  match p.job.items[index]?, spec.items[index]? with
  | some item, some _ =>
    if p.cancelling || p.aborted then p.pass index item else p.launch index item
  | _, _ => p

/-- A worker takes the next index, and returns when there is none. -/
def pull (spec : JobSpec ρ) (p : Pool ρ) : Pool ρ :=
  let index := p.next
  let p := { p with next := p.next + 1 }
  if p.job.items.length ≤ index then { p with ready := p.ready - 1 } else runOne spec index p

/-- The status of an item whose runner settled, and its message. -/
def verdict (cancelling : Bool) : Outcome → FleetItemStatus × Option Text
  | .ok => (.ok, none)
  | .cancelledError => (.cancelled, none)
  | .error message => if cancelling then (.cancelled, none) else (.error, some message)

/-- What `runOne` does behind its await. -/
def Pool.record (p : Pool ρ) (spec : JobSpec ρ) (index : Nat) (item : FleetJobItem)
    (settled : Settled ρ) (found : FleetItemStatus × Option Text) : Pool ρ :=
  let job := p.job.setStatus index { item with message := found.2 } found.1
  let job := { job with
    done := job.done + 1
    failed := if found.1 = FleetItemStatus.error then job.failed + 1 else job.failed }
  { p with
    job := { job with progressPct := job.progress }
    aborted := p.aborted || decide (found.1 = FleetItemStatus.error ∧ spec.onError = .abort)
    ready := p.ready + 1
    awaited := p.awaited.erase index
    log := p.log ++ [.recorded index found.1 settled] }

def settle (spec : JobSpec ρ) (index : Nat) (settled : Settled ρ) (p : Pool ρ) : Pool ρ :=
  match p.job.items[index]?, spec.items[index]? with
  | some item, some source =>
    p.record spec index item settled
      (verdict p.cancelling (withTimeout source spec.itemTimeoutMs item.name settled))
  | _, _ => p

/-- `cancel`; a job that has finished is not found. -/
def cancel (p : Pool ρ) : Pool ρ :=
  if p.job.state = .running then { p with cancelling := true, log := p.log ++ [.cancel] } else p

/-- What `run` does when all workers have returned. -/
def finish (p : Pool ρ) : Pool ρ :=
  { p with job := { p.job with
      progressPct := 100
      state :=
        if p.cancelling then .cancelled
        else if p.job.failed = 0 then .done
        else if p.job.failed = p.job.total then .failed
        else .partialDone } }

inductive Action (ρ : Type*) where
  | pull
  | settle (index : Nat) (settled : Settled ρ)
  | cancel
  | finish

def step (spec : JobSpec ρ) (p : Pool ρ) : Action ρ → Pool ρ
  | .pull => pull spec p
  | .settle index settled => settle spec index settled p
  | .cancel => cancel p
  | .finish => finish p

/-- An item times out only with a time limit, and no runner throws a `CancelledError` unless the
job was cancelled. -/
def Settles (spec : JobSpec ρ) (p : Pool ρ) (index : Nat) : Settled ρ → Prop
  | .timedOut => 0 < spec.itemTimeoutMs
  | .answered answer =>
    (spec.items[index]?.any fun source => source.run answer = .cancelledError) → p.cancelling = true

instance (spec : JobSpec ρ) (p : Pool ρ) (index : Nat) :
    (settled : Settled ρ) → Decidable (Settles spec p index settled)
  | .timedOut => inferInstanceAs (Decidable (0 < spec.itemTimeoutMs))
  | .answered answer => inferInstanceAs (Decidable
    ((spec.items[index]?.any fun source => source.run answer = .cancelledError) → p.cancelling = true))

/-- What can happen next. -/
def Enabled (spec : JobSpec ρ) (p : Pool ρ) : Action ρ → Prop
  | .pull => 0 < p.ready
  | .settle index settled => index ∈ p.awaited ∧ Settles spec p index settled
  | .cancel => True
  | .finish => p.ready = 0 ∧ p.awaited = [] ∧ p.job.state = .running

instance (spec : JobSpec ρ) (p : Pool ρ) : (action : Action ρ) → Decidable (Enabled spec p action)
  | .pull => inferInstanceAs (Decidable (0 < p.ready))
  | .settle index settled =>
    inferInstanceAs (Decidable (index ∈ p.awaited ∧ Settles spec p index settled))
  | .cancel => inferInstanceAs (Decidable True)
  | .finish => inferInstanceAs (Decidable (p.ready = 0 ∧ p.awaited = [] ∧ p.job.state = .running))

/-! ### Create jobs -/

structure ExecResult where
  code : Int
  stdout : Text
  stderr : Text

/-- The parts of an accepted plan that its job uses. -/
structure DockerPlan where
  names : List Text
  pull : Bool
  concurrency : Concurrency
  onError : OnError

/-- What `docker pull`, `docker create` and `docker start` answer; an error is a call that
rejects. -/
structure CreateAnswers where
  pulled : Except Text ExecResult
  create : Except Text ExecResult
  start : Except Text ExecResult

/-- What a command throws: `(res.stderr || res.stdout).trim() || fallback` when it failed. -/
def complaint (fallback : Text) : Except Text ExecResult → Option Text
  | .error message => some message
  | .ok res =>
    let text := trim (if res.stderr = [] then res.stdout else res.stderr)
    if res.code = 0 then none else some (if text = [] then fallback else text)

/-- The runner of one name of a plan. -/
def createContainer (plan : DockerPlan) (index : Nat) (a : CreateAnswers) : Outcome :=
  let pulled := if plan.pull = true ∧ index = 0 then complaint (js "pull failed") a.pulled else none
  match pulled, complaint (js "create failed") a.create, complaint (js "start failed") a.start with
  | none, none, none => .ok
  | some message, _, _ | none, some message, _ | none, none, some message => .error message

/-- The job of a plan. -/
def createJob (plan : DockerPlan) (maxParallel itemTimeoutSec : Int) : JobSpec CreateAnswers where
  concurrency := plan.concurrency
  onError := plan.onError
  maxParallel := maxParallel
  itemTimeoutMs := max itemTimeoutSec 120 * 1000
  items := plan.names.mapIdx fun index name => ⟨name, createContainer plan index⟩

end BoredManager.Container
