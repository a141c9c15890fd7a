import BoredManager.Js.OrderedMap
import BoredManager.OpenWrt.Net

/-! The contract of the binding planner: what one reconciliation reads and what
it remembers for the next one. Clock readings are whole milliseconds. -/
namespace BoredManager.OpenWrt
open BoredManager.Js

/-- A text that JavaScript counts as true. -/
def nonEmpty (value : Option Text) : Option Text := value.filter (· ≠ [])

structure Lease where
  expires : Int
  mac : Text
  ip : Text
  host : Text
deriving DecidableEq

structure IpRule where
  pref : Nat
  source : Text
  table : Nat
deriving DecidableEq

structure PlannerInstance where
  id : Text
  running : Bool
  sticky : Bool
  remap : Bool
deriving DecidableEq

structure PlannerWan where
  name : Text
  table : Option Nat
  up : Bool
  pending : Bool
  ipv4 : Option Text
  uptimeSec : Int
  errorCode : Option Text
deriving DecidableEq

structure PlannerPolicy where
  rulePrefBase : Nat
  catchAllPrefBase : Nat
  ruleChunkLines : Int
  wanErrorGraceSec : Int
  wanWarnUptimeSec : Int
  releaseGraceSec : Int
  maxEvents : Int
deriving DecidableEq

structure StickyChoice where
  mac : Text
  wan : Text
  lastSeenAt : Int
deriving DecidableEq

structure DeviceMemory where
  mac : Text
  ip : Text
  host : Text
  lastSeenAt : Int
  assignedAt : Int
  wan : Option Text
deriving DecidableEq

structure WaitingMemory where
  mac : Text
  enqueuedAt : Int
  order : Int
deriving DecidableEq

structure WanErrorMemory where
  wan : Text
  since : Int
deriving DecidableEq

/-- A rule as the planner compares it; the source joins the three with `|`. -/
structure RuleChange where
  pref : Nat
  ip : Text
  table : Nat
deriving DecidableEq

structure OrphanMemory where
  key : RuleChange
  ip : Text
  table : Nat
  pref : Nat
  firstMissingAt : Int
deriving DecidableEq

structure ForcedReassign where
  mac : Text
  avoidWan : Option Text
deriving DecidableEq

structure PlannerMemory where
  devices : List DeviceMemory
  waiting : List WaitingMemory
  wanErrors : List WanErrorMemory
  orphans : List OrphanMemory
  heldMacs : List Text
  forceReassign : List ForcedReassign
  nextOrder : Int
deriving DecidableEq

structure ReconcileInput where
  /-- `none` is a clock that is not finite. -/
  clock : Option Int
  instance_ : PlannerInstance
  lanCidr : Text
  leases : List Lease
  rules : List IpRule
  wans : List PlannerWan
  tableToWan : List (Nat × Text)
  sticky : List StickyChoice
  memory : Option PlannerMemory
  policy : PlannerPolicy
  randomSeed : Option Int
  rebooted : Bool
deriving DecidableEq

def ReconcileInput.now (input : ReconcileInput) : Int := input.clock.getD 0

def emptyPlannerMemory : PlannerMemory := {
  devices := [], waiting := [], wanErrors := [], orphans := [], heldMacs := []
  forceReassign := [], nextOrder := 1 }

def clonePlannerMemory (memory : Option PlannerMemory) : PlannerMemory :=
  let source := memory.getD emptyPlannerMemory
  { source with nextOrder := max 1 (if source.nextOrder = 0 then 1 else source.nextOrder) }

def ReconcileInput.oldMemory (input : ReconcileInput) : PlannerMemory :=
  clonePlannerMemory input.memory

def ReconcileInput.releaseGraceMs (input : ReconcileInput) : Int :=
  max 0 input.policy.releaseGraceSec * 1000

def ReconcileInput.errorGraceMs (input : ReconcileInput) : Int :=
  max 0 input.policy.wanErrorGraceSec * 1000

/-- The preferences that the module manages. -/
def PlannerPolicy.manages (policy : PlannerPolicy) (pref : Nat) : Bool :=
  decide (policy.rulePrefBase ≤ pref) && decide (pref < policy.catchAllPrefBase)

inductive WanState where
  | dialing
  | error
  | warning
  | available
deriving DecidableEq

def WanState.text : WanState → Text
  | .dialing => js "dialing"
  | .error => js "error"
  | .warning => js "warning"
  | .available => js "available"

def wanUsable (wan : PlannerWan) (warnUptimeSec : Int) : Bool :=
  wan.table.isSome && wan.up && !wan.pending && (nonEmpty wan.ipv4).isSome &&
    (nonEmpty wan.errorCode).isNone && decide (warnUptimeSec ≤ wan.uptimeSec)

def wanState (wan : PlannerWan) (warnUptimeSec : Int) : WanState :=
  if wan.pending then .dialing
  else if !wan.up || (nonEmpty wan.errorCode).isSome then .error
  else if (nonEmpty wan.ipv4).isNone || wan.table.isNone || wan.uptimeSec < warnUptimeSec then
    .warning
  else .available

def maxSafeInteger : Int := 9007199254740991

def leaseRank (lease : Lease) : Int := if lease.expires = 0 then maxSafeInteger else lease.expires

def activeLease (lease : Lease) (now : Int) : Bool :=
  decide (lease.expires = 0) || decide (now < lease.expires * 1000)

/-- The two readings of a WAN's health agree: a usable WAN is an available one. -/
theorem wanUsable_iff {wan : PlannerWan} {warnUptimeSec : Int} :
    wanUsable wan warnUptimeSec = true ↔ wanState wan warnUptimeSec = .available := by
  simp only [wanUsable, wanState]
  cases wan.pending <;> cases wan.up <;> cases nonEmpty wan.errorCode <;>
    cases nonEmpty wan.ipv4 <;> cases wan.table <;> simp

theorem table_of_wanUsable {wan : PlannerWan} {warnUptimeSec : Int}
    (h : wanUsable wan warnUptimeSec = true) : ∃ table, wan.table = some table := by
  simp only [wanUsable, Bool.and_eq_true] at h
  exact Option.isSome_iff_exists.mp h.1.1.1.1.1

theorem nonEmpty_eq_some {value : Option Text} {text : Text} :
    nonEmpty value = some text ↔ value = some text ∧ text ≠ [] := by
  simp [nonEmpty, Option.filter_eq_some_iff]

end BoredManager.OpenWrt
