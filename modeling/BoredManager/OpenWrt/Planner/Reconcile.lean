import BoredManager.OpenWrt.Planner.Assignment

/-! The rule script of a reconciliation, its report and what it remembers:
`planBindingReconciliation`, and the rule list after the script in memory. -/
namespace BoredManager.OpenWrt
open BoredManager.Js

/-- One line of the script. -/
inductive RuleCommand where
  | del (pref : Nat)
  | add (ip : Text) (table pref : Nat)
deriving DecidableEq

def RuleCommand.text : RuleCommand → Text
  | .del pref => js "ip -4 rule del pref " ++ decimal pref ++ js " 2>/dev/null || true"
  | .add ip table pref =>
    js "ip -4 rule add from " ++ hostSource ip ++ js " lookup " ++ decimal table ++
      js " pref " ++ decimal pref

structure RuleDiff where
  delete : List RuleChange
  add : List RuleChange
  deleteLines : List Text
  addLines : List Text
  lines : List Text
  chunks : List (List Text)
deriving DecidableEq

def RuleDiff.empty : RuleDiff := ⟨[], [], [], [], [], []⟩

def RuleChange.deleteCommand (change : RuleChange) : RuleCommand := .del change.pref

def RuleChange.addCommand (change : RuleChange) : RuleCommand :=
  .add change.ip change.table change.pref

def chunkLinesFrom (size : Nat) : Nat → List Text → List (List Text)
  | 0, _ => []
  | _, [] => []
  | fuel + 1, lines => lines.take size :: chunkLinesFrom size fuel (lines.drop size)

/-- Split generated `ip rule` lines without changing their order. -/
def chunkRuleCommands (lines : List Text) (sizeRaw : Int) : List (List Text) :=
  chunkLinesFrom (max 1 sizeRaw).toNat lines.length lines

def RuleDiff.ofChanges (delete add : List RuleChange) (chunkSize : Int) : RuleDiff :=
  let deleteLines := delete.map fun change => change.deleteCommand.text
  let addLines := add.map fun change => change.addCommand.text
  let lines := deleteLines ++ addLines
  { delete, add, deleteLines, addLines, lines, chunks := chunkRuleCommands lines chunkSize }

/-- The rules that stay, one removal for each deleted change. -/
def dropRemovals : List RuleChange → List IpRule → List IpRule
  | _, [] => []
  | removals, rule :: rules =>
    match ruleIp rule.source with
    | some ip =>
      let signature : RuleChange := ⟨rule.pref, ip, rule.table⟩
      if signature ∈ removals then dropRemovals (removals.erase signature) rules
      else rule :: dropRemovals removals rules
    | none => rule :: dropRemovals removals rules

def RuleChange.rule (change : RuleChange) : IpRule :=
  ⟨change.pref, hostSource change.ip, change.table⟩

def applyRuleDiffInMemory (rules : List IpRule) (diff : RuleDiff) : List IpRule :=
  dropRemovals diff.delete rules ++ diff.add.map RuleChange.rule

structure PlannerEvent where
  t : Int
  kind : Text
  text : Text
deriving DecidableEq

structure WanSummary where
  total : Nat
  available : Nat
  bound : Nat
  error : Nat
  warning : Nat
  dialing : Nat
deriving DecidableEq

structure DeviceSummary where
  total : Nat
  bound : Nat
  waiting : Nat
deriving DecidableEq

structure AssignmentRow where
  key : Text
  instanceId : Text
  host : Text
  mac : Text
  ip : Text
  wan : Text
  wanIp : Text
  wanStatus : Text
  sinceLabel : Text
deriving DecidableEq

structure WaitingRow where
  key : Text
  instanceId : Text
  mac : Text
  host : Text
  ip : Text
  position : Nat
  waitingSince : Int
  waitingFor : Text
  held : Bool
  heldLabel : Text
deriving DecidableEq

structure ActualAssignment where
  pref : Nat
  ip : Text
  table : Nat
  wan : Option Text
  mac : Option Text
deriving DecidableEq

structure PlannerResult where
  actual : List ActualAssignment
  desired : List Planner.DesiredAssignment
  ruleDiff : RuleDiff
  memory : PlannerMemory
  stickyUpdates : List StickyChoice
  events : List PlannerEvent
  assignments : List AssignmentRow
  waiting : List WaitingRow
  wan : WanSummary
  devices : DeviceSummary
deriving DecidableEq

def durationLabel (ms : Int) : Text :=
  let seconds := (ms / 1000).toNat
  let minutes := seconds / 60
  let hours := minutes / 60
  if seconds < 60 then decimal seconds ++ js "s"
  else if minutes < 60 then decimal minutes ++ js "m " ++ decimal (seconds % 60) ++ js "s"
  else if hours < 24 then decimal hours ++ js "h " ++ decimal (minutes % 60) ++ js "m"
  else decimal (hours / 24) ++ js "d " ++ decimal (hours % 24) ++ js "h"

namespace Planner
variable (input : ReconcileInput) (subnet : ParsedSubnet)

/-! ### The script -/

/-- Compare whole preference groups. -/
def groupChanged (pref : Nat) : Bool :=
  let oldGroup := (actual input subnet).filter fun entry => entry.pref == pref
  let newGroup := (desired input subnet).filter fun entry => entry.pref == pref
  !(oldGroup.map WorkingActual.key).isPerm (newGroup.map DesiredAssignment.key)

def changedPrefs : List Nat :=
  (((actual input subnet).map WorkingActual.pref ++
      (desired input subnet).map DesiredAssignment.pref).eraseDups.insertionSort (· ≤ ·)).filter
    (groupChanged input subnet)

def deleteChanges : List RuleChange :=
  (changedPrefs input subnet).flatMap fun pref =>
    ((actual input subnet).filter fun entry => entry.pref == pref).map WorkingActual.key

def addChanges : List RuleChange :=
  (changedPrefs input subnet).flatMap fun pref =>
    ((desired input subnet).filter fun entry => entry.pref == pref).map DesiredAssignment.key

def ruleDiff : RuleDiff :=
  .ofChanges (deleteChanges input subnet) (addChanges input subnet) input.policy.ruleChunkLines

/-! ### What is remembered -/

def desiredByMac : OrderedMap Text DesiredAssignment :=
  .ofList ((desired input subnet).filterMap fun entry => entry.mac.map fun mac => (mac, entry))

/-- The device of a leased client. -/
def leasedDevice (mac : Text) (current : CurrentLease) : DeviceMemory :=
  let previous := (previousDevices input).get? mac
  let assignment := (desiredByMac input subnet).get? mac
  { mac
    ip := current.lease.ip
    host := if current.lease.host ≠ [] then current.lease.host
      else (previous.map DeviceMemory.host).getD []
    lastSeenAt := input.now
    assignedAt := match assignment with
      | none => (previous.map DeviceMemory.assignedAt).getD input.now
      | some assignment => ((previous.filter fun device => device.wan == some assignment.wan).map
          DeviceMemory.assignedAt).getD assignment.assignedAt
    wan := assignment.map DesiredAssignment.wan }

/-- A client whose lease is gone is remembered within its grace, if it has a WAN. -/
def graceDevice (mac : Text) (previous : DeviceMemory) : Option DeviceMemory :=
  if (currentLeases input subnet).has mac then none
  else
    match (desiredByMac input subnet).get? mac with
    | none => none
    | some assignment =>
      if input.now - previous.lastSeenAt < input.releaseGraceMs then
        some { previous with
          assignedAt := if previous.wan = some assignment.wan then previous.assignedAt
            else assignment.assignedAt
          wan := some assignment.wan }
      else none

def nextDevices : List DeviceMemory :=
  (currentInOrder input subnet).map (fun e => leasedDevice input subnet e.1 e.2) ++
    (previousDevices input).entries.filterMap fun e => graceDevice input subnet e.1 e.2

def nextWaiting : List WaitingMemory :=
  ((queuePass input subnet).1.values.filter fun entry =>
      (currentLeases input subnet).has entry.mac &&
        !(desiredByMac input subnet).has entry.mac).insertionSort
    fun a b => waitingBefore a b = true

def nextMemory : PlannerMemory := {
  devices := nextDevices input subnet
  waiting := nextWaiting input subnet
  wanErrors := nextErrors input
  orphans := (orphanPass input subnet).orphans
  heldMacs := (held input).filter (currentLeases input subnet).has
  forceReassign := []
  nextOrder := (queuePass input subnet).2 }

def stickyUpdates : List StickyChoice :=
  if input.instance_.sticky then
    (desired input subnet).filterMap fun entry => entry.mac.map fun mac => ⟨mac, entry.wan, input.now⟩
  else []

/-! ### The report -/

def rowKey (mac : Text) : Text := input.instance_.id ++ js "|" ++ mac

def waitingRow (position : Nat) (entry : WaitingMemory) : WaitingRow :=
  let lease := (currentLeases input subnet).get? entry.mac
  let previous := (previousDevices input).get? entry.mac
  let isHeld := decide (entry.mac ∈ held input)
  { key := rowKey input entry.mac
    instanceId := input.instance_.id
    mac := entry.mac
    host := ((lease.map fun current => current.lease.host).or
      (previous.map DeviceMemory.host)).getD []
    ip := ((lease.map fun current => current.lease.ip).or (previous.map DeviceMemory.ip)).getD []
    position := position + 1
    waitingSince := entry.enqueuedAt
    waitingFor := durationLabel (input.now - entry.enqueuedAt)
    held := isHeld
    heldLabel := if isHeld then js "Held" else js "Waiting" }

def waitingRows : List WaitingRow :=
  (nextWaiting input subnet).zipIdx.map fun e => waitingRow input subnet e.2 e.1

/-- `new Map(nextDevices.map((device) => [device.mac, device]))` -/
def nextDeviceByMac : OrderedMap Text DeviceMemory :=
  .ofList ((nextDevices input subnet).map fun device => (device.mac, device))

def assignmentRow (entry : DesiredAssignment) (mac : Text) : AssignmentRow :=
  let device := (nextDeviceByMac input subnet).get? mac
  let wan := (poolByName input).get? entry.wan
  { key := rowKey input mac
    instanceId := input.instance_.id
    host := (device.map DeviceMemory.host).getD []
    mac
    ip := entry.ip
    wan := entry.wan
    wanIp := (wan.bind PlannerWan.ipv4).getD []
    wanStatus := match wan.map fun wan => wanState wan input.policy.wanWarnUptimeSec with
      | some .available => js "bound"
      | some state => state.text
      | none => js "missing"
    sinceLabel := durationLabel (input.now - entry.assignedAt) }

def assignmentRows : List AssignmentRow :=
  (desired input subnet).filterMap fun entry => entry.mac.map (assignmentRow input subnet entry)

structure EventLog where
  keys : List Text
  events : List PlannerEvent

/-- One event for each key, up to the limit. -/
def pushEvent (log : EventLog) (kind text key : Text) : EventLog :=
  if key ∈ log.keys ∨ max 1 input.policy.maxEvents ≤ log.events.length then log
  else ⟨key :: log.keys, log.events ++ [⟨input.now, kind, text⟩]⟩

def clientText (mac ip : Text) : Text := mac ++ js " (" ++ ip ++ js ")"

def boundEvents (log : EventLog) (mac : Text) (current : CurrentLease)
    (assignment : DesiredAssignment) : EventLog :=
  let previous := (previousDevices input).get? mac
  let ip := current.lease.ip
  let oldWan := nonEmpty ((previous.bind DeviceMemory.wan).or
    ((observedWanByMac input subnet).get? mac))
  let log := match oldWan with
    | some oldWan =>
      if oldWan ≠ assignment.wan then
        pushEvent input log (js "remapped")
          (clientText mac ip ++ js " moved from " ++ oldWan ++ js " to " ++ assignment.wan)
          (js "remap:" ++ mac ++ js ":" ++ assignment.wan)
      else log
    | none =>
      if ((preservePass input subnet).actualByMac.get? mac).bind WorkingActual.wan ≠
          some assignment.wan then
        pushEvent input log (js "assigned")
          (clientText mac ip ++ js " assigned to " ++ assignment.wan)
          (js "assign:" ++ mac ++ js ":" ++ assignment.wan)
      else log
  match previous with
  | some device =>
    if device.wan = some assignment.wan ∧ device.ip ≠ ip then
      pushEvent input log (js "ip-change")
        (mac ++ js " kept " ++ assignment.wan ++ js " after IP changed from " ++ device.ip ++
          js " to " ++ ip)
        (js "ip:" ++ mac ++ js ":" ++ ip)
    else log
  | none => log

def unboundEvents (log : EventLog) (mac : Text) (current : CurrentLease) : EventLog :=
  let client := clientText mac current.lease.ip
  let log := match nonEmpty (((previousDevices input).get? mac).bind DeviceMemory.wan) with
    | some wan =>
      pushEvent input log (if mac ∈ held input then js "unassigned" else js "waiting")
        (client ++ js " released " ++ wan ++ js " and is waiting") (js "release:" ++ mac)
    | none => log
  if mac ∈ input.oldMemory.waiting.filterMap fun entry => normalizedMac entry.mac then log
  else pushEvent input log (js "waiting") (client ++ js " entered the WAN queue")
    (js "wait:" ++ mac)

def leaseEvents (log : EventLog) (e : Text × CurrentLease) : EventLog :=
  match (desiredByMac input subnet).get? e.1 with
  | some assignment => boundEvents input subnet log e.1 e.2 assignment
  | none => unboundEvents input log e.1 e.2

def releaseEvents (log : EventLog) (e : Text × DeviceMemory) : EventLog :=
  match nonEmpty e.2.wan with
  | none => log
  | some wan =>
    if (currentLeases input subnet).has e.1 ∨
        input.now - e.2.lastSeenAt < input.releaseGraceMs then log
    else pushEvent input log (js "released")
      (e.1 ++ js " lease grace expired; " ++ wan ++ js " returned to the pool")
      (js "expired:" ++ e.1)

def events : List PlannerEvent :=
  if input.instance_.running then
    let log := (currentLeases input subnet).entries.foldl (leaseEvents input subnet) ⟨[], []⟩
    ((previousDevices input).entries.foldl (releaseEvents input subnet) log).events
  else []

def wanSummary : WanSummary :=
  let usedWanNames := (desired input subnet).map DesiredAssignment.wan
  let count := fun (state : WanState) (used : Bool → Bool) => input.wans.countP fun wan =>
    wanState wan input.policy.wanWarnUptimeSec = state && used (decide (wan.name ∈ usedWanNames))
  { total := input.wans.length
    available := count .available not
    bound := count .available id
    error := count .error fun _ => true
    warning := count .warning fun _ => true
    dialing := count .dialing fun _ => true }

end Planner

/-- The result for a LAN whose address is not known. -/
def unplanned (input : ReconcileInput) : PlannerResult := {
  actual := [], desired := [], ruleDiff := .empty, memory := input.oldMemory, stickyUpdates := []
  events := [], assignments := [], waiting := []
  wan := ⟨input.wans.length, 0, 0, 0, input.wans.length, 0⟩, devices := ⟨0, 0, 0⟩ }

open Planner in
def planOn (input : ReconcileInput) (subnet : ParsedSubnet) : PlannerResult := {
  actual := (actual input subnet).map fun entry =>
    ⟨entry.pref, entry.ip, entry.table, entry.wan, entry.mac⟩
  desired := desired input subnet
  ruleDiff := ruleDiff input subnet
  memory := nextMemory input subnet
  stickyUpdates := stickyUpdates input subnet
  events := events input subnet
  assignments := assignmentRows input subnet
  waiting := waitingRows input subnet
  wan := wanSummary input subnet
  devices := {
    total := (nextDevices input subnet).length
    bound := (assignmentRows input subnet).length
    waiting := (waitingRows input subnet).length } }

/-- Pure reconciliation planner. -/
def planBindingReconciliation (input : ReconcileInput) : PlannerResult :=
  match parseCidr input.lanCidr with
  | none => unplanned input
  | some subnet => planOn input subnet

theorem planBinding_of_parsed {input : ReconcileInput} {subnet : ParsedSubnet}
    (h : parseCidr input.lanCidr = some subnet) :
    planBindingReconciliation input = planOn input subnet := by
  rw [planBindingReconciliation, h]

theorem planBinding_of_unparsed {input : ReconcileInput} (h : parseCidr input.lanCidr = none) :
    planBindingReconciliation input = unplanned input := by
  rw [planBindingReconciliation, h]

section
variable (input : ReconcileInput) (subnet : ParsedSubnet)

@[simp] theorem planOn_desired : (planOn input subnet).desired = Planner.desired input subnet := rfl

@[simp] theorem planOn_ruleDiff : (planOn input subnet).ruleDiff = Planner.ruleDiff input subnet :=
  rfl

@[simp] theorem planOn_memory : (planOn input subnet).memory = Planner.nextMemory input subnet := rfl

@[simp] theorem planOn_stickyUpdates :
    (planOn input subnet).stickyUpdates = Planner.stickyUpdates input subnet := rfl

end

end BoredManager.OpenWrt
