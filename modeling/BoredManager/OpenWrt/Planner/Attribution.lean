import BoredManager.OpenWrt.Planner.Types
import Mathlib.Data.List.Sort

/-! How a reconciliation reads the router: the leases and the remembered devices,
the table map, and the client of every managed rule. -/
namespace BoredManager.OpenWrt.Planner
open BoredManager.Js

structure CurrentLease where
  lease : Lease
  index : Nat
deriving DecidableEq

/-- A managed rule with the WAN of its table and the client that it serves. -/
structure WorkingActual where
  pref : Nat
  ip : Text
  table : Nat
  wan : Option Text
  mac : Option Text
  exactLease : Bool
deriving DecidableEq

def WorkingActual.key (entry : WorkingActual) : RuleChange := ⟨entry.pref, entry.ip, entry.table⟩

variable (input : ReconcileInput) (subnet : ParsedSubnet)

def previousDevices : OrderedMap Text DeviceMemory :=
  .ofList (input.oldMemory.devices.filterMap fun device =>
    (normalizedMac device.mac).map fun mac => (mac, device))

def previousIpToMac : OrderedMap Text Text :=
  .ofList ((previousDevices input).entries.map fun e => (e.2.ip, e.1))

/-- A row of the lease file replaces the client's earlier one if it expires later,
or at the same time. -/
def leaseStep (now : Int) (leases : OrderedMap Text CurrentLease) (row : Lease × Nat) :
    OrderedMap Text CurrentLease :=
  let (lease, index) := row
  match normalizedMac lease.mac with
  | none => leases
  | some mac =>
    if subnetContains subnet lease.ip && activeLease lease now then
      let current : CurrentLease := ⟨{ lease with mac }, index⟩
      match leases.get? mac with
      | none => leases.set mac current
      | some old =>
        if leaseRank old.lease < leaseRank lease ∨
            (leaseRank lease = leaseRank old.lease ∧ old.index < index) then
          leases.set mac current
        else leases
    else leases

def currentLeases : OrderedMap Text CurrentLease :=
  input.leases.zipIdx.foldl (leaseStep subnet input.now) .empty

def leasesByIp : OrderedMap Text Text :=
  .ofList ((currentLeases input subnet).entries.map fun e => (e.2.lease.ip, e.1))

/-- The `workingDevices` map, which is read by key alone: a leased client, or a
remembered one within its release grace. -/
def workingDevice (mac : Text) : Option DeviceMemory :=
  let previous := (previousDevices input).get? mac
  match (currentLeases input subnet).get? mac with
  | some current => some {
      mac
      ip := current.lease.ip
      host := if current.lease.host ≠ [] then current.lease.host
        else (previous.map DeviceMemory.host).getD []
      lastSeenAt := input.now
      assignedAt := (previous.map DeviceMemory.assignedAt).getD input.now
      wan := nonEmpty (previous.bind DeviceMemory.wan) }
  | none => previous.filter fun device =>
      (nonEmpty device.wan).isSome &&
        decide (input.now - device.lastSeenAt < input.releaseGraceMs)

def normalizeTableMap (source : List (Nat × Text)) : OrderedMap Nat Text :=
  .ofList (source.filter fun e =>
    decide (0 < e.1) && decide ((e.1 : Int) ≤ maxSafeInteger) && decide (e.2 ≠ []))

def addWanTable (tables : OrderedMap Nat Text) (wan : PlannerWan) : OrderedMap Nat Text :=
  match wan.table with
  | some table => if tables.has table then tables else tables.set table wan.name
  | none => tables

def tableToWan : OrderedMap Nat Text :=
  input.wans.foldl addWanTable (normalizeTableMap input.tableToWan)

def poolByName : OrderedMap Text PlannerWan :=
  .ofList (input.wans.map fun wan => (wan.name, wan))

/-- A WAN that two clients chose belongs to neither. -/
def stickyWanStep (leased : Text → Bool) (state : OrderedMap Text Text × List Text)
    (choice : StickyChoice) : OrderedMap Text Text × List Text :=
  let (macByWan, ambiguous) := state
  match normalizedMac choice.mac with
  | none => state
  | some mac =>
    if leased mac && choice.wan != [] then
      let old := macByWan.get? choice.wan
      if old.isSome && old != some mac then (macByWan.erase choice.wan, choice.wan :: ambiguous)
      else if choice.wan ∈ ambiguous then state
      else (macByWan.set choice.wan mac, ambiguous)
    else state

def stickyMacByWan : OrderedMap Text Text :=
  (input.sticky.foldl (stickyWanStep (currentLeases input subnet).has) (.empty, [])).1

/-- The client of a source address: by its lease, else by what is remembered, else
by the sticky choice of the rule's WAN. -/
def attributedMac (ip : Text) (mappedWan : Option Text) : Option Text :=
  ((leasesByIp input subnet).get? ip).or (((previousIpToMac input).get? ip).or
    ((nonEmpty mappedWan).bind (stickyMacByWan input subnet).get?))

/-- Rules outside the managed range, and those that belong neither to this LAN, nor
to a known client, nor to a WAN of the pool, are not the planner's. -/
def attributeRule (rule : IpRule) : Option WorkingActual :=
  if input.policy.manages rule.pref then
    match ruleIp rule.source with
    | none => none
    | some ip =>
      let mappedWan := (tableToWan input).get? rule.table
      let mac := attributedMac input subnet ip mappedWan
      if !subnetContains subnet ip && mac.isNone && !mappedWan.any (poolByName input).has then none
      else some {
        pref := rule.pref, ip, table := rule.table, wan := mappedWan, mac
        exactLease := mac.any fun mac =>
          ((currentLeases input subnet).get? mac).any fun current => current.lease.ip == ip }
  else none

/-- The order of `actual.sort`. -/
def actualBefore (a b : WorkingActual) : Bool :=
  if a.exactLease != b.exactLease then a.exactLease
  else if a.pref ≠ b.pref then decide (a.pref < b.pref)
  else textLe a.ip b.ip

def actual : List WorkingActual :=
  (input.rules.filterMap (attributeRule input subnet)).insertionSort
    fun a b => actualBefore a b = true

def observedWanStep (observed : OrderedMap Text Text) (entry : WorkingActual) :
    OrderedMap Text Text :=
  match entry.mac, nonEmpty entry.wan with
  | some mac, some wan => if observed.has mac then observed else observed.set mac wan
  | _, _ => observed

def observedWanByMac : OrderedMap Text Text :=
  (actual input subnet).foldl observedWanStep .empty

def held : List Text := (input.oldMemory.heldMacs.filterMap normalizedMac).eraseDups

def forced : OrderedMap Text ForcedReassign :=
  .ofList (input.oldMemory.forceReassign.filterMap fun entry =>
    (normalizedMac entry.mac).map fun mac => (mac, ⟨mac, nonEmpty entry.avoidWan⟩))

def stickyChoiceStep (choices : OrderedMap Text StickyChoice) (choice : StickyChoice) :
    OrderedMap Text StickyChoice :=
  match normalizedMac choice.mac with
  | some mac => if choices.has mac then choices else choices.set mac { choice with mac }
  | none => choices

def stickyByMac : OrderedMap Text StickyChoice := input.sticky.foldl stickyChoiceStep .empty

variable {input subnet}

/-! ### One rule -/

theorem attributeRule_eq_some {rule : IpRule} {entry : WorkingActual}
    (h : attributeRule input subnet rule = some entry) :
    input.policy.manages rule.pref = true ∧ ruleIp rule.source = some entry.ip ∧
      entry.pref = rule.pref ∧ entry.table = rule.table ∧
      entry.wan = (tableToWan input).get? rule.table ∧
      entry.mac = attributedMac input subnet entry.ip entry.wan := by
  simp only [attributeRule] at h
  split at h
  · rename_i hm
    split at h
    · cases h
    · rename_i ip hip
      split at h
      · cases h
      · cases h
        exact ⟨hm, hip, rfl, rfl, rfl, rfl⟩
  · cases h

/-- Whether a rule is the planner's depends on its preference, address and table. -/
theorem attributeRule_congr {rule other : IpRule} (hp : other.pref = rule.pref)
    (hi : ruleIp other.source = ruleIp rule.source) (ht : other.table = rule.table) :
    attributeRule input subnet other = attributeRule input subnet rule := by
  simp only [attributeRule, hp, hi, ht]

theorem mem_actual {entry : WorkingActual} :
    entry ∈ actual input subnet ↔ ∃ rule ∈ input.rules, attributeRule input subnet rule = some entry := by
  simp [actual, List.mem_insertionSort, List.mem_filterMap]

theorem key_of_attributeRule {rule : IpRule} {entry : WorkingActual}
    (h : attributeRule input subnet rule = some entry) :
    ∃ ip, ruleIp rule.source = some ip ∧ entry.key = ⟨rule.pref, ip, rule.table⟩ := by
  obtain ⟨-, hip, hp, ht, -, -⟩ := attributeRule_eq_some h
  exact ⟨_, hip, by rw [WorkingActual.key, hp, ht]⟩

end BoredManager.OpenWrt.Planner
