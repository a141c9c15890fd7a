import BoredManager.OpenWrt.Planner.Ledger
import Mathlib.Data.List.Pairwise

/-! One-to-one binding: the desired assignments of a reconciliation share no
preference, no WAN, no table and no client. -/
namespace BoredManager.OpenWrt.Planner
open BoredManager.Js BoredManager.Alloc

variable {input : ReconcileInput} {subnet : ParsedSubnet}

attribute [local grind] keepPrefs takePrefs

/-! ### Preferences -/

def WorkingAssignment.withoutPref (assignment : WorkingAssignment) : WorkingAssignment :=
  { assignment with pref := none }

/-- The preferences that a list of assignments holds. -/
def heldPrefs (l : List WorkingAssignment) : List Nat := l.filterMap WorkingAssignment.pref

@[simp] theorem heldPrefs_nil : heldPrefs [] = [] := rfl

theorem heldPrefs_cons_none {a : WorkingAssignment} (h : a.pref = none)
    (l : List WorkingAssignment) : heldPrefs (a :: l) = heldPrefs l := List.filterMap_cons_none h

theorem heldPrefs_cons_some {a : WorkingAssignment} {pref : Nat} (h : a.pref = some pref)
    (l : List WorkingAssignment) : heldPrefs (a :: l) = pref :: heldPrefs l :=
  List.filterMap_cons_some h

theorem keepPrefs_withoutPref (available : List Nat) (l : List WorkingAssignment) :
    (keepPrefs available l).2.map WorkingAssignment.withoutPref =
      l.map WorkingAssignment.withoutPref := by
  induction l generalizing available with
  | nil => rfl
  | cons a l ih =>
    simp only [keepPrefs]
    split
    · simp only [List.map_cons, ih]
    · split
      · simp only [List.map_cons, ih]
      · simp only [List.map_cons, ih]
        rfl

theorem keepPrefs_left_subset (available : List Nat) (l : List WorkingAssignment) :
    (keepPrefs available l).1 ⊆ available := by
  induction l generalizing available with
  | nil => exact List.Subset.refl _
  | cons a l ih =>
    simp only [keepPrefs]
    split
    · exact ih _
    · split
      · exact fun p hp => List.mem_of_mem_filter (ih _ hp)
      · exact ih _

theorem keepPrefs_held_subset (available : List Nat) (l : List WorkingAssignment) :
    heldPrefs (keepPrefs available l).2 ⊆ available := by
  induction l generalizing available with
  | nil => exact List.nil_subset _
  | cons a l ih =>
    simp only [keepPrefs]
    split
    · rename_i ha
      rw [heldPrefs_cons_none ha]
      exact ih _
    · rename_i pref ha
      split
      · rename_i hmem
        rw [heldPrefs_cons_some ha]
        refine List.cons_subset.mpr ⟨hmem, fun p hp => ?_⟩
        exact List.mem_of_mem_filter (ih _ hp)
      · rw [heldPrefs_cons_none rfl]
        exact ih _

theorem keepPrefs_taken {available before : List Nat} (l : List WorkingAssignment)
    (h : Taken available before) :
    Taken (keepPrefs available l).1 (before ++ heldPrefs (keepPrefs available l).2) := by
  induction l generalizing available before with
  | nil =>
    rw [keepPrefs, heldPrefs_nil, List.append_nil]
    exact h
  | cons a l ih =>
    simp only [keepPrefs]
    split
    · rename_i ha
      rw [heldPrefs_cons_none ha]
      exact ih h
    · rename_i pref ha
      split
      · rename_i hmem
        rw [heldPrefs_cons_some ha, List.append_cons]
        have h' : Taken available (before ++ []) := by rwa [List.append_nil]
        exact ih (h'.take hmem)
      · rw [heldPrefs_cons_none rfl]
        exact ih h

theorem takePref_some {policy : PlannerPolicy} {search search' : PrefSearch} {pref : Nat}
    (h : takePref policy search = (some pref, search')) :
    pref ∈ search.available ∧ search'.available = search.available.filter (· ≠ pref) := by
  simp only [takePref] at h
  split at h
  · rename_i p hp
    cases h
    have hmem := List.find?_some hp
    exact ⟨by simpa using hmem, rfl⟩
  · cases h

theorem takePref_none {policy : PlannerPolicy} {search search' : PrefSearch}
    (h : takePref policy search = (none, search')) :
    search'.available = search.available := by
  simp only [takePref] at h
  split at h <;> cases h
  rfl

theorem takePrefs_withoutPref (policy : PlannerPolicy) (search : PrefSearch)
    (l : List WorkingAssignment) :
    (takePrefs policy search l).2.map WorkingAssignment.withoutPref =
      l.map WorkingAssignment.withoutPref := by
  induction l generalizing search with
  | nil => rfl
  | cons a l ih =>
    simp only [takePrefs]
    split
    · simp only [List.map_cons, ih]
    · simp only [List.map_cons, ih]
      rfl

theorem takePrefs_left_subset (policy : PlannerPolicy) (search : PrefSearch)
    (l : List WorkingAssignment) :
    (takePrefs policy search l).1.available ⊆ search.available := by
  induction l generalizing search with
  | nil => exact List.Subset.refl _
  | cons a l ih =>
    simp only [takePrefs]
    split
    · exact ih _
    · refine List.Subset.trans (ih _) ?_
      cases ht : takePref policy search with
      | mk pref search' =>
        cases pref with
        | none => exact (takePref_none ht) ▸ List.Subset.refl _
        | some pref =>
          rw [(takePref_some ht).2]
          exact fun p hp => List.mem_of_mem_filter hp

theorem takePrefs_held_subset (policy : PlannerPolicy) (search : PrefSearch)
    (l : List WorkingAssignment) :
    heldPrefs (takePrefs policy search l).2 ⊆ heldPrefs l ++ search.available := by
  induction l generalizing search with
  | nil => exact List.nil_subset _
  | cons a l ih =>
    simp only [takePrefs]
    split
    · rename_i pref ha
      rw [heldPrefs_cons_some ha, heldPrefs_cons_some ha]
      exact List.cons_subset_cons _ (ih _)
    · rename_i ha
      rw [heldPrefs_cons_none ha]
      cases ht : takePref policy search with
      | mk pref search' =>
        cases pref with
        | none =>
          rw [heldPrefs_cons_none rfl, ← takePref_none ht]
          exact ih _
        | some pref =>
          obtain ⟨hmem, hav⟩ := takePref_some ht
          rw [heldPrefs_cons_some rfl]
          refine List.cons_subset.mpr ⟨List.mem_append_right _ hmem, fun p hp => ?_⟩
          rcases List.mem_append.mp (ih _ hp) with hp | hp
          · exact List.mem_append_left _ hp
          · rw [hav] at hp
            exact List.mem_append_right _ (List.mem_of_mem_filter hp)

theorem takePrefs_taken {policy : PlannerPolicy} {search : PrefSearch} {before : List Nat}
    (l : List WorkingAssignment) (h : Taken search.available (before ++ heldPrefs l)) :
    Taken (takePrefs policy search l).1.available
      (before ++ heldPrefs (takePrefs policy search l).2) := by
  induction l generalizing search before with
  | nil => exact h
  | cons a l ih =>
    simp only [takePrefs]
    split
    · rename_i pref ha
      rw [heldPrefs_cons_some ha, List.append_cons] at h ⊢
      exact ih h
    · rename_i ha
      rw [heldPrefs_cons_none ha] at h
      cases ht : takePref policy search with
      | mk pref search' =>
        cases pref with
        | none =>
          rw [heldPrefs_cons_none rfl]
          exact ih ((takePref_none ht) ▸ h)
        | some pref =>
          obtain ⟨hmem, hav⟩ := takePref_some ht
          rw [heldPrefs_cons_some rfl, List.append_cons]
          refine ih ?_
          rw [hav, ← List.append_cons]
          exact h.take hmem

/-! ### The placed assignments -/

/-- Every assignment before preferences are chosen. -/
def assigned (input : ReconcileInput) (subnet : ParsedSubnet) : List WorkingAssignment :=
  (orphanPass input subnet).opaqueAssignments ++ (allocationPass input subnet).assignments.values

theorem placedAssignments_withoutPref :
    (placedAssignments input subnet).map WorkingAssignment.withoutPref =
      (assigned input subnet).map WorkingAssignment.withoutPref := by
  simp only [placedAssignments, assigned, List.map_append, takePrefs_withoutPref,
    keepPrefs_withoutPref]

/-- A field that is not the preference is unchanged. -/
theorem map_placedAssignments {β : Type*} {f : WorkingAssignment → β}
    (hf : ∀ a, f a.withoutPref = f a) :
    (placedAssignments input subnet).map f = (assigned input subnet).map f := by
  have hcomp : f = f ∘ WorkingAssignment.withoutPref := funext fun a => (hf a).symm
  rw [hcomp, ← List.map_map, placedAssignments_withoutPref, List.map_map]

theorem placedAssignments_prefs :
    (heldPrefs (placedAssignments input subnet)).Nodup ∧
      heldPrefs (placedAssignments input subnet) ⊆ availablePrefs input subnet := by
  -- the four lists of the passes, in the order in which they take preferences
  set opaques := (orphanPass input subnet).opaqueAssignments
  set values := (allocationPass input subnet).assignments.values
  set kept := keepPrefs (availablePrefs input subnet) opaques with hkept
  set kept' := keepPrefs kept.1 values with hkept'
  set placed := takePrefs input.policy ⟨kept'.1, input.policy.rulePrefBase⟩ kept'.2 with hplaced
  set placed' := takePrefs input.policy placed.1 kept.2 with hplaced'
  have hlist : placedAssignments input subnet = placed'.2 ++ placed.2 := rfl
  have hprefs : heldPrefs (placedAssignments input subnet) =
      heldPrefs placed'.2 ++ heldPrefs placed.2 := by
    rw [hlist, heldPrefs, List.filterMap_append]
    rfl
  have h1 : Taken kept.1 (heldPrefs kept.2) := keepPrefs_taken opaques Taken.nil
  have h2 : Taken kept'.1 (heldPrefs kept.2 ++ heldPrefs kept'.2) := keepPrefs_taken values h1
  have h3 : Taken placed.1.available (heldPrefs kept.2 ++ heldPrefs placed.2) :=
    takePrefs_taken kept'.2 h2
  have h3' : Taken placed.1.available (heldPrefs placed.2 ++ heldPrefs kept.2) :=
    ⟨List.perm_append_comm.nodup_iff.mp h3.nodup, fun r hr =>
      h3.gone r (List.perm_append_comm.mem_iff.mp hr)⟩
  have h4 : Taken placed'.1.available (heldPrefs placed.2 ++ heldPrefs placed'.2) :=
    takePrefs_taken kept.2 h3'
  have hkept_sub : heldPrefs kept.2 ⊆ availablePrefs input subnet := keepPrefs_held_subset _ _
  have hkept_left : kept.1 ⊆ availablePrefs input subnet := keepPrefs_left_subset _ _
  have hkept_left' : kept'.1 ⊆ availablePrefs input subnet :=
    List.Subset.trans (keepPrefs_left_subset _ _) hkept_left
  have hplaced_sub : heldPrefs placed.2 ⊆ availablePrefs input subnet :=
    List.Subset.trans (takePrefs_held_subset _ _ _) (List.append_subset.mpr
      ⟨List.Subset.trans (keepPrefs_held_subset _ _) hkept_left, hkept_left'⟩)
  have hplaced_left : placed.1.available ⊆ availablePrefs input subnet :=
    List.Subset.trans (takePrefs_left_subset _ _ _) hkept_left'
  rw [hprefs]
  refine ⟨List.perm_append_comm.nodup_iff.mp h4.nodup, List.append_subset.mpr ⟨?_, hplaced_sub⟩⟩
  exact List.Subset.trans (takePrefs_held_subset _ _ _)
    (List.append_subset.mpr ⟨hkept_sub, hplaced_left⟩)

/-! ### The desired assignments -/

theorem desired_perm : (desired input subnet).Perm
    ((placedAssignments input subnet).filterMap WorkingAssignment.desired) :=
  List.perm_insertionSort _ _

theorem desired_eq_some {a : WorkingAssignment} {entry : DesiredAssignment}
    (h : a.desired = some entry) : a.pref = some entry.pref ∧ entry.ip = a.ip ∧
      entry.table = a.table ∧ entry.wan = a.wan ∧ entry.mac = a.mac := by
  obtain ⟨pref, hp, rfl⟩ := Option.map_eq_some_iff.mp h
  exact ⟨hp, rfl, rfl, rfl, rfl⟩

theorem mem_desired {entry : DesiredAssignment} :
    entry ∈ desired input subnet ↔
      ∃ a ∈ placedAssignments input subnet, a.desired = some entry := by
  rw [desired_perm.mem_iff, List.mem_filterMap]

/-- A desired entry is an assignment of the passes with a preference. -/
theorem assigned_of_mem_desired {entry : DesiredAssignment} (h : entry ∈ desired input subnet) :
    ∃ a ∈ assigned input subnet, a.ip = entry.ip ∧ a.table = entry.table ∧ a.wan = entry.wan ∧
      a.mac = entry.mac := by
  obtain ⟨a, ha, hd⟩ := mem_desired.mp h
  obtain ⟨-, hip, htable, hwan, hmac⟩ := desired_eq_some hd
  have hbase : a.withoutPref ∈ (assigned input subnet).map WorkingAssignment.withoutPref :=
    placedAssignments_withoutPref ▸ List.mem_map_of_mem ha
  obtain ⟨b, hb, heq⟩ := List.mem_map.mp hbase
  rw [hip, htable, hwan, hmac]
  have hfields := WorkingAssignment.mk.injEq .. |>.mp heq
  exact ⟨b, hb, hfields.2.1, hfields.2.2.2.1, hfields.2.2.1, hfields.1⟩

theorem map_filterMap_desired_sublist {β : Type*} (f : DesiredAssignment → β)
    (g : WorkingAssignment → β) (hfg : ∀ a entry, a.desired = some entry → f entry = g a)
    (l : List WorkingAssignment) :
    ((l.filterMap WorkingAssignment.desired).map f).Sublist (l.map g) := by
  induction l with
  | nil => exact List.Sublist.refl _
  | cons a l ih =>
    cases hd : a.desired with
    | none =>
      rw [List.filterMap_cons_none hd]
      exact ih.cons _
    | some entry =>
      rw [List.filterMap_cons_some hd, List.map_cons, List.map_cons, hfg a entry hd]
      exact ih.cons_cons _

theorem desired_prefs_perm :
    ((desired input subnet).map DesiredAssignment.pref).Perm
      (heldPrefs (placedAssignments input subnet)) := by
  refine (desired_perm.map _).trans (List.Perm.of_eq ?_)
  rw [List.map_filterMap, heldPrefs]
  refine List.filterMap_congr fun a _ => ?_
  cases hp : a.pref <;> simp [WorkingAssignment.desired, hp]

theorem desired_prefs_nodup : ((desired input subnet).map DesiredAssignment.pref).Nodup :=
  desired_prefs_perm.nodup_iff.mpr placedAssignments_prefs.1

theorem desired_pref_available {entry : DesiredAssignment} (h : entry ∈ desired input subnet) :
    entry.pref ∈ availablePrefs input subnet :=
  placedAssignments_prefs.2 (desired_prefs_perm.mem_iff.mp (List.mem_map_of_mem h))

theorem mem_availablePrefs {pref : Nat} :
    pref ∈ availablePrefs input subnet ↔ input.policy.manages pref = true ∧
      ∀ rule ∈ input.rules, rule.pref = pref → reservesPref input subnet rule = false := by
  simp only [availablePrefs, List.mem_filter, List.mem_range'_1, PlannerPolicy.manages,
    Bool.not_eq_true', List.any_eq_false, Bool.and_eq_true, beq_iff_eq, not_and,
    decide_eq_true_eq]
  constructor
  · rintro ⟨hr, hrules⟩
    refine ⟨by omega, fun rule hm heq => ?_⟩
    by_contra hres
    exact hrules rule hm (by simpa using hres) heq
  · rintro ⟨hr, hrules⟩
    refine ⟨by omega, fun rule hm hres heq => ?_⟩
    rw [hrules rule hm heq] at hres
    cases hres

theorem assigned_ledger (subnet : ParsedSubnet)
    (hnames : (input.wans.map PlannerWan.name).Nodup) :
    Ledger input subnet (allocationPass input subnet).usedWans
      (orphanPass input subnet).opaqueAssignments (allocationPass input subnet).assignments :=
  (allocationPass_inv hnames).ledger

theorem desired_wans_nodup (hnames : (input.wans.map PlannerWan.name).Nodup) :
    ((desired input subnet).map DesiredAssignment.wan).Nodup := by
  rw [(desired_perm.map DesiredAssignment.wan).nodup_iff]
  refine List.Nodup.sublist (map_filterMap_desired_sublist _ WorkingAssignment.wan
    (fun a entry hd => (desired_eq_some hd).2.2.2.1) _) ?_
  rw [map_placedAssignments (fun _ => rfl)]
  exact (assigned_ledger subnet hnames).exclusive.nodup

theorem desired_onPool (hnames : (input.wans.map PlannerWan.name).Nodup)
    {entry : DesiredAssignment} (h : entry ∈ desired input subnet) :
    OnPool input entry.wan entry.table := by
  obtain ⟨a, ha, -, htable, hwan, -⟩ := assigned_of_mem_desired h
  exact htable ▸ hwan ▸ (assigned_ledger subnet hnames).pool a ha

/-- WANs of one table are one WAN. -/
theorem eq_of_table_eq (htables : (input.wans.filterMap PlannerWan.table).Nodup)
    {wan other : PlannerWan} (hw : wan ∈ input.wans) (ho : other ∈ input.wans) {table : Nat}
    (ht : wan.table = some table) (ht' : other.table = some table) : wan = other := by
  by_contra hne
  have hpair := List.pairwise_filterMap.mp htables
  have hsymm : Std.Symm fun v w : PlannerWan =>
      ∀ t, v.table = some t → ∀ t', w.table = some t' → t ≠ t' :=
    ⟨fun v w h t ht t' ht' heq => h t' ht' t ht heq.symm⟩
  exact hpair.forall hw ho hne table ht table ht' rfl

theorem desired_tables_nodup (hnames : (input.wans.map PlannerWan.name).Nodup)
    (htables : (input.wans.filterMap PlannerWan.table).Nodup) :
    ((desired input subnet).map DesiredAssignment.table).Nodup := by
  have hwans : (desired input subnet).Pairwise fun a b => a.wan ≠ b.wan :=
    List.pairwise_map.mp (desired_wans_nodup hnames)
  refine List.pairwise_map.mpr (hwans.imp_of_mem fun {a b} ha hb hne heq => ?_)
  obtain ⟨wa, hwa, hna, hta⟩ := desired_onPool hnames ha
  obtain ⟨wb, hwb, hnb, htb⟩ := desired_onPool hnames hb
  have hsame := eq_of_table_eq htables hwa hwb hta (heq ▸ htb)
  exact hne (by rw [← hna, ← hnb, hsame])

theorem assigned_macs (hnames : (input.wans.map PlannerWan.name).Nodup) :
    (assigned input subnet).filterMap WorkingAssignment.mac =
      (allocationPass input subnet).assignments.keys := by
  have h := assigned_ledger subnet hnames
  have hforeign : (orphanPass input subnet).opaqueAssignments.filterMap WorkingAssignment.mac = [] :=
    List.filterMap_eq_nil_iff.mpr h.unknown
  rw [assigned, List.filterMap_append, hforeign, List.nil_append, OrderedMap.values,
    OrderedMap.keys, List.filterMap_map, ← List.filterMap_eq_map]
  exact List.filterMap_congr fun e he => (h.client e he).1.1

theorem desired_macs_nodup (hnames : (input.wans.map PlannerWan.name).Nodup) :
    ((desired input subnet).filterMap DesiredAssignment.mac).Nodup := by
  have hsub := (map_filterMap_desired_sublist DesiredAssignment.mac WorkingAssignment.mac
    (fun a entry hd => (desired_eq_some hd).2.2.2.2) (placedAssignments input subnet)).filterMap id
  rw [map_placedAssignments (fun _ => rfl)] at hsub
  simp only [List.filterMap_map, Function.id_comp] at hsub
  rw [(desired_perm.filterMap DesiredAssignment.mac).nodup_iff]
  refine List.Nodup.sublist hsub ?_
  rw [assigned_macs hnames]
  exact (allocationPass input subnet).assignments.nodup

theorem not_held_of_mem_desired (hnames : (input.wans.map PlannerWan.name).Nodup)
    {entry : DesiredAssignment} (h : entry ∈ desired input subnet) {mac : Text}
    (hmac : entry.mac = some mac) : mac ∉ held input := by
  obtain ⟨a, ha, -, -, -, hm⟩ := assigned_of_mem_desired h
  have hled := assigned_ledger subnet hnames
  rcases List.mem_append.mp ha with ha | ha
  · have := hled.unknown a ha
    rw [hm, hmac] at this
    cases this
  · obtain ⟨key, he⟩ := OrderedMap.mem_values.mp ha
    obtain ⟨hk, hh⟩ := hled.client _ he
    rw [IsOf, hm, hmac, Option.some_inj] at hk
    exact hk.1 ▸ hh

theorem mem_held {mac : Text} : mac ∈ held input ↔
    ∃ value ∈ input.oldMemory.heldMacs, normalizedMac value = some mac := by
  rw [held, List.mem_eraseDups, List.mem_filterMap]

/-- An instance that is not running asks for no rule. -/
theorem desired_eq_nil (h : input.instance_.running = false) : desired input subnet = [] := by
  have hforeign : (orphanPass input subnet).opaqueAssignments = [] := by
    simp [orphanPass, h]
  have hpre : (preservePass input subnet).assignments = .empty := by
    simp [preservePass, h]
  have hremap : (remapPass input subnet).assignments = .empty := by
    simp [remapPass, h, hpre]
  have hstep : ∀ state request, allocateStep input subnet state request = state := by
    intro state request
    simp [allocateStep, h]
  have halloc : (allocationPass input subnet).assignments = .empty := by
    rw [allocationPass, ← hremap]
    generalize allocationOrder input subnet = order
    exact List.foldlRecOn (motive := fun state : AllocationState => state.assignments =
      (remapPass input subnet).assignments) order (allocateStep input subnet) rfl
      fun state hs request _ => by rw [hstep]; exact hs
  have hnil : (assigned input subnet) = [] := by
    rw [assigned, hforeign, halloc]
    rfl
  refine List.eq_nil_iff_forall_not_mem.mpr fun entry he => ?_
  obtain ⟨a, ha, -⟩ := assigned_of_mem_desired he
  rw [hnil] at ha
  cases ha

/-- A managed rule whose preference is not reserved is one of `actual`. -/
theorem mem_actual_of_not_reserved {rule : IpRule} (hm : input.policy.manages rule.pref = true)
    (h : reservesPref input subnet rule = false) :
    ∃ entry ∈ actual input subnet, entry.pref = rule.pref ∧ ruleIp rule.source = some entry.ip ∧
      entry.table = rule.table := by
  simp only [reservesPref, hm, Bool.true_and] at h
  cases hip : ruleIp rule.source with
  | none => simp [hip] at h
  | some ip =>
    simp only [hip, decide_eq_false_iff_not, not_not] at h
    obtain ⟨entry, he, hkey⟩ := List.mem_map.mp h
    obtain ⟨hp, hi, ht⟩ := RuleChange.mk.injEq .. |>.mp hkey
    exact ⟨entry, he, hp, by rw [hi], ht⟩

end BoredManager.OpenWrt.Planner

namespace BoredManager.OpenWrt
open BoredManager.Js Planner

/-- A rule that the result does not list in `actual`. -/
def IsForeign (result : PlannerResult) (rule : IpRule) : Prop :=
  ∀ entry ∈ result.actual, ¬(entry.pref = rule.pref ∧ ruleIp rule.source = some entry.ip ∧
    entry.table = rule.table)

structure OneToOneBinding (input : ReconcileInput) (result : PlannerResult) : Prop where
  prefs : (result.desired.map DesiredAssignment.pref).Nodup
  wans : (result.desired.map DesiredAssignment.wan).Nodup
  tables : (result.desired.map DesiredAssignment.table).Nodup
  macs : (result.desired.filterMap DesiredAssignment.mac).Nodup
  managed : ∀ entry ∈ result.desired,
    input.policy.rulePrefBase ≤ entry.pref ∧ entry.pref < input.policy.catchAllPrefBase
  foreign : ∀ entry ∈ result.desired, ∀ rule ∈ input.rules,
    input.policy.manages rule.pref = true → IsForeign result rule → rule.pref ≠ entry.pref
  pool : ∀ entry ∈ result.desired,
    ∃ wan ∈ input.wans, wan.name = entry.wan ∧ wan.table = some entry.table
  held : ∀ entry ∈ result.desired, ∀ mac, entry.mac = some mac →
    ∀ value ∈ input.oldMemory.heldMacs, normalizedMac value ≠ some mac
  stopped : input.instance_.running = false → result.desired = []

/-- One reconciliation binds clients to WANs one to one, whatever it reads. -/
theorem one_to_one_binding (input : ReconcileInput)
    (hnames : (input.wans.map PlannerWan.name).Nodup)
    (htables : (input.wans.filterMap PlannerWan.table).Nodup) :
    OneToOneBinding input (planBindingReconciliation input) := by
  cases hparse : parseCidr input.lanCidr with
  | none =>
    rw [planBinding_of_unparsed hparse]
    have hnil : (unplanned input).desired = [] := rfl
    constructor <;> simp [hnil]
  | some subnet =>
    rw [planBinding_of_parsed hparse]
    have havailable : ∀ entry ∈ desired input subnet, entry.pref ∈ availablePrefs input subnet :=
      fun entry he => desired_pref_available he
    constructor <;> simp only [planOn_desired]
    case prefs => exact desired_prefs_nodup
    case wans => exact desired_wans_nodup hnames
    case tables => exact desired_tables_nodup hnames htables
    case macs => exact desired_macs_nodup hnames
    case managed =>
      intro entry he
      simpa [PlannerPolicy.manages] using (mem_availablePrefs.mp (havailable entry he)).1
    case foreign =>
      intro entry he rule hr hm hforeign heq
      have hres := (mem_availablePrefs.mp (havailable entry he)).2 rule hr heq
      obtain ⟨listed, hl, hsame⟩ := mem_actual_of_not_reserved hm hres
      exact hforeign _ (List.mem_map_of_mem hl) hsame
    case pool => exact fun entry he => desired_onPool hnames he
    case held =>
      intro entry he mac hmac value hv heq
      exact not_held_of_mem_desired hnames he hmac (mem_held.mpr ⟨value, hv, heq⟩)
    case stopped => exact desired_eq_nil

/-- Two leased clients and three WANs that are up. -/
def quietInput : ReconcileInput :=
  let wan := fun (name : Text) (table : Nat) =>
    (⟨name, some table, true, false, some (js "100.64.0.1"), 600, none⟩ : PlannerWan)
  { clock := some 1000000000
    instance_ := ⟨js "home", true, true, true⟩
    lanCidr := js "192.168.10.1/24"
    leases := [⟨0, js "00:11:22:33:44:55", js "192.168.10.2", js "phone"⟩,
      ⟨0, js "00:11:22:33:44:66", js "192.168.10.3", js "tablet"⟩]
    rules := []
    wans := [wan (js "pd00001") 10001, wan (js "pd00002") 10002, wan (js "pd00003") 10003]
    tableToWan := [(10001, js "pd00001"), (10002, js "pd00002"), (10003, js "pd00003")]
    sticky := []
    memory := none
    policy := ⟨1000, 1010, 200, 60, 30, 300, 100⟩
    randomSeed := some 7
    rebooted := false }

theorem one_to_one_binding_two_clients :
    (planBindingReconciliation quietInput).desired.length = 2 ∧
      OneToOneBinding quietInput (planBindingReconciliation quietInput) :=
  ⟨by decide +kernel, one_to_one_binding quietInput (by decide +kernel) (by decide +kernel)⟩

end BoredManager.OpenWrt
