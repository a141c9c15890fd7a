import BoredManager.OpenWrt.Planner.ErrorRemap
import Mathlib.Data.List.Induction

/-! First in, first out: which waiting clients obtain a WAN, that none waits beside a WAN that is
free, and the queue that the next reconciliation finds. -/
namespace BoredManager.OpenWrt.Planner
open BoredManager.Js

variable {input : ReconcileInput} {subnet : ParsedSubnet}

/-! ### Enough preferences -/

theorem keepPrefs_length (available : List Nat) (l : List WorkingAssignment)
    (hn : available.Nodup) :
    (keepPrefs available l).1.length + (heldPrefs (keepPrefs available l).2).length =
      available.length := by
  induction l generalizing available with
  | nil => simp [keepPrefs]
  | cons a l ih =>
    simp only [keepPrefs]
    split
    · rename_i ha
      rw [heldPrefs_cons_none ha]
      exact ih available hn
    · rename_i pref ha
      split
      · rename_i hmem
        have hpos := List.length_pos_of_mem hmem
        have hrest := ih (available.filter (· ≠ pref)) (hn.filter _)
        rw [length_filter_ne hn hmem] at hrest
        rw [heldPrefs_cons_some ha, List.length_cons]
        dsimp only
        omega
      · rw [heldPrefs_cons_none rfl]
        exact ih available hn

theorem countP_isNone (l : List WorkingAssignment) :
    (l.countP fun a => a.pref.isNone) + (heldPrefs l).length = l.length := by
  induction l with
  | nil => rfl
  | cons a l ih =>
    cases ha : a.pref with
    | none =>
      rw [List.countP_cons_of_pos (by simp [ha]), heldPrefs_cons_none ha, List.length_cons]
      omega
    | some pref =>
      rw [List.countP_cons_of_neg (by simp [ha]), heldPrefs_cons_some ha, List.length_cons,
        List.length_cons]
      omega

theorem length_keepPrefs (available : List Nat) (l : List WorkingAssignment) :
    (keepPrefs available l).2.length = l.length := by
  simpa using congrArg List.length (keepPrefs_withoutPref available l)

/-- A search with as many preferences as are looked for finds one for each assignment. -/
theorem takePrefs_all {policy : PlannerPolicy} {search : PrefSearch} (h : Ahead policy search)
    (l : List WorkingAssignment)
    (hcount : (l.countP fun a => a.pref.isNone) ≤ search.available.length) :
    ∀ a ∈ (takePrefs policy search l).2, a.pref.isSome = true := by
  induction l generalizing search with
  | nil => simp [takePrefs]
  | cons a l ih =>
    simp only [takePrefs]
    split
    · rename_i pref ha
      rw [List.countP_cons_of_neg (by simp [ha])] at hcount
      exact List.forall_mem_cons.mpr ⟨by simp [ha], ih h hcount⟩
    · rename_i ha
      rw [List.countP_cons_of_pos (by simp [ha])] at hcount
      obtain ⟨hahead, hlength, hsome⟩ := takePref_ahead h
      exact List.forall_mem_cons.mpr ⟨hsome.mpr (by omega), ih hahead (by omega)⟩

/-- There are as many free preferences as assignments. -/
def EnoughPrefs (input : ReconcileInput) (subnet : ParsedSubnet) : Prop :=
  (assigned input subnet).length ≤ (availablePrefs input subnet).length

instance (input : ReconcileInput) (subnet : ParsedSubnet) : Decidable (EnoughPrefs input subnet) :=
  inferInstanceAs (Decidable (_ ≤ _))

theorem placed_all (henough : EnoughPrefs input subnet) :
    ∀ a ∈ placedAssignments input subnet, a.pref.isSome = true := by
  set opaques := (orphanPass input subnet).opaqueAssignments
  set values := (allocationPass input subnet).assignments.values
  set kept := keepPrefs (availablePrefs input subnet) opaques with hkept
  set kept' := keepPrefs kept.1 values with hkept'
  have hlist : placedAssignments input subnet =
      (takePrefs input.policy (takePrefs input.policy ⟨kept'.1, input.policy.rulePrefBase⟩ kept'.2).1
        kept.2).2 ++ (takePrefs input.policy ⟨kept'.1, input.policy.rulePrefBase⟩ kept'.2).2 := rfl
  have hcount : opaques.length + values.length ≤ (availablePrefs input subnet).length := by
    have hlength : (assigned input subnet).length = opaques.length + values.length :=
      List.length_append
    rw [← hlength]
    exact henough
  have hnodup : (availablePrefs input subnet).Nodup := List.nodup_range' 1 |>.filter _
  have hsub : kept'.1.Sublist (availablePrefs input subnet) :=
    (keepPrefs_left_sublist _ _).trans (keepPrefs_left_sublist _ _)
  have hahead : Ahead input.policy ⟨kept'.1, input.policy.rulePrefBase⟩ := by
    refine ⟨hnodup.sublist hsub, fun pref hp => ?_⟩
    simpa [PlannerPolicy.manages] using (mem_availablePrefs.mp (hsub.subset hp)).1
  -- what the rules keep and what is searched for add up to the assignments
  have hleft := keepPrefs_length (availablePrefs input subnet) opaques hnodup
  have hleft' := keepPrefs_length kept.1 values (hnodup.sublist (keepPrefs_left_sublist _ _))
  have hwanted := countP_isNone kept.2
  have hwanted' := countP_isNone kept'.2
  rw [hkept, length_keepPrefs, ← hkept] at hwanted
  rw [hkept', length_keepPrefs, ← hkept'] at hwanted'
  rw [← hkept] at hleft
  rw [← hkept'] at hleft'
  obtain ⟨hahead', hrest⟩ := takePrefs_ahead hahead kept'.2
  dsimp only at hrest
  rw [hlist]
  refine List.forall_mem_append.mpr ⟨takePrefs_all hahead' _ ?_, takePrefs_all hahead _ ?_⟩
  · rw [hrest]
    omega
  · dsimp only
    omega

/-- With enough preferences every assignment becomes a rule. -/
theorem desired_of_assigned (henough : EnoughPrefs input subnet) {a : WorkingAssignment}
    (ha : a ∈ assigned input subnet) :
    ∃ d ∈ desired input subnet, d.wan = a.wan ∧ d.mac = a.mac := by
  have hbase : a.withoutPref ∈ (placedAssignments input subnet).map WorkingAssignment.withoutPref :=
    placedAssignments_withoutPref ▸ List.mem_map_of_mem ha
  obtain ⟨b, hb, heq⟩ := List.mem_map.mp hbase
  obtain ⟨pref, hpref⟩ := Option.isSome_iff_exists.mp (placed_all henough b hb)
  have hdesired : b.desired = some ⟨pref, b.ip, b.table, b.wan, b.mac, b.assignedAt⟩ := by
    rw [WorkingAssignment.desired, hpref]
    rfl
  have hfields := WorkingAssignment.mk.injEq .. |>.mp heq
  exact ⟨_, mem_desired.mpr ⟨b, hb, hdesired⟩, hfields.2.2.1, hfields.1⟩

/-! ### Who is bound -/

/-- Where nothing is left in the pool, each of its WANs has a client. -/
structure Covered (pool : List PlannerWan) (state : AllocationState) : Prop where
  placed : ∀ wan ∈ pool, wan ∈ state.freeWans.values ∨
    ∃ a ∈ state.assignments.values, a.wan = wan.name
  tables : ∀ wan ∈ state.freeWans.values, wan.table.isSome = true

/-- A request takes a WAN or finds the pool empty. -/
theorem allocateStep_cases {state : AllocationState} {request : ForcedReassign}
    (hrun : input.instance_.running = true)
    (hleased : (currentLeases input subnet).has request.mac = true)
    (hfresh : request.mac ∉ state.assignments.keys)
    (htables : ∀ wan ∈ state.freeWans.values, wan.table.isSome = true) :
    (state.freeWans.values = [] ∧
        (allocateStep input subnet state request).assignments = state.assignments ∧
        (allocateStep input subnet state request).freeWans = state.freeWans) ∨
      ∃ wan device table,
        state.freeWans.values.Perm (wan :: (allocateStep input subnet state request).freeWans.values) ∧
        (allocateStep input subnet state request).assignments =
          state.assignments.set request.mac (assignTo input request.mac device wan table none) := by
  obtain ⟨device, hdevice⟩ := workingDevice_of_leased hleased
  have hhas : state.assignments.has request.mac = false := by
    rw [← Bool.not_eq_true, OrderedMap.has_iff]
    exact hfresh
  by_cases hpool : state.freeWans.values = []
  · have hnone := selectWan_none input hpool state.random request
    refine .inl ⟨hpool, ?_⟩
    simp only [allocateStep, hrun, hhas, hdevice, Bool.not_true, Bool.or_false]
    cases hs : selectWan input state.freeWans state.random request with
    | mk taken random =>
      rw [hs] at hnone
      cases hnone
      exact ⟨rfl, rfl⟩
  · obtain ⟨wan, freeWans, random, hs⟩ := selectWan_some input hpool state.random request
    have hperm := selectWan_perm hs
    obtain ⟨table, ht⟩ := Option.isSome_iff_exists.mp
      (htables wan (hperm.mem_iff.mpr List.mem_cons_self))
    have hstep : allocateStep input subnet state request = {
        usedWans := wan.name :: state.usedWans
        assignments := state.assignments.set request.mac
          (assignTo input request.mac device wan table none)
        freeWans, random } := by
      simp [allocateStep, hrun, hhas, hdevice, hs, ht]
    rw [hstep]
    exact .inr ⟨wan, device, table, hperm, rfl⟩

theorem covered_step {pool : List PlannerWan} {state : AllocationState} {request : ForcedReassign}
    (hrun : input.instance_.running = true)
    (hleased : (currentLeases input subnet).has request.mac = true)
    (hfresh : request.mac ∉ state.assignments.keys) (h : Covered pool state) :
    Covered pool (allocateStep input subnet state request) ∧
      (allocateStep input subnet state request).freeWans.values.length =
        state.freeWans.values.length - 1 := by
  obtain ⟨hnil, ha, hf⟩ | ⟨wan, device, table, hperm, ha⟩ :=
    allocateStep_cases hrun hleased hfresh h.tables
  · rw [hf, hnil]
    refine ⟨⟨?_, ?_⟩, rfl⟩
    · rw [ha, hf]
      exact h.placed
    · rw [hf]
      exact h.tables
  · refine ⟨⟨fun other hother => ?_, fun other hother =>
      h.tables other (hperm.mem_iff.mpr (List.mem_cons_of_mem wan hother))⟩, ?_⟩
    · rw [ha, OrderedMap.values_set_of_not_mem hfresh]
      obtain hfree | ⟨a, hmem, heq⟩ := h.placed other hother
      · obtain rfl | hfree := List.mem_cons.mp (hperm.mem_iff.mp hfree)
        · exact .inr ⟨_, List.mem_append_right _ List.mem_cons_self, rfl⟩
        · exact .inl hfree
      · exact .inr ⟨a, List.mem_append_left _ hmem, heq⟩
    · rw [hperm.length_eq, List.length_cons]
      rfl

theorem covered_run {pool : List PlannerWan} (hrun : input.instance_.running = true)
    (requests : List ForcedReassign) (state : AllocationState)
    (hn : (requests.map ForcedReassign.mac).Nodup)
    (hleased : ∀ r ∈ requests, (currentLeases input subnet).has r.mac = true)
    (hfresh : ∀ r ∈ requests, r.mac ∉ state.assignments.keys) (h : Covered pool state) :
    Covered pool (requests.foldl (allocateStep input subnet) state) ∧
      (requests.foldl (allocateStep input subnet) state).freeWans.values.length =
        state.freeWans.values.length - requests.length := by
  induction requests generalizing state with
  | nil => exact ⟨h, rfl⟩
  | cons r requests ih =>
    obtain ⟨hne, hn⟩ := List.nodup_cons.mp hn
    have hr := hfresh r List.mem_cons_self
    have hl := hleased r List.mem_cons_self
    obtain ⟨hcovered, hlength⟩ := covered_step hrun hl hr h
    have hnext : ∀ s ∈ requests, s.mac ∉ (allocateStep input subnet state r).assignments.keys := by
      intro s hs hk
      have hold := hfresh s (List.mem_cons_of_mem r hs)
      obtain ⟨-, ha, -⟩ | ⟨wan, device, table, -, ha⟩ := allocateStep_cases hrun hl hr h.tables
      · exact hold (ha ▸ hk)
      · rw [ha, OrderedMap.mem_keys_set] at hk
        obtain heq | hk := hk
        · exact hne (heq ▸ List.mem_map_of_mem hs)
        · exact hold hk
    obtain ⟨hlast, hrest⟩ := ih _ hn (fun s hs => hleased s (List.mem_cons_of_mem r hs)) hnext hcovered
    exact ⟨hlast, by rw [List.foldl_cons, hrest, hlength, List.length_cons]; omega⟩

/-- The WANs that are free once clients have left those in error. -/
def freePool (input : ReconcileInput) (subnet : ParsedSubnet) : List PlannerWan :=
  freeWansOf input (remapPass input subnet).usedWans

theorem table_of_freePool : ∀ wan ∈ freePool input subnet, wan.table.isSome = true := by
  intro wan hw
  obtain ⟨-, husable⟩ := List.mem_filter.mp hw
  obtain ⟨table, ht⟩ := table_of_wanUsable (Bool.and_eq_true _ _ |>.mp husable).1
  exact Option.isSome_iff_exists.mpr ⟨table, ht⟩

/-- The clients that obtain a WAN are the first ones of the order, as many as there are WANs. -/
theorem allocated_run (subnet : ParsedSubnet) (hrun : input.instance_.running = true) :
    ∃ added : List (Text × WorkingAssignment),
      (allocationPass input subnet).assignments.entries =
        (remapPass input subnet).assignments.entries ++ added ∧
      added.map Prod.fst = ((allocationOrder input subnet).take
        (freePool input subnet).length).map ForcedReassign.mac ∧
      ∀ e ∈ added, Drawn (freePool input subnet) e := by
  obtain ⟨_, -, hnodup, hall⟩ := allocationOrder_eq input subnet
  exact allocate_run hrun (allocationOrder input subnet)
    ⟨(remapPass input subnet).usedWans, (remapPass input subnet).assignments,
      .ofList (freePool input subnet), .ofSeed (input.randomSeed.getD 1)⟩
    hnodup (fun r hr => (hall r hr).1) (fun r hr => (hall r hr).2) table_of_freePool

theorem allocated_keys (hrun : input.instance_.running = true) :
    (allocationPass input subnet).assignments.keys = (remapPass input subnet).assignments.keys ++
      ((allocationOrder input subnet).take (freePool input subnet).length).map ForcedReassign.mac := by
  obtain ⟨added, hentries, hkeys, -⟩ := allocated_run subnet hrun
  rw [OrderedMap.keys, hentries, List.map_append, hkeys]
  rfl

/-- A pool that is asked for more WANs than it has leaves none without a client. -/
theorem pool_exhausted (hrun : input.instance_.running = true)
    (hlong : (freePool input subnet).length ≤ (allocationOrder input subnet).length) :
    ∀ wan ∈ freePool input subnet, ∃ a ∈ (allocationPass input subnet).assignments.values,
      a.wan = wan.name := by
  obtain ⟨_, -, hnodup, hall⟩ := allocationOrder_eq input subnet
  have hrun : Covered (freePool input subnet) (allocationPass input subnet) ∧
      (allocationPass input subnet).freeWans.values.length =
        (freePool input subnet).length - (allocationOrder input subnet).length :=
    covered_run hrun (allocationOrder input subnet)
      ⟨(remapPass input subnet).usedWans, (remapPass input subnet).assignments,
        .ofList (freePool input subnet), .ofSeed (input.randomSeed.getD 1)⟩
      hnodup (fun r hr => (hall r hr).1) (fun r hr => (hall r hr).2)
      ⟨fun wan hw => .inl hw, table_of_freePool⟩
  obtain ⟨hcovered, hlength⟩ := hrun
  have hnil : (allocationPass input subnet).freeWans.values = [] :=
    List.length_eq_zero_iff.mp (by omega)
  intro wan hw
  refine (hcovered.placed wan hw).resolve_left fun hfree => ?_
  have hmem : wan ∈ (allocationPass input subnet).freeWans.values := hfree
  rw [hnil] at hmem
  cases hmem

/-! ### Who is bound -/

/-- An assignment is under the client's own name. -/
theorem mac_of_allocated (hrun : input.instance_.running = true) {e : Text × WorkingAssignment}
    (h : e ∈ (allocationPass input subnet).assignments.entries) : e.2.mac = some e.1 := by
  obtain ⟨added, hentries, -, hdrawn⟩ := allocated_run subnet hrun
  rw [hentries, List.mem_append] at h
  obtain h | h := h
  · obtain ⟨entry, -, hpre⟩ := preservePass_sources.assignments e (remapPass_subset h)
    obtain ⟨-, -, -, hof, -⟩ := preservedBy_eq_some hpre
    exact hof.1
  · exact (hdrawn e h).mac

/-- With enough preferences the clients with an assignment are the bound ones. -/
theorem bound_iff_allocated (hrun : input.instance_.running = true)
    (henough : EnoughPrefs input subnet) {mac : Text} :
    (∃ d ∈ desired input subnet, d.mac = some mac) ↔
      mac ∈ (allocationPass input subnet).assignments.keys := by
  constructor
  · rintro ⟨d, hd, hmac⟩
    obtain ⟨a, ha, -, -, -, hsame⟩ := assigned_of_mem_desired hd
    obtain ha | ha := List.mem_append.mp ha
    · have hnone := orphanPass_ledger.unknown a ha
      rw [hsame, hmac] at hnone
      cases hnone
    · obtain ⟨key, he⟩ := OrderedMap.mem_values.mp ha
      have hkey := mac_of_allocated hrun he
      rw [hsame, hmac, Option.some_inj] at hkey
      exact hkey ▸ List.mem_map_of_mem he
  · intro hkey
    obtain ⟨a, ha⟩ := OrderedMap.mem_keys.mp hkey
    have hassigned : a ∈ assigned input subnet :=
      List.mem_append_right _ (OrderedMap.mem_values.mpr ⟨mac, ha⟩)
    obtain ⟨d, hd, -, hsame⟩ := desired_of_assigned henough hassigned
    exact ⟨d, hd, hsame.trans (mac_of_allocated hrun ha)⟩

/-- A usable WAN that is not free is held by an assignment. -/
theorem held_or_free (subnet : ParsedSubnet) {wan : PlannerWan} (hw : wan ∈ input.wans)
    (husable : wanUsable wan input.policy.wanWarnUptimeSec = true) :
    wan ∈ freePool input subnet ∨ ∃ a ∈ assigned input subnet, a.wan = wan.name := by
  by_cases hused : wan.name ∈ (remapPass input subnet).usedWans
  · right
    obtain ⟨hold, hleft⟩ := (mem_remapPass_usedWans wan.name).mp hused
    obtain horphan | ⟨e, he, heq⟩ := preservePass_sources.used wan.name hold
    · obtain ⟨a, ha, heq⟩ := orphanPass_sources.used wan.name horphan
      exact ⟨a, List.mem_append_left _ ha, heq⟩
    · have hstays : e ∈ (remapPass input subnet).assignments.entries := by
        rw [remapPass_entries, List.mem_filter]
        refine ⟨he, decide_eq_true fun hmem => ?_⟩
        obtain ⟨f, hf, hmac⟩ := List.mem_map.mp hmem
        have hsame : f = e := List.inj_on_of_nodup_map (preservePass input subnet).assignments.nodup
          (mem_leaving.mp hf).1 he hmac
        exact hleft f hf (hsame ▸ heq)
      exact ⟨e.2, List.mem_append_right _ (OrderedMap.mem_values.mpr ⟨e.1, mem_allocationPass hstays⟩),
        heq⟩
  · left
    exact List.mem_filter.mpr ⟨hw, by simp [husable, hused]⟩

/-- A client that asks for a WAN in vain finds every usable one held. -/
theorem no_usable_left (hrun : input.instance_.running = true) (henough : EnoughPrefs input subnet)
    {mac : Text} (hasks : mac ∈ (allocationOrder input subnet).map ForcedReassign.mac)
    (hunbound : ¬∃ d ∈ desired input subnet, d.mac = some mac) {wan : PlannerWan}
    (hw : wan ∈ input.wans) (husable : wanUsable wan input.policy.wanWarnUptimeSec = true) :
    ∃ d ∈ desired input subnet, d.wan = wan.name := by
  have hlong : (freePool input subnet).length ≤ (allocationOrder input subnet).length := by
    by_contra hshort
    apply hunbound
    rw [bound_iff_allocated hrun henough, allocated_keys hrun,
      List.take_of_length_le (by omega)]
    exact List.mem_append_right _ hasks
  obtain ⟨a, ha, heq⟩ : ∃ a ∈ assigned input subnet, a.wan = wan.name := by
    obtain hfree | hheld := held_or_free subnet hw husable
    · obtain ⟨a, ha, heq⟩ := pool_exhausted hrun hlong wan hfree
      exact ⟨a, List.mem_append_right _ ha, heq⟩
    · exact hheld
  obtain ⟨d, hd, hwan, -⟩ := desired_of_assigned henough ha
  exact ⟨d, hd, hwan.trans heq⟩

/-! ### The queue -/

theorem eraseDups_snoc (l : List Text) (a : Text) :
    (l ++ [a]).eraseDups = if a ∈ l then l.eraseDups else l.eraseDups ++ [a] := by
  rw [List.eraseDups_append]
  split_ifs with h <;> simp [List.removeAll, List.eraseDups_cons, h]

/-- The old entries in the order in which they wait. -/
def previousQueue (input : ReconcileInput) : List WaitingMemory :=
  (input.oldMemory.waiting.insertionSort fun a b => waitingBefore a b = true).filterMap
    fun entry => (normalizedMac entry.mac).map fun mac => { entry with mac }

def leasedInOrder (input : ReconcileInput) (subnet : ParsedSubnet) : List Text :=
  (currentInOrder input subnet).map Prod.fst

/-- A leased client without a rule that keeps its WAN. -/
def unserved (input : ReconcileInput) (subnet : ParsedSubnet) (mac : Text) : Bool :=
  (currentLeases input subnet).has mac && !(remapPass input subnet).assignments.has mac

/-- The clients that wait: the old entries by their order, then the new leases as the lease file has
them. -/
def waitingMacs (input : ReconcileInput) (subnet : ParsedSubnet) : List Text :=
  (((previousQueue input).map WaitingMemory.mac ++ leasedInOrder input subnet).filter
    (unserved input subnet)).eraseDups

/-- A queue whose entries stand under their own names. -/
def Lists (queue : OrderedMap Text WaitingMemory) (entries : List WaitingMemory) : Prop :=
  queue.entries = entries.map fun entry => (entry.mac, entry)

theorem Lists.keys {queue : OrderedMap Text WaitingMemory} {entries : List WaitingMemory}
    (h : Lists queue entries) : queue.keys = entries.map WaitingMemory.mac := by
  rw [OrderedMap.keys, h, List.map_map]
  rfl

theorem Lists.values {queue : OrderedMap Text WaitingMemory} {entries : List WaitingMemory}
    (h : Lists queue entries) : queue.values = entries := by
  rw [OrderedMap.values, h, List.map_map]
  exact List.map_id _

theorem Lists.set {queue : OrderedMap Text WaitingMemory} {entries : List WaitingMemory}
    (h : Lists queue entries) {entry : WaitingMemory} (hfresh : queue.has entry.mac = false) :
    Lists (queue.set entry.mac entry) (entries ++ [entry]) := by
  have hnot : entry.mac ∉ queue.keys := fun hk => by
    rw [OrderedMap.has_iff.mpr hk] at hfresh
    cases hfresh
  rw [Lists, OrderedMap.entries_set_of_not_mem hnot, h, List.map_append]
  rfl

/-- The old entries that go on waiting. -/
theorem old_queue (leased assigned : Text → Bool) (l : List WaitingMemory) :
    ∃ stay, Lists (l.foldl (queueStep leased assigned) .empty) stay ∧
      stay.Sublist (l.filterMap fun entry =>
        (normalizedMac entry.mac).map fun mac => { entry with mac }) ∧
      stay.map WaitingMemory.mac = (((l.filterMap fun entry =>
        (normalizedMac entry.mac).map fun mac => { entry with mac }).map WaitingMemory.mac).filter
          fun mac => leased mac && !assigned mac).eraseDups := by
  induction l using List.reverseRecOn with
  | nil => exact ⟨[], rfl, List.Sublist.refl _, rfl⟩
  | append_singleton l entry ih =>
    obtain ⟨stay, hlists, hsub, hmacs⟩ := ih
    rw [List.foldl_append, List.foldl_cons, List.foldl_nil, queueStep, List.filterMap_append]
    cases hmac : normalizedMac entry.mac with
    | none =>
      have hnone : [entry].filterMap (fun entry : WaitingMemory =>
          (normalizedMac entry.mac).map fun mac => { entry with mac }) = [] := by simp [hmac]
      rw [hnone, List.append_nil]
      exact ⟨stay, hlists, hsub, hmacs⟩
    | some mac =>
      have hone : [entry].filterMap (fun entry : WaitingMemory =>
          (normalizedMac entry.mac).map fun mac => { entry with mac }) = [{ entry with mac }] := by
        simp [hmac]
      rw [hone, List.map_append, List.filter_append, List.map_singleton]
      dsimp only
      by_cases hp : (leased mac && !assigned mac) = true
      · obtain ⟨hl, ha⟩ : leased mac = true ∧ assigned mac = false := by simpa using hp
        rw [List.filter_cons_of_pos (by simpa using hp), List.filter_nil, eraseDups_snoc]
        by_cases hmem : mac ∈ stay.map WaitingMemory.mac
        · have hhas : (l.foldl (queueStep leased assigned) .empty).has mac = true :=
            OrderedMap.has_iff.mpr (hlists.keys ▸ hmem)
          rw [if_pos (by simp [hhas]), if_pos (List.mem_eraseDups.mp (hmacs ▸ hmem))]
          exact ⟨stay, hlists, hsub.trans (List.sublist_append_left _ _), hmacs⟩
        · have hhas : (l.foldl (queueStep leased assigned) .empty).has mac = false := by
            rw [← Bool.not_eq_true, OrderedMap.has_iff, hlists.keys]
            exact hmem
          rw [if_neg (by simp [hhas, hl, ha]),
            if_neg fun hold => hmem (hmacs ▸ List.mem_eraseDups.mpr hold)]
          have hset : Lists _ (stay ++ [{ entry with mac }]) := hlists.set hhas
          refine ⟨stay ++ [{ entry with mac }], hset, hsub.append (List.Sublist.refl _), ?_⟩
          rw [List.map_append, hmacs]
          rfl
      · have hskip : (!leased mac || assigned mac) = true := by
          revert hp
          cases leased mac <;> cases assigned mac <;> decide
        rw [List.filter_cons_of_neg (by simpa using hp), List.filter_nil, List.append_nil,
          hskip, Bool.true_or, if_pos rfl]
        exact ⟨stay, hlists, hsub.trans (List.sublist_append_left _ _), hmacs⟩

/-- What the new leases add to a queue: they follow in the order of the file, with the next
numbers. -/
structure Enqueued (added : List WaitingMemory) (before : List Text) (first next : Int) : Prop where
  sorted : added.Pairwise fun a b => a.order < b.order
  above : ∀ entry ∈ added, first ≤ entry.order
  below : ∀ entry ∈ added, entry.order < next
  grows : first ≤ next
  new : ∀ entry ∈ added, entry.mac ∉ before

theorem new_queue {assigned leased : Text → Bool} (now : Int) {queue : OrderedMap Text WaitingMemory}
    {stay : List WaitingMemory} (hlists : Lists queue stay) {before : List Text}
    (hstay : stay.map WaitingMemory.mac =
      (before.filter fun mac => leased mac && !assigned mac).eraseDups)
    (first : Int) (macs : List Text) (hleased : ∀ mac ∈ macs, leased mac = true) :
    ∃ added, Lists (macs.foldl (enqueueStep assigned now) (queue, first)).1 (stay ++ added) ∧
      (stay ++ added).map WaitingMemory.mac =
        ((before ++ macs).filter fun mac => leased mac && !assigned mac).eraseDups ∧
      Enqueued added before first (macs.foldl (enqueueStep assigned now) (queue, first)).2 := by
  induction macs using List.reverseRecOn with
  | nil =>
    refine ⟨[], by simpa using hlists, by simpa using hstay, ?_⟩
    exact ⟨List.Pairwise.nil, by simp, by simp, le_rfl, by simp⟩
  | append_singleton macs mac ih =>
    obtain ⟨added, hlists', hmacs, henqueued⟩ := ih fun m hm => hleased m (List.mem_append_left _ hm)
    have hl : leased mac = true := hleased mac (List.mem_append_right _ List.mem_cons_self)
    rw [List.foldl_append, List.foldl_cons, List.foldl_nil, enqueueStep, ← List.append_assoc,
      List.filter_append]
    by_cases hp : assigned mac = true
    · rw [hp, Bool.true_or, if_pos rfl, List.filter_cons_of_neg (by simp [hp]), List.filter_nil,
        List.append_nil]
      exact ⟨added, hlists', hmacs, henqueued⟩
    · replace hp := Bool.not_eq_true _ |>.mp hp
      rw [List.filter_cons_of_pos (by simp [hp, hl]), List.filter_nil, eraseDups_snoc]
      by_cases hmem : mac ∈ (stay ++ added).map WaitingMemory.mac
      · have hhas : (macs.foldl (enqueueStep assigned now) (queue, first)).1.has mac = true :=
          OrderedMap.has_iff.mpr (hlists'.keys ▸ hmem)
        rw [hhas, Bool.or_true, if_pos rfl, if_pos (List.mem_eraseDups.mp (hmacs ▸ hmem))]
        exact ⟨added, hlists', hmacs, henqueued⟩
      · have hhas : (macs.foldl (enqueueStep assigned now) (queue, first)).1.has mac = false := by
          rw [← Bool.not_eq_true, OrderedMap.has_iff, hlists'.keys]
          exact hmem
        have hnone := fun hold => hmem (hmacs ▸ List.mem_eraseDups.mpr hold)
        rw [hhas, hp, Bool.or_false, if_neg Bool.false_ne_true, if_neg hnone]
        set next := (macs.foldl (enqueueStep assigned now) (queue, first)).2
        set entry : WaitingMemory := ⟨mac, now, next⟩ with hentry
        refine ⟨added ++ [entry], ?_, ?_, ?_⟩
        · have hset : Lists _ ((stay ++ added) ++ [entry]) := hlists'.set hhas
          rw [← List.append_assoc]
          exact hset
        · rw [← List.append_assoc, List.map_append, hmacs]
          rfl
        · have hgrows := henqueued.grows
          refine ⟨List.pairwise_append.mpr ⟨henqueued.sorted, List.pairwise_singleton _ _,
            fun a ha b hb => ?_⟩, ?_, ?_, by dsimp only; omega, ?_⟩
          · rw [List.mem_singleton.mp hb]
            exact henqueued.below a ha
          · exact List.forall_mem_append.mpr ⟨henqueued.above, by simpa [hentry] using hgrows⟩
          · refine List.forall_mem_append.mpr ⟨fun a ha => ?_, by simp [hentry]⟩
            have hbelow := henqueued.below a ha
            dsimp only
            omega
          · refine List.forall_mem_append.mpr ⟨henqueued.new, ?_⟩
            rw [List.forall_mem_singleton]
            intro hbefore
            exact hnone (List.mem_filter.mpr ⟨List.mem_append_left _ hbefore, by simp [hp, hl]⟩)

/-- A queue memory with numbers of its own for its entries, below the next one. -/
structure QueueSound (memory : PlannerMemory) : Prop where
  distinct : (memory.waiting.map WaitingMemory.order).Nodup
  below : ∀ entry ∈ memory.waiting, entry.order < memory.nextOrder

theorem QueueSound.clone (h : ∀ memory, input.memory = some memory → QueueSound memory) :
    QueueSound input.oldMemory := by
  rw [ReconcileInput.oldMemory, clonePlannerMemory]
  cases hmemory : input.memory with
  | none => exact ⟨List.nodup_nil, fun _ h => by cases h⟩
  | some memory =>
    obtain ⟨hdistinct, hbelow⟩ := h memory hmemory
    refine ⟨hdistinct, fun entry he => ?_⟩
    have hlt := hbelow entry he
    simp only [Option.getD_some]
    split <;> omega

/-- The entries that wait, in the order of their numbers. -/
structure QueueSpec (input : ReconcileInput) (subnet : ParsedSubnet)
    (stay added : List WaitingMemory) : Prop where
  lists : Lists (queuePass input subnet).1 (stay ++ added)
  macs : (stay ++ added).map WaitingMemory.mac = waitingMacs input subnet
  stays : stay.Sublist (previousQueue input)
  enqueued : Enqueued added ((previousQueue input).map WaitingMemory.mac) input.oldMemory.nextOrder
    (queuePass input subnet).2

theorem queue_spec (input : ReconcileInput) (subnet : ParsedSubnet) :
    ∃ stay added, QueueSpec input subnet stay added := by
  obtain ⟨stay, hlists, hsub, hmacs⟩ := old_queue (currentLeases input subnet).has
    (remapPass input subnet).assignments.has
    (input.oldMemory.waiting.insertionSort fun a b => waitingBefore a b = true)
  obtain ⟨added, hall, hallMacs, henqueued⟩ := new_queue input.now hlists hmacs
    input.oldMemory.nextOrder (leasedInOrder input subnet) fun mac hmac => by
      obtain ⟨e, he, rfl⟩ := List.mem_map.mp hmac
      exact OrderedMap.has_iff.mpr
        (List.mem_map_of_mem ((List.perm_insertionSort _ _).mem_iff.mp he))
  exact ⟨stay, added, hall, hallMacs, hsub, henqueued⟩

theorem order_of_previous {entry : WaitingMemory} {queued : WaitingMemory}
    (h : (normalizedMac entry.mac).map (fun mac => { entry with mac }) = some queued) :
    queued.order = entry.order := by
  obtain ⟨mac, -, rfl⟩ := Option.map_eq_some_iff.mp h
  rfl

instance : Std.Total fun a b : WaitingMemory => waitingBefore a b = true :=
  ⟨fun a b => by simp only [waitingBefore, decide_eq_true_eq]; omega⟩

instance : IsTrans WaitingMemory fun a b => waitingBefore a b = true :=
  ⟨fun a b c => by simp only [waitingBefore, decide_eq_true_eq]; omega⟩

theorem previousQueue_sorted (h : QueueSound input.oldMemory) :
    (previousQueue input).Pairwise (fun a b => a.order < b.order) ∧
      ∀ entry ∈ previousQueue input, entry.order < input.oldMemory.nextOrder := by
  set old := input.oldMemory.waiting.insertionSort fun a b => waitingBefore a b = true
  have hperm : old.Perm input.oldMemory.waiting := List.perm_insertionSort _ _
  have hne : old.Pairwise fun a b => a.order ≠ b.order :=
    List.pairwise_map.mp ((hperm.map WaitingMemory.order).nodup_iff.mpr h.distinct)
  have hle : old.Pairwise fun a b => waitingBefore a b = true := List.pairwise_insertionSort _ _
  have hlt : old.Pairwise fun a b => a.order < b.order := (hle.and hne).imp fun hab => by
    have hle := of_decide_eq_true hab.1
    have hne := hab.2
    omega
  constructor
  · refine List.pairwise_filterMap.mpr (hlt.imp fun {a b} hab x hx y hy => ?_)
    rw [order_of_previous hx, order_of_previous hy]
    exact hab
  · intro entry he
    obtain ⟨source, hs, hx⟩ := List.mem_filterMap.mp he
    rw [order_of_previous hx]
    exact h.below source (hperm.mem_iff.mp hs)

theorem QueueSpec.sorted {stay added : List WaitingMemory} (h : QueueSpec input subnet stay added)
    (hqueue : QueueSound input.oldMemory) :
    (stay ++ added).Pairwise (fun a b => a.order < b.order) ∧
      ∀ entry ∈ stay ++ added, entry.order < (queuePass input subnet).2 := by
  obtain ⟨hsorted, hbelow⟩ := previousQueue_sorted hqueue
  have hgrows := h.enqueued.grows
  refine ⟨List.pairwise_append.mpr ⟨hsorted.sublist h.stays, h.enqueued.sorted, fun a ha b hb => ?_⟩,
    List.forall_mem_append.mpr ⟨fun a ha => ?_, h.enqueued.below⟩⟩
  · have hlow := hbelow a (h.stays.subset ha)
    have hhigh := h.enqueued.above b hb
    omega
  · have hlow := hbelow a (h.stays.subset ha)
    omega

/-- Sorting the queue by its numbers changes nothing. -/
theorem sort_eq {l : List WaitingMemory} (h : l.Pairwise fun a b => a.order < b.order) :
    (l.insertionSort fun a b => waitingBefore a b = true) = l :=
  List.Pairwise.insertionSort_eq (h.imp fun hab => decide_eq_true hab.le)

/-! ### The order of the requests -/

/-- The forced clients, and those that left a WAN in error. -/
def priorityMacs (input : ReconcileInput) (subnet : ParsedSubnet) : List Text :=
  (remapPass input subnet).priority.map ForcedReassign.mac

/-- The clients that wait for their turn: neither held nor ahead of the queue. -/
def fifo (input : ReconcileInput) (subnet : ParsedSubnet) : List Text :=
  (waitingMacs input subnet).filter fun mac =>
    decide (mac ∉ held input) && decide (mac ∉ priorityMacs input subnet)

/-- Requests that name each client once are taken unless the client is held or has asked. -/
theorem foldl_requestStep_queue (requests state : List ForcedReassign)
    (hn : (requests.map ForcedReassign.mac).Nodup) :
    requests.foldl (requestStep input) state = state ++ requests.filter fun request =>
      decide (request.mac ∉ held input) && decide (request.mac ∉ state.map ForcedReassign.mac) := by
  induction requests generalizing state with
  | nil => simp
  | cons r requests ih =>
    obtain ⟨hne, hn⟩ := List.nodup_cons.mp hn
    rw [List.foldl_cons, requestStep]
    by_cases hskip : r.mac ∈ held input ∨ r.mac ∈ state.map ForcedReassign.mac
    · rw [if_pos hskip, ih state hn, List.filter_cons_of_neg]
      rw [Bool.and_eq_true, decide_eq_true_eq, decide_eq_true_eq, not_and_or, not_not, not_not]
      exact hskip
    · rw [if_neg hskip, ih _ hn, List.append_assoc, List.filter_cons_of_pos]
      · congr 2
        rw [List.singleton_append, List.cons.injEq, eq_self, true_and]
        refine List.filter_congr fun s hs => ?_
        have hother : s.mac ≠ r.mac := fun heq => hne (heq ▸ List.mem_map_of_mem hs)
        simp [hother]
      · simpa [not_or] using hskip

theorem mem_foldl_requestStep (requests state : List ForcedReassign) (mac : Text) :
    mac ∈ (requests.foldl (requestStep input) state).map ForcedReassign.mac ↔
      mac ∈ state.map ForcedReassign.mac ∨
        (mac ∈ requests.map ForcedReassign.mac ∧ mac ∉ held input) := by
  induction requests generalizing state with
  | nil => simp
  | cons r requests ih =>
    rw [List.foldl_cons, ih, List.map_cons, List.mem_cons, requestStep]
    split_ifs with hskip
    · constructor
      · rintro (hold | ⟨hmem, hheld⟩)
        · exact .inl hold
        · exact .inr ⟨.inr hmem, hheld⟩
      · rintro (hold | ⟨rfl | hmem, hheld⟩)
        · exact .inl hold
        · exact .inl (hskip.resolve_left hheld)
        · exact .inr ⟨hmem, hheld⟩
    · rw [not_or] at hskip
      rw [List.map_append, List.mem_append, List.map_singleton, List.mem_singleton]
      constructor
      · rintro ((hold | rfl) | ⟨hmem, hheld⟩)
        · exact .inl hold
        · exact .inr ⟨.inl rfl, hskip.1⟩
        · exact .inr ⟨.inr hmem, hheld⟩
      · rintro (hold | ⟨rfl | hmem, hheld⟩)
        · exact .inl (.inl hold)
        · exact .inl (.inr rfl)
        · exact .inr ⟨hmem, hheld⟩

theorem waitingMacs_nodup : (waitingMacs input subnet).Nodup := nodup_eraseDups _

theorem mem_waitingMacs {mac : Text} : mac ∈ waitingMacs input subnet ↔
    (currentLeases input subnet).has mac = true ∧
      mac ∉ (remapPass input subnet).assignments.keys := by
  have hassigned : (!(remapPass input subnet).assignments.has mac) = true ↔
      mac ∉ (remapPass input subnet).assignments.keys := by
    rw [Bool.not_eq_true', ← OrderedMap.has_iff, Bool.not_eq_true]
  rw [waitingMacs, List.mem_eraseDups, List.mem_filter, unserved, Bool.and_eq_true, hassigned,
    List.mem_append]
  constructor
  · exact fun h => h.2
  · rintro ⟨hleased, hfree⟩
    refine ⟨.inr ?_, hleased, hfree⟩
    obtain ⟨e, he, rfl⟩ := List.mem_map.mp (OrderedMap.has_iff.mp hleased)
    exact List.mem_map_of_mem ((List.perm_insertionSort _ _).mem_iff.mpr he)

/-- The priority requests come first, the queue follows in its order. -/
theorem allocationOrder_macs (subnet : ParsedSubnet) (hqueue : QueueSound input.oldMemory) :
    ∃ first : List Text, (allocationOrder input subnet).map ForcedReassign.mac =
        first ++ fifo input subnet ∧
      ∀ mac ∈ waitingMacs input subnet, mac ∉ held input →
        (mac ∈ first ↔ mac ∈ priorityMacs input subnet) := by
  obtain ⟨stay, added, hspec⟩ := queue_spec input subnet
  have hsorted := (hspec.sorted hqueue).1
  have hvalues : ((queuePass input subnet).1.values.insertionSort
      fun a b => waitingBefore a b = true) = stay ++ added := by
    rw [hspec.lists.values, sort_eq hsorted]
  set priority := (remapPass input subnet).priority.filter fun request =>
    (currentLeases input subnet).has request.mac with hpriority
  set first := priority.foldl (requestStep input) [] with hfirst
  set requests := (stay ++ added).map fun entry => (⟨entry.mac, none⟩ : ForcedReassign) with hrequests
  have hmacs : requests.map ForcedReassign.mac = waitingMacs input subnet := by
    rw [hrequests, List.map_map, ← hspec.macs]
    rfl
  have horder : allocationOrder input subnet = requests.foldl (requestStep input) first := by
    rw [allocationOrder, hvalues, List.foldl_append]
  have hahead : ∀ mac ∈ waitingMacs input subnet, mac ∉ held input →
      (mac ∈ first.map ForcedReassign.mac ↔ mac ∈ priorityMacs input subnet) := by
    intro mac hmac hheld
    rw [hfirst, mem_foldl_requestStep, priorityMacs]
    constructor
    · rintro (hnone | ⟨hmem, -⟩)
      · cases hnone
      · obtain ⟨r, hr, rfl⟩ := List.mem_map.mp hmem
        exact List.mem_map_of_mem (List.mem_of_mem_filter hr)
    · intro hmem
      obtain ⟨r, hr, rfl⟩ := List.mem_map.mp hmem
      exact .inr ⟨List.mem_map_of_mem (List.mem_filter.mpr ⟨hr, (mem_waitingMacs.mp hmac).1⟩), hheld⟩
  refine ⟨first.map ForcedReassign.mac, ?_, hahead⟩
  have hfifo : fifo input subnet = (requests.filter fun request => decide (request.mac ∉ held input) &&
      decide (request.mac ∉ priorityMacs input subnet)).map ForcedReassign.mac := by
    rw [fifo, ← hmacs]
    exact List.filter_map
  rw [horder, foldl_requestStep_queue _ _ (hmacs ▸ waitingMacs_nodup), List.map_append, hfifo]
  refine congrArg (fun rest => first.map ForcedReassign.mac ++ List.map ForcedReassign.mac rest)
    (List.filter_congr fun r hr => ?_)
  have hwaits : r.mac ∈ waitingMacs input subnet := hmacs ▸ List.mem_map_of_mem hr
  by_cases hheld : r.mac ∈ held input
  · simp [hheld]
  · simp only [hheld, not_false_eq_true, decide_true, Bool.true_and, hahead r.mac hwaits hheld]

/-! ### Leases -/

/-- A row of the lease file that stands for a client of the LAN now. -/
def ActiveRow (input : ReconcileInput) (subnet : ParsedSubnet) (mac : Text) (lease : Lease) : Prop :=
  normalizedMac lease.mac = some mac ∧ subnetContains subnet lease.ip = true ∧
    activeLease lease input.now = true

theorem leaseStep_keys {leases : OrderedMap Text CurrentLease} {row : Lease × Nat} {mac : Text} :
    mac ∈ (leaseStep subnet input.now leases row).keys ↔
      mac ∈ leases.keys ∨ ActiveRow input subnet mac row.1 := by
  obtain ⟨lease, index⟩ := row
  simp only [leaseStep, ActiveRow]
  cases hmac : normalizedMac lease.mac with
  | none => simp
  | some owner =>
    dsimp only
    by_cases hactive : (subnetContains subnet lease.ip && activeLease lease input.now) = true
    · rw [if_pos hactive]
      obtain ⟨hip, hnow⟩ := Bool.and_eq_true _ _ |>.mp hactive
      have hown : mac ∈ leases.keys ∨ owner = mac ↔ mac = owner ∨ mac ∈ leases.keys := by
        rw [or_comm, eq_comm]
      simp only [hip, hnow, and_true, Option.some_inj, hown]
      cases hold : leases.get? owner with
      | none => exact OrderedMap.mem_keys_set
      | some old =>
        dsimp only
        split_ifs
        · exact OrderedMap.mem_keys_set
        · have hin : owner ∈ leases.keys :=
            OrderedMap.mem_keys.mpr ⟨old, OrderedMap.get?_eq_some.mp hold⟩
          exact ⟨.inr, fun h => h.elim (fun heq => heq ▸ hin) id⟩
    · rw [if_neg hactive]
      refine ⟨.inl, fun h => h.resolve_right fun hrow => hactive ?_⟩
      rw [hrow.2.1, hrow.2.2]
      rfl

/-- The leased clients are those with an active row. -/
theorem leased_iff {mac : Text} : (currentLeases input subnet).has mac = true ↔
    ∃ lease ∈ input.leases, ActiveRow input subnet mac lease := by
  have hrows : ∀ (rows : List (Lease × Nat)) (leases : OrderedMap Text CurrentLease),
      mac ∈ (rows.foldl (leaseStep subnet input.now) leases).keys ↔
        mac ∈ leases.keys ∨ ∃ row ∈ rows, ActiveRow input subnet mac row.1 := by
    intro rows
    induction rows with
    | nil => simp
    | cons row rows ih =>
      intro leases
      rw [List.foldl_cons, ih, leaseStep_keys, List.exists_mem_cons_iff, or_assoc]
  rw [OrderedMap.has_iff, currentLeases, hrows]
  have hempty : mac ∉ (OrderedMap.empty : OrderedMap Text CurrentLease).keys := List.not_mem_nil
  rw [or_iff_right hempty]
  constructor
  · rintro ⟨row, hrow, hactive⟩
    exact ⟨row.1, (List.mem_zipIdx' hrow).2 ▸ List.getElem_mem _, hactive⟩
  · rintro ⟨lease, hl, hactive⟩
    obtain ⟨i, hi⟩ := List.mem_iff_getElem?.mp hl
    exact ⟨(lease, i), List.mem_zipIdx_iff_getElem?.mpr hi, hactive⟩

end BoredManager.OpenWrt.Planner

namespace BoredManager.OpenWrt
open BoredManager.Js Planner

/-- The result binds the client to a WAN. -/
def Bound (input : ReconcileInput) (mac : Text) : Prop :=
  ∃ d ∈ (planBindingReconciliation input).desired, d.mac = some mac

/-- The client has an active lease of the LAN. -/
def Leased (input : ReconcileInput) (subnet : ParsedSubnet) (mac : Text) : Prop :=
  ∃ lease ∈ input.leases, ActiveRow input subnet mac lease

structure FifoAllocation (input : ReconcileInput) (subnet : ParsedSubnet) : Prop where
  conserving : ∀ row ∈ (planBindingReconciliation input).waiting, row.mac ∉ held input →
    ∀ wan ∈ input.wans, wanUsable wan input.policy.wanWarnUptimeSec = true →
      ∃ d ∈ (planBindingReconciliation input).desired, d.wan = wan.name
  first : ∃ served rest, fifo input subnet = served ++ rest ∧ (∀ mac ∈ served, Bound input mac) ∧
    ∀ mac ∈ rest, ¬Bound input mac
  waiting : ∀ mac, mac ∈ (planBindingReconciliation input).memory.waiting.map WaitingMemory.mac ↔
    Leased input subnet mac ∧ ¬Bound input mac
  once : ((planBindingReconciliation input).memory.waiting.map WaitingMemory.mac).Nodup
  rows : (planBindingReconciliation input).waiting.map WaitingRow.mac =
    (planBindingReconciliation input).memory.waiting.map WaitingMemory.mac
  extension : ∃ stay added, (planBindingReconciliation input).memory.waiting = stay ++ added ∧
    stay.Sublist (previousQueue input) ∧
    ∀ entry ∈ added, entry.mac ∉ (previousQueue input).map WaitingMemory.mac
  order : (planBindingReconciliation input).memory.waiting.Pairwise fun a b => a.order < b.order
  below : ∀ entry ∈ (planBindingReconciliation input).memory.waiting,
    entry.order < (planBindingReconciliation input).memory.nextOrder

section
variable {input : ReconcileInput} {subnet : ParsedSubnet}

theorem bound_iff_desired (hparse : parseCidr input.lanCidr = some subnet) {mac : Text} :
    Bound input mac ↔ ∃ d ∈ desired input subnet, d.mac = some mac := by
  rw [Bound, planBinding_of_parsed hparse, planOn_desired]

theorem desiredByMac_has {mac : Text} : (desiredByMac input subnet).has mac = true ↔
    ∃ d ∈ desired input subnet, d.mac = some mac := by
  rw [OrderedMap.has_iff, desiredByMac, OrderedMap.mem_keys_ofList, List.map_filterMap,
    List.mem_filterMap]
  refine exists_congr fun d => and_congr_right fun _ => ?_
  cases d.mac <;> simp

/-- A client without an assignment is not served by a rule of its own. -/
theorem kept_of_unbound (hrun : input.instance_.running = true) (henough : EnoughPrefs input subnet)
    {mac : Text} (h : ¬∃ d ∈ desired input subnet, d.mac = some mac) :
    mac ∉ (remapPass input subnet).assignments.keys := fun hk =>
  h ((bound_iff_allocated hrun henough).mpr (by
    rw [allocated_keys hrun]
    exact List.mem_append_left _ hk))

end

/-- Three clients, two of them from an old queue, and two WANs. -/
def crowdedInput : ReconcileInput := {
  quietInput with
  leases := quietInput.leases ++ [⟨0, js "00:11:22:33:44:77", js "192.168.10.4", js "laptop"⟩]
  wans := [upWan (js "pd00001") 10001, upWan (js "pd00002") 10002]
  memory := some { emptyPlannerMemory with
    waiting := [⟨js "00:11:22:33:44:77", 900000000, 2⟩, ⟨js "00:11:22:33:44:66", 900000000, 1⟩]
    nextOrder := 3 } }

end BoredManager.OpenWrt
