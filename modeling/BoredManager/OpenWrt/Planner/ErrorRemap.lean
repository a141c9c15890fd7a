import BoredManager.OpenWrt.Planner.Passes
import BoredManager.OpenWrt.Planner.OneToOne

/-! The error remap: which clients leave their WAN, what the requests before them
take from the pool, and when each of them gets a new WAN. -/
namespace BoredManager.OpenWrt.Planner
open BoredManager.Js

section
variable (input : ReconcileInput) (subnet : ParsedSubnet)

/-! ### What is on the table before anyone leaves -/

def initiallyFree : List PlannerWan := freeWansOf input (preservePass input subnet).usedWans

/-- The longest outages leave first, one client for each free WAN. -/
def leaving : List (Text × WorkingAssignment) :=
  if input.instance_.running && input.instance_.remap then
    (remapCandidates input subnet).take (initiallyFree input subnet).length
  else []

def leavingMacs : List Text := (leaving input subnet).map Prod.fst

/-- The forced requests that are served: they come before the clients that leave. -/
def forcedFirst : List ForcedReassign :=
  (forced input).values.filter fun request =>
    (currentLeases input subnet).has request.mac && decide (request.mac ∉ held input)

def staying : List WorkingAssignment :=
  ((preservePass input subnet).assignments.entries.filter fun e =>
    decide (e.1 ∉ leavingMacs input subnet)).map Prod.snd

/-- The preferences that stay with a rule are set aside, those of unknown clients
first. -/
def prefsAside : List Nat × List WorkingAssignment :=
  keepPrefs (keepPrefs (availablePrefs input subnet)
    (orphanPass input subnet).opaqueAssignments).1 (staying input subnet)

/-- The staying clients whose preference another rule holds. -/
def prefsWanted : Nat := (prefsAside input subnet).2.countP fun a => a.pref.isNone

end

variable {input : ReconcileInput} {subnet : ParsedSubnet}

/-! ### The clients that leave -/

theorem remapLoop_priority (capacity : Nat) (candidates : List (Text × WorkingAssignment))
    (state : RemapPass) : (remapLoop capacity candidates state).priority =
      state.priority ++ (candidates.take capacity).map fun e => ⟨e.1, some e.2.wan⟩ := by
  induction candidates generalizing capacity state with
  | nil => cases capacity <;> simp [remapLoop]
  | cons e candidates ih =>
    cases capacity with
    | zero => simp [remapLoop]
    | succ capacity => simp [remapLoop, ih]

theorem remapLoop_usedWans (capacity : Nat) (candidates : List (Text × WorkingAssignment))
    (state : RemapPass) (name : Text) : name ∈ (remapLoop capacity candidates state).usedWans ↔
      name ∈ state.usedWans ∧ ∀ e ∈ candidates.take capacity, e.2.wan ≠ name := by
  induction candidates generalizing capacity state with
  | nil => cases capacity <;> simp [remapLoop]
  | cons e candidates ih =>
    cases capacity with
    | zero => simp [remapLoop]
    | succ capacity =>
      simp only [remapLoop, ih, List.mem_filter, decide_eq_true_eq, List.take_succ_cons,
        List.forall_mem_cons, and_assoc, ne_comm]

theorem remapLoop_entries (capacity : Nat) (candidates : List (Text × WorkingAssignment))
    (state : RemapPass) : (remapLoop capacity candidates state).assignments.entries =
      state.assignments.entries.filter fun e =>
        decide (e.1 ∉ (candidates.take capacity).map Prod.fst) := by
  induction candidates generalizing capacity state with
  | nil => cases capacity <;> simp [remapLoop]
  | cons c candidates ih =>
    cases capacity with
    | zero => simp [remapLoop]
    | succ capacity =>
      simp only [remapLoop, ih, OrderedMap.erase, List.filter_filter, List.take_succ_cons,
        List.map_cons, List.mem_cons, not_or]
      refine List.filter_congr fun e _ => ?_
      rw [Bool.and_comm, ← Bool.decide_and]

theorem remapPass_priority : (remapPass input subnet).priority = (forced input).values ++
    (leaving input subnet).map fun e => ⟨e.1, some e.2.wan⟩ := by
  simp only [remapPass, leaving]
  split
  · exact remapLoop_priority _ _ _
  · simp

theorem remapPass_entries : (remapPass input subnet).assignments.entries =
    (preservePass input subnet).assignments.entries.filter fun e =>
      decide (e.1 ∉ leavingMacs input subnet) := by
  simp only [remapPass, leavingMacs, leaving]
  split
  · exact remapLoop_entries _ _ _
  · simp

theorem remapPass_values : (remapPass input subnet).assignments.values = staying input subnet := by
  rw [OrderedMap.values, remapPass_entries, staying]

theorem mem_remapPass_usedWans (name : Text) : name ∈ (remapPass input subnet).usedWans ↔
    name ∈ (preservePass input subnet).usedWans ∧ ∀ e ∈ leaving input subnet, e.2.wan ≠ name := by
  simp only [remapPass, leaving]
  split
  · exact remapLoop_usedWans _ _ _ name
  · simp

theorem leaving_subset {e : Text × WorkingAssignment} (h : e ∈ leaving input subnet) :
    e ∈ remapCandidates input subnet := by
  simp only [leaving] at h
  split at h
  · exact List.mem_of_mem_take h
  · cases h

theorem leavingMacs_nodup : (leavingMacs input subnet).Nodup := by
  simp only [leavingMacs, leaving]
  split
  · exact remapCandidates_nodup.sublist ((List.take_sublist _ _).map _)
  · exact List.nodup_nil

/-- The clients that leave are those whose assignment the remap takes away. -/
theorem mem_leaving {e : Text × WorkingAssignment} : e ∈ leaving input subnet ↔
    e ∈ (preservePass input subnet).assignments.entries ∧
      e.1 ∉ (remapPass input subnet).assignments.keys := by
  have hkeys : e.1 ∈ (remapPass input subnet).assignments.keys ↔
      ∃ f ∈ (preservePass input subnet).assignments.entries,
        f.1 ∉ leavingMacs input subnet ∧ f.1 = e.1 := by
    simp only [OrderedMap.keys, remapPass_entries, List.mem_map, List.mem_filter,
      decide_eq_true_eq, and_assoc]
  constructor
  · intro h
    refine ⟨(mem_remapCandidates.mp (leaving_subset h)).1, fun hk => ?_⟩
    obtain ⟨f, -, hf, heq⟩ := hkeys.mp hk
    exact hf (heq ▸ List.mem_map_of_mem h)
  · rintro ⟨hmem, hk⟩
    by_contra hne
    refine hk (hkeys.mpr ⟨e, hmem, fun hin => hne ?_, rfl⟩)
    obtain ⟨f, hf, heq⟩ := List.mem_map.mp hin
    -- one assignment for each client
    have hsame : f = e := List.inj_on_of_nodup_map (preservePass input subnet).assignments.nodup
      (mem_remapCandidates.mp (leaving_subset hf)).1 hmem heq
    exact hsame ▸ hf

/-- A WAN that clients leave is in error, so it is not one of the free WANs. -/
theorem freeWans_remapPass (hnames : (input.wans.map PlannerWan.name).Nodup) :
    freeWansOf input (remapPass input subnet).usedWans = initiallyFree input subnet := by
  refine List.filter_congr fun wan hwan => ?_
  cases husable : wanUsable wan input.policy.wanWarnUptimeSec with
  | false => rfl
  | true =>
    have hstate : wanState wan input.policy.wanWarnUptimeSec ≠ .error := by
      rw [wanUsable_iff.mp husable]
      exact fun h => by cases h
    have hleft : ∀ e ∈ leaving input subnet, e.2.wan ≠ wan.name := fun e he heq => by
      have hover := (mem_remapCandidates.mp (leaving_subset he)).2
      rw [not_overdue_of_state hnames hwan heq.symm hstate] at hover
      cases hover
    simp only [mem_remapPass_usedWans, and_iff_left hleft]

/-! ### The order of the requests -/

theorem foldl_requestStep (requests state : List ForcedReassign)
    (hn : ((state ++ requests).map ForcedReassign.mac).Nodup) :
    requests.foldl (requestStep input) state =
      state ++ requests.filter fun request => decide (request.mac ∉ held input) := by
  induction requests generalizing state with
  | nil => simp
  | cons r requests ih =>
    have hfresh : r.mac ∉ state.map ForcedReassign.mac := fun h => by
      rw [List.map_append, List.map_cons] at hn
      exact (List.nodup_append.mp hn).2.2 _ h _ List.mem_cons_self rfl
    rw [List.foldl_cons]
    by_cases hheld : r.mac ∈ held input
    · rw [requestStep, if_pos (.inl hheld), ih state, List.filter_cons_of_neg (by simpa using hheld)]
      refine hn.sublist ?_
      exact ((List.sublist_cons_self r requests).append_left state).map _
    · rw [requestStep, if_neg (by simp [hheld, hfresh]), ih (state ++ [r]) (by simpa using hn),
        List.filter_cons_of_pos (by simpa using hheld), List.append_assoc]
      rfl

/-- Later requests only add to the order. -/
theorem requestStep_extends (input : ReconcileInput) (requests state : List ForcedReassign)
    (hn : (state.map ForcedReassign.mac).Nodup) :
    ∃ added : List ForcedReassign, requests.foldl (requestStep input) state = state ++ added ∧
      (∀ r ∈ added, r ∈ requests) ∧ ((state ++ added).map ForcedReassign.mac).Nodup := by
  induction requests generalizing state with
  | nil => exact ⟨[], by simp, by simp, by simpa using hn⟩
  | cons r requests ih =>
    rw [List.foldl_cons, requestStep]
    split
    · obtain ⟨added, heq, hsub, hnodup⟩ := ih state hn
      exact ⟨added, heq, fun s hs => List.mem_cons_of_mem _ (hsub s hs), hnodup⟩
    · rename_i hfresh
      rw [not_or] at hfresh
      have hn' : ((state ++ [r]).map ForcedReassign.mac).Nodup := by
        rw [List.map_append, List.map_singleton, ← List.concat_eq_append]
        exact hn.concat hfresh.2
      obtain ⟨added, heq, hsub, hnodup⟩ := ih (state ++ [r]) hn'
      refine ⟨r :: added, by rw [heq, List.append_assoc]; rfl, fun s hs => ?_, by simpa using hnodup⟩
      rcases List.mem_cons.mp hs with rfl | hs
      · exact List.mem_cons_self
      · exact List.mem_cons_of_mem _ (hsub s hs)

theorem mac_of_forced {e : Text × ForcedReassign} (h : e ∈ (forced input).entries) :
    e.2.mac = e.1 := by
  obtain ⟨mac, request⟩ := e
  have hget := OrderedMap.mem_of_get?_ofList (OrderedMap.get?_eq_some.mpr h)
  obtain ⟨entry, -, heq⟩ := List.mem_filterMap.mp hget
  obtain ⟨m, -, heq⟩ := Option.map_eq_some_iff.mp heq
  cases heq
  rfl

theorem forced_macs : (forced input).values.map ForcedReassign.mac = (forced input).keys := by
  rw [OrderedMap.values, OrderedMap.keys, List.map_map]
  exact List.map_congr_left fun e he => mac_of_forced he

theorem preserved_free {mac : Text} (h : mac ∈ (preservePass input subnet).assignments.keys) :
    mac ∉ (forced input).keys ∧ mac ∉ held input := by
  obtain ⟨a, ha⟩ := OrderedMap.mem_keys.mp h
  obtain ⟨entry, -, hpre⟩ := preservePass_sources.assignments _ ha
  obtain ⟨-, hheld, hforced, -⟩ := preservedBy_eq_some hpre
  refine ⟨fun hk => ?_, hheld⟩
  rw [OrderedMap.has_iff.mpr hk] at hforced
  cases hforced

theorem leaving_preserved {mac : Text} (h : mac ∈ leavingMacs input subnet) :
    mac ∈ (preservePass input subnet).assignments.keys := by
  obtain ⟨e, he, rfl⟩ := List.mem_map.mp h
  exact List.mem_map_of_mem (mem_leaving.mp he).1

theorem remapPass_keys {mac : Text} (h : mac ∈ (remapPass input subnet).assignments.keys) :
    mac ∈ (preservePass input subnet).assignments.keys ∧ mac ∉ leavingMacs input subnet := by
  obtain ⟨a, ha⟩ := OrderedMap.mem_keys.mp h
  rw [remapPass_entries] at ha
  obtain ⟨hmem, hleft⟩ := List.mem_filter.mp ha
  exact ⟨List.mem_map_of_mem hmem, of_decide_eq_true hleft⟩

/-- Who waits has a lease and no assignment. -/
theorem mem_queuePass {entry : WaitingMemory} (h : entry ∈ (queuePass input subnet).1.values) :
    (currentLeases input subnet).has entry.mac = true ∧
      (remapPass input subnet).assignments.has entry.mac = false := by
  let Good := fun (queue : OrderedMap Text WaitingMemory) => ∀ entry ∈ queue.values,
    (currentLeases input subnet).has entry.mac = true ∧
      (remapPass input subnet).assignments.has entry.mac = false
  have hset : ∀ (queue : OrderedMap Text WaitingMemory) (entry : WaitingMemory), Good queue →
      (currentLeases input subnet).has entry.mac = true →
      (remapPass input subnet).assignments.has entry.mac = false →
      Good (queue.set entry.mac entry) := by
    intro queue entry hq hl ha other ho
    obtain ⟨k, hk⟩ := OrderedMap.mem_values.mp ho
    rcases OrderedMap.mem_entries_set.mp hk with heq | ⟨hk, -⟩
    · cases heq
      exact ⟨hl, ha⟩
    · exact hq other (OrderedMap.mem_values.mpr ⟨k, hk⟩)
  have hold : Good ((input.oldMemory.waiting.insertionSort fun a b => waitingBefore a b = true).foldl
      (queueStep (currentLeases input subnet).has (remapPass input subnet).assignments.has) .empty) := by
    refine List.foldlRecOn (motive := Good) _ _ (fun _ h => by cases h) fun queue hq entry _ => ?_
    simp only [queueStep]
    split
    · split
      · exact hq
      · rename_i mac _ hc
        simp only [Bool.or_eq_true, Bool.not_eq_true', not_or, Bool.not_eq_true,
          Bool.not_eq_false] at hc
        exact hset queue { entry with mac } hq hc.1.1 hc.1.2
    · exact hq
  have hnew : Good (queuePass input subnet).1 := by
    refine List.foldlRecOn (motive := fun state : OrderedMap Text WaitingMemory × Int =>
      Good state.1) _ _ hold fun state hq mac hmac => ?_
    simp only [enqueueStep]
    split
    · exact hq
    · rename_i hc
      simp only [Bool.or_eq_true, not_or, Bool.not_eq_true] at hc
      obtain ⟨e, he, rfl⟩ := List.mem_map.mp hmac
      have hleased : e ∈ (currentLeases input subnet).entries :=
        (List.perm_insertionSort _ _).mem_iff.mp he
      exact hset state.1 ⟨e.1, input.now, state.2⟩ hq
        (OrderedMap.has_iff.mpr (List.mem_map_of_mem hleased)) hc.1
  exact hnew entry h

/-- The requests of the clients that leave, and the order of all of them. -/
def leavingRequests (input : ReconcileInput) (subnet : ParsedSubnet) : List ForcedReassign :=
  ((leaving input subnet).map fun e => (⟨e.1, some e.2.wan⟩ : ForcedReassign)).filter fun request =>
    (currentLeases input subnet).has request.mac

theorem allocationOrder_eq (input : ReconcileInput) (subnet : ParsedSubnet) :
    ∃ rest : List ForcedReassign,
    allocationOrder input subnet =
        forcedFirst input subnet ++ leavingRequests input subnet ++ rest ∧
      ((allocationOrder input subnet).map ForcedReassign.mac).Nodup ∧
      ∀ r ∈ allocationOrder input subnet, (currentLeases input subnet).has r.mac = true ∧
        r.mac ∉ (remapPass input subnet).assignments.keys := by
  let leased := fun request : ForcedReassign => (currentLeases input subnet).has request.mac
  have hpriority : (remapPass input subnet).priority.filter leased =
      (forced input).values.filter leased ++ leavingRequests input subnet := by
    rw [remapPass_priority, List.filter_append, leavingRequests]
  have hmacs : ((leaving input subnet).map fun e =>
      (⟨e.1, some e.2.wan⟩ : ForcedReassign)).map ForcedReassign.mac = leavingMacs input subnet := by
    rw [List.map_map, leavingMacs]
    rfl
  have hsub : ((leavingRequests input subnet).map ForcedReassign.mac).Sublist
      (leavingMacs input subnet) := hmacs ▸ List.filter_sublist.map _
  have hforcedSub : (((forced input).values.filter leased).map ForcedReassign.mac).Sublist
      (forced input).keys := forced_macs ▸ List.filter_sublist.map _
  have hleavingFree : ∀ r ∈ leavingRequests input subnet,
      r.mac ∉ (forced input).keys ∧ r.mac ∉ held input := fun r hr =>
    preserved_free (leaving_preserved (hsub.subset (List.mem_map_of_mem hr)))
  have hnodup : (((forced input).values.filter leased ++ leavingRequests input subnet).map
      ForcedReassign.mac).Nodup := by
    rw [List.map_append]
    refine List.nodup_append.mpr ⟨(forced input).nodup.sublist hforcedSub,
      leavingMacs_nodup.sublist hsub, fun a ha b hb heq => ?_⟩
    obtain ⟨r, hr, rfl⟩ := List.mem_map.mp hb
    exact (hleavingFree r hr).1 (heq ▸ hforcedSub.subset ha)
  have hfirst : ((forced input).values.filter leased ++ leavingRequests input subnet).foldl
      (requestStep input) [] = forcedFirst input subnet ++ leavingRequests input subnet := by
    rw [foldl_requestStep _ [] (by simpa using hnodup), List.nil_append, List.filter_append,
      List.filter_filter, forcedFirst]
    congr 1
    · exact List.filter_congr fun r _ => Bool.and_comm ..
    · exact List.filter_eq_self.mpr fun r hr => decide_eq_true (hleavingFree r hr).2
  have hnodupFirst : ((forcedFirst input subnet ++ leavingRequests input subnet).map
      ForcedReassign.mac).Nodup := by
    refine hnodup.sublist (List.Sublist.map _ (List.Sublist.append ?_ (List.Sublist.refl _)))
    exact List.monotone_filter_right _ fun r hr => (Bool.and_eq_true _ _ |>.mp hr).1
  obtain ⟨rest, heq, hfrom, hall⟩ := requestStep_extends input
    (((queuePass input subnet).1.values.insertionSort fun a b => waitingBefore a b = true).map
      fun entry => (⟨entry.mac, none⟩ : ForcedReassign)) _ hnodupFirst
  have horder : allocationOrder input subnet =
      forcedFirst input subnet ++ leavingRequests input subnet ++ rest := by
    rw [allocationOrder, ← heq, ← hfirst, ← hpriority, ← List.foldl_append]
  refine ⟨rest, horder, horder ▸ hall, fun r hr => ?_⟩
  rw [horder, List.mem_append, List.mem_append] at hr
  rcases hr with (hr | hr) | hr
  · obtain ⟨hmem, hc⟩ := List.mem_filter.mp hr
    refine ⟨(Bool.and_eq_true _ _ |>.mp hc).1, fun hk => ?_⟩
    exact (preserved_free (remapPass_keys hk).1).1 (forced_macs ▸ List.mem_map_of_mem hmem)
  · refine ⟨(List.mem_filter.mp hr).2, fun hk => ?_⟩
    exact (remapPass_keys hk).2 (hsub.subset (List.mem_map_of_mem hr))
  · obtain ⟨entry, he, rfl⟩ := List.mem_map.mp (hfrom r hr)
    obtain ⟨hleased, hfree⟩ := mem_queuePass ((List.perm_insertionSort _ _).mem_iff.mp he)
    refine ⟨hleased, fun hk => ?_⟩
    rw [OrderedMap.has_iff.mpr hk] at hfree
    cases hfree

/-! ### The pool -/

theorem selectWan_some (input : ReconcileInput) {freeWans : FreeWanPool} (h : freeWans.values ≠ []) (random : SeededRandom)
    (request : ForcedReassign) : ∃ wan freeWans' random',
      selectWan input freeWans random request = (some (wan, freeWans'), random') := by
  simp only [selectWan]
  split
  · exact ⟨_, _, _, rfl⟩
  · obtain ⟨taken, ht⟩ := Option.isSome_iff_exists.mp
      (FreeWanPool.takeRandom_isSome h random request.avoidWan)
    exact ⟨taken.1, taken.2, _, Prod.ext ht rfl⟩

theorem selectWan_none (input : ReconcileInput) {freeWans : FreeWanPool} (h : freeWans.values = [])
    (random : SeededRandom) (request : ForcedReassign) : (selectWan input freeWans random request).1 = none := by
  cases hs : selectWan input freeWans random request with
  | mk taken random' =>
    cases taken with
    | none => rfl
    | some taken =>
      obtain ⟨wan, freeWans'⟩ := taken
      have hperm := selectWan_perm hs
      rw [h] at hperm
      cases hperm.nil_eq

theorem workingDevice_of_leased {mac : Text} (h : (currentLeases input subnet).has mac = true) :
    ∃ device, workingDevice input subnet mac = some device := by
  obtain ⟨current, hc⟩ := OrderedMap.has_iff_get.mp h
  simp only [workingDevice, hc]
  exact ⟨_, rfl⟩

/-- What a new assignment is: a WAN of the pool, and no preference yet. -/
structure Drawn (pool : List PlannerWan) (e : Text × WorkingAssignment) : Prop where
  pref : e.2.pref = none
  mac : e.2.mac = some e.1
  wan : ∃ wan ∈ pool, wan.name = e.2.wan

/-- Each request takes one WAN, in order, while there is one. -/
theorem allocate_run (hrun : input.instance_.running = true) (requests : List ForcedReassign)
    (state : AllocationState) (hn : (requests.map ForcedReassign.mac).Nodup)
    (hleased : ∀ r ∈ requests, (currentLeases input subnet).has r.mac = true)
    (hfresh : ∀ r ∈ requests, r.mac ∉ state.assignments.keys)
    (htable : ∀ wan ∈ state.freeWans.values, wan.table.isSome = true) :
    ∃ added : List (Text × WorkingAssignment),
      (requests.foldl (allocateStep input subnet) state).assignments.entries =
        state.assignments.entries ++ added ∧
      added.map Prod.fst =
        (requests.take state.freeWans.values.length).map ForcedReassign.mac ∧
      ∀ e ∈ added, Drawn state.freeWans.values e := by
  induction requests generalizing state with
  | nil => exact ⟨[], by simp, by simp, by simp⟩
  | cons r requests ih =>
    obtain ⟨hne, hn⟩ := List.nodup_cons.mp hn
    have hr : r.mac ∉ state.assignments.keys := hfresh r List.mem_cons_self
    have hhas : state.assignments.has r.mac = false := by
      rw [← Bool.not_eq_true, OrderedMap.has_iff]
      exact hr
    obtain ⟨device, hdevice⟩ := workingDevice_of_leased (hleased r List.mem_cons_self)
    have hleased' := fun s hs => hleased s (List.mem_cons_of_mem _ hs)
    have hfresh' := fun s hs => hfresh s (List.mem_cons_of_mem _ hs)
    rw [List.foldl_cons]
    by_cases hpool : state.freeWans.values = []
    · have hstep : (allocateStep input subnet state r).assignments = state.assignments ∧
          (allocateStep input subnet state r).freeWans = state.freeWans := by
        have hnone := selectWan_none input hpool state.random r
        simp only [allocateStep, hrun, hhas, hdevice, Bool.not_true, Bool.or_false]
        cases hs : selectWan input state.freeWans state.random r with
        | mk taken random =>
          rw [hs] at hnone
          cases hnone
          exact ⟨rfl, rfl⟩
      obtain ⟨added, he, hk, hd⟩ := ih (allocateStep input subnet state r) hn hleased'
        (by rw [hstep.1]; exact hfresh') (by rw [hstep.2]; exact htable)
      rw [hstep.1] at he
      rw [hstep.2, hpool] at hk
      rw [hstep.2] at hd
      exact ⟨added, he, by rw [hk, hpool]; rfl, hd⟩
    · obtain ⟨wan, freeWans, random, hs⟩ := selectWan_some input hpool state.random r
      have hperm := selectWan_perm hs
      have hmem : wan ∈ state.freeWans.values := hperm.mem_iff.mpr List.mem_cons_self
      have hsub : ∀ w ∈ freeWans.values, w ∈ state.freeWans.values := fun w hw =>
        hperm.mem_iff.mpr (List.mem_cons_of_mem _ hw)
      obtain ⟨table, ht⟩ := Option.isSome_iff_exists.mp (htable wan hmem)
      have hstep : allocateStep input subnet state r = {
          usedWans := wan.name :: state.usedWans
          assignments := state.assignments.set r.mac
            (assignTo input r.mac device wan table none)
          freeWans, random } := by
        simp [allocateStep, hrun, hhas, hdevice, hs, ht]
      have hentries := OrderedMap.entries_set_of_not_mem hr
        (assignTo input r.mac device wan table none)
      obtain ⟨added, he, hk, hd⟩ := ih (allocateStep input subnet state r) hn hleased'
        (by
          rw [hstep]
          intro s hs hk
          rcases OrderedMap.mem_keys_set.mp hk with heq | hk
          · exact hne (heq ▸ List.mem_map_of_mem hs)
          · exact hfresh' s hs hk)
        (by rw [hstep]; exact fun w hw => htable w (hsub w hw))
      rw [hstep] at he hk hd
      refine ⟨(r.mac, assignTo input r.mac device wan table none) :: added, ?_, ?_, ?_⟩
      · rw [hstep, he, hentries, List.append_assoc]
        rfl
      · rw [hperm.length_eq, List.length_cons, List.take_succ_cons, List.map_cons, List.map_cons, hk]
      · refine List.forall_mem_cons.mpr ⟨⟨rfl, rfl, wan, hmem, rfl⟩, fun e hadded => ?_⟩
        obtain ⟨hp, hm, w, hw, hname⟩ := hd e hadded
        exact ⟨hp, hm, w, hsub w hw, hname⟩

/-! ### The preferences -/

/-- The search has all its preferences before it. -/
structure Ahead (policy : PlannerPolicy) (search : PrefSearch) : Prop where
  nodup : search.available.Nodup
  range : ∀ pref ∈ search.available, search.nextPref ≤ pref ∧ pref < policy.catchAllPrefBase

theorem length_filter_ne {l : List Nat} (hn : l.Nodup) {a : Nat} (ha : a ∈ l) :
    (l.filter (· ≠ a)).length = l.length - 1 := by
  have herase : l.erase a = l.filter (· ≠ a) := by
    rw [hn.erase_eq_filter]
    exact List.filter_congr fun b _ => by by_cases h : b = a <;> simp [h]
  rw [← herase, List.length_erase_of_mem ha]

theorem takePref_ahead {policy : PlannerPolicy} {search : PrefSearch} (h : Ahead policy search) :
    Ahead policy (takePref policy search).2 ∧
      (takePref policy search).2.available.length = search.available.length - 1 ∧
      ((takePref policy search).1.isSome = true ↔ 0 < search.available.length) := by
  simp only [takePref]
  split
  · rename_i pref hf
    obtain ⟨hmem, -, hfirst⟩ := List.find?_range'_eq_some.mp hf
    have hmem : pref ∈ search.available := of_decide_eq_true hmem
    refine ⟨⟨h.nodup.filter _, fun p hp => ?_⟩, length_filter_ne h.nodup hmem, ?_⟩
    · obtain ⟨hp, hne⟩ := List.mem_filter.mp hp
      have hlt : ¬p < pref := fun hlt => by
        have := hfirst p (h.range p hp).1 hlt
        simp [hp] at this
      have hne : p ≠ pref := of_decide_eq_true hne
      exact ⟨by dsimp only; omega, (h.range p hp).2⟩
    · exact iff_of_true rfl (List.length_pos_of_mem hmem)
  · rename_i hf
    have hnil : search.available = [] := List.eq_nil_iff_forall_not_mem.mpr fun p hp => by
      obtain ⟨hlow, hhigh⟩ := h.range p hp
      have := List.find?_range'_eq_none.mp hf p hlow (by omega)
      simp [hp] at this
    simp only [hnil, List.length_nil]
    exact ⟨⟨List.nodup_nil, fun _ hp => by cases hp⟩, by simp⟩

theorem takePrefs_ahead {policy : PlannerPolicy} {search : PrefSearch} (h : Ahead policy search)
    (l : List WorkingAssignment) : Ahead policy (takePrefs policy search l).1 ∧
      (takePrefs policy search l).1.available.length =
        search.available.length - l.countP fun a => a.pref.isNone := by
  induction l generalizing search with
  | nil => exact ⟨h, by simp [takePrefs]⟩
  | cons a l ih =>
    simp only [takePrefs]
    split
    · rename_i pref ha
      rw [List.countP_cons_of_neg (by simp [ha])]
      exact ih h
    · rename_i ha
      obtain ⟨hahead, hlength, -⟩ := takePref_ahead h
      obtain ⟨hl, hleft⟩ := ih hahead
      rw [List.countP_cons_of_pos (by simp [ha])]
      exact ⟨hl, by dsimp only; omega⟩

theorem takePrefs_append (policy : PlannerPolicy) (search : PrefSearch)
    (l r : List WorkingAssignment) : (takePrefs policy search (l ++ r)).2 =
      (takePrefs policy search l).2 ++ (takePrefs policy (takePrefs policy search l).1 r).2 := by
  induction l generalizing search with
  | nil => rfl
  | cons a l ih =>
    simp only [List.cons_append, takePrefs]
    split
    · simp only [ih, List.cons_append]
    · simp only [ih, List.cons_append]

theorem keepPrefs_append (available : List Nat) (l : List WorkingAssignment)
    {r : List WorkingAssignment} (hr : ∀ a ∈ r, a.pref = none) :
    keepPrefs available (l ++ r) = ((keepPrefs available l).1, (keepPrefs available l).2 ++ r) := by
  induction l generalizing available with
  | nil =>
    induction r with
    | nil => rfl
    | cons a r ih =>
      have := ih fun b hb => hr b (List.mem_cons_of_mem _ hb)
      simp only [List.nil_append, keepPrefs, hr a List.mem_cons_self] at this ⊢
      rw [this]
  | cons a l ih =>
    simp only [List.cons_append, keepPrefs]
    split
    · simp only [ih, List.cons_append]
    · split
      · simp only [ih, List.cons_append]
      · simp only [ih, List.cons_append]

theorem keepPrefs_left_sublist (available : List Nat) (l : List WorkingAssignment) :
    (keepPrefs available l).1.Sublist available := by
  induction l generalizing available with
  | nil => exact List.Sublist.refl _
  | cons a l ih =>
    simp only [keepPrefs]
    split
    · exact ih _
    · split
      · exact (ih _).trans List.filter_sublist
      · exact ih _

theorem prefsAside_ahead : Ahead input.policy
    ⟨(prefsAside input subnet).1, input.policy.rulePrefBase⟩ := by
  have hsub : (prefsAside input subnet).1.Sublist (availablePrefs input subnet) :=
    (keepPrefs_left_sublist _ _).trans (keepPrefs_left_sublist _ _)
  refine ⟨(List.nodup_range' 1 |>.filter _).sublist hsub, fun pref hp => ?_⟩
  have := (mem_availablePrefs.mp (hsub.subset hp)).1
  simpa [PlannerPolicy.manages] using this

/-- One client has one place among the placed assignments. -/
theorem placed_eq_of_mac (hnames : (input.wans.map PlannerWan.name).Nodup)
    {a b : WorkingAssignment} {mac : Text} (ha : a ∈ placedAssignments input subnet)
    (hb : b ∈ placedAssignments input subnet) (hma : a.mac = some mac) (hmb : b.mac = some mac) :
    a = b := by
  have hmap : (placedAssignments input subnet).map WorkingAssignment.mac =
      (assigned input subnet).map WorkingAssignment.mac := map_placedAssignments fun _ => rfl
  have hn : ((placedAssignments input subnet).filterMap WorkingAssignment.mac).Nodup := by
    have hid := congrArg (List.filterMap id) hmap
    simp only [List.filterMap_map, Function.id_comp] at hid
    rw [hid, assigned_macs hnames]
    exact (allocationPass input subnet).assignments.nodup
  by_contra hne
  have hsymm : Std.Symm fun v w : WorkingAssignment =>
      ∀ t, v.mac = some t → ∀ t', w.mac = some t' → t ≠ t' :=
    ⟨fun v w h t ht t' ht' heq => h t' ht' t ht heq.symm⟩
  exact (List.pairwise_filterMap.mp hn).forall ha hb hne mac hma mac hmb rfl

/-- A client that draws a WAN is bound if a preference is left when its turn comes. -/
theorem bound_iff_of_drawn (hnames : (input.wans.map PlannerWan.name).Nodup)
    {front back : List (Text × WorkingAssignment)} {e : Text × WorkingAssignment}
    {pool : List PlannerWan}
    (hadded : (allocationPass input subnet).assignments.entries =
      (remapPass input subnet).assignments.entries ++ (front ++ e :: back))
    (hd : ∀ f ∈ front ++ e :: back, Drawn pool f) :
    ((∃ d ∈ desired input subnet, d.mac = some e.1) ↔
        prefsWanted input subnet + front.length < (prefsAside input subnet).1.length) ∧
      ∀ d ∈ desired input subnet, d.mac = some e.1 → d.wan = e.2.wan := by
  have he : Drawn pool e := hd e (List.mem_append_right _ List.mem_cons_self)
  -- the assignments in the order in which they look for a preference
  set fronts := front.map Prod.snd with hfronts
  set backs := back.map Prod.snd
  have hvalues : (allocationPass input subnet).assignments.values =
      staying input subnet ++ (fronts ++ e.2 :: backs) := by
    rw [OrderedMap.values, hadded, List.map_append, List.map_append, List.map_cons,
      ← remapPass_values]
    rfl
  have hnone : ∀ a ∈ fronts ++ e.2 :: backs, a.pref = none := by
    intro a ha
    rw [← List.map_cons, ← List.map_append] at ha
    obtain ⟨f, hf, rfl⟩ := List.mem_map.mp ha
    exact (hd f hf).pref
  have hfrontNone : (fronts.countP fun a => a.pref.isNone) = front.length := by
    rw [List.countP_eq_length.mpr, hfronts, List.length_map]
    exact fun a ha => by simp [hnone a (List.mem_append_left _ ha)]
  set searched := takePrefs input.policy
    ⟨(prefsAside input subnet).1, input.policy.rulePrefBase⟩ ((prefsAside input subnet).2 ++ fronts)
    with hsearched
  obtain ⟨hahead, hlength⟩ := takePrefs_ahead prefsAside_ahead
    ((prefsAside input subnet).2 ++ fronts)
  set pref := (takePref input.policy searched.1).1 with hpref
  have hisSome : pref.isSome = true ↔
      prefsWanted input subnet + front.length < (prefsAside input subnet).1.length := by
    rw [hpref, (takePref_ahead hahead).2.2, hlength, List.countP_append, hfrontNone, prefsWanted]
    dsimp only
    omega
  have hplaced : ({ e.2 with pref := pref } : WorkingAssignment) ∈ placedAssignments input subnet := by
    refine List.mem_append_right _ ?_
    rw [hvalues, keepPrefs_append _ _ hnone, ← List.append_assoc]
    change _ ∈ (takePrefs input.policy ⟨(prefsAside input subnet).1, _⟩
      ((prefsAside input subnet).2 ++ fronts ++ e.2 :: backs)).2
    rw [takePrefs_append, ← hsearched]
    refine List.mem_append_right _ ?_
    simp only [takePrefs, he.pref]
    exact List.mem_cons_self
  have hmac : ({ e.2 with pref := pref } : WorkingAssignment).mac = some e.1 := he.mac
  have hunique : ∀ d ∈ desired input subnet, d.mac = some e.1 →
      ({ e.2 with pref := pref } : WorkingAssignment).desired = some d := by
    intro d hdes hm
    obtain ⟨a, ha, had⟩ := mem_desired.mp hdes
    have hsame := placed_eq_of_mac hnames ha hplaced ((desired_eq_some had).2.2.2.2.symm.trans hm) hmac
    rw [← hsame]
    exact had
  refine ⟨⟨?_, fun hlt => ?_⟩, fun d hdes hm => ?_⟩
  · rintro ⟨d, hdes, hm⟩
    rw [← hisSome, Option.isSome_iff_exists]
    exact ⟨d.pref, (desired_eq_some (hunique d hdes hm)).1⟩
  · obtain ⟨p, hp⟩ := Option.isSome_iff_exists.mp (hisSome.mpr hlt)
    refine ⟨⟨p, e.2.ip, e.2.table, e.2.wan, e.2.mac, e.2.assignedAt⟩, mem_desired.mpr
      ⟨_, hplaced, ?_⟩, he.mac⟩
    rw [WorkingAssignment.desired, hp]
    rfl
  · exact (desired_eq_some (hunique d hdes hm)).2.2.2.1

/-! ### One client that leaves -/

theorem allocationPass_entries (subnet : ParsedSubnet)
    (hnames : (input.wans.map PlannerWan.name).Nodup)
    (hrun : input.instance_.running = true) : ∃ added : List (Text × WorkingAssignment),
      (allocationPass input subnet).assignments.entries =
        (remapPass input subnet).assignments.entries ++ added ∧
      added.map Prod.fst = ((allocationOrder input subnet).take
        (initiallyFree input subnet).length).map ForcedReassign.mac ∧
      ∀ e ∈ added, Drawn (initiallyFree input subnet) e := by
  obtain ⟨_, -, hnodup, hall⟩ := allocationOrder_eq input subnet
  have hvalues : (FreeWanPool.ofList (freeWansOf input (remapPass input subnet).usedWans)).values =
      initiallyFree input subnet := freeWans_remapPass hnames
  rw [← hvalues]
  refine allocate_run hrun _ _ hnodup (fun r hr => (hall r hr).1) (fun r hr => (hall r hr).2)
    fun wan hw => ?_
  obtain ⟨-, husable⟩ := List.mem_filter.mp hw
  obtain ⟨table, ht⟩ := table_of_wanUsable (Bool.and_eq_true _ _ |>.mp husable).1
  exact Option.isSome_iff_exists.mpr ⟨table, ht⟩

/-- A client that left is bound only if it has a lease, and to a WAN that was free. -/
theorem drawn_of_bound (hnames : (input.wans.map PlannerWan.name).Nodup)
    (hrun : input.instance_.running = true) {mac : Text} (hleft : mac ∈ leavingMacs input subnet)
    {d : DesiredAssignment} (hd : d ∈ desired input subnet) (hm : d.mac = some mac) :
    mac ∈ ((allocationOrder input subnet).take (initiallyFree input subnet).length).map
        ForcedReassign.mac ∧
      ∃ wan ∈ initiallyFree input subnet, wan.name = d.wan := by
  obtain ⟨added, hentries, hkeys, hdrawn⟩ := allocationPass_entries subnet hnames hrun
  obtain ⟨a, ha, -, -, -, hmac⟩ := assigned_of_mem_desired hd
  have hkey : mac ∈ (allocationPass input subnet).assignments.keys := by
    rw [← assigned_macs hnames]
    exact List.mem_filterMap.mpr ⟨a, ha, hmac.trans hm⟩
  rw [OrderedMap.keys, hentries, List.map_append, List.mem_append] at hkey
  have hnew : mac ∈ added.map Prod.fst :=
    hkey.resolve_left fun hold => (remapPass_keys hold).2 hleft
  refine ⟨hkeys ▸ hnew, ?_⟩
  obtain ⟨e, he, rfl⟩ := List.mem_map.mp hnew
  obtain ⟨front, back, rfl⟩ := List.append_of_mem he
  rw [(bound_iff_of_drawn hnames hentries hdrawn).2 d hd hm]
  exact (hdrawn e he).wan

theorem leased_of_bound (hnames : (input.wans.map PlannerWan.name).Nodup)
    (hrun : input.instance_.running = true) {mac : Text} (hleft : mac ∈ leavingMacs input subnet)
    {d : DesiredAssignment} (hd : d ∈ desired input subnet) (hm : d.mac = some mac) :
    (currentLeases input subnet).has mac = true := by
  obtain ⟨_, -, -, hall⟩ := allocationOrder_eq input subnet
  obtain ⟨r, hr, rfl⟩ := List.mem_map.mp (drawn_of_bound hnames hrun hleft hd hm).1
  exact (hall r (List.mem_of_mem_take hr)).1

/-- Where every client that leaves has a lease, its turn comes after the forced requests
and those that left before it. -/
theorem bound_iff (hnames : (input.wans.map PlannerWan.name).Nodup)
    (hrun : input.instance_.running = true)
    (hleased : ∀ e ∈ leaving input subnet, (currentLeases input subnet).has e.1 = true)
    {before after : List (Text × WorkingAssignment)} {e : Text × WorkingAssignment}
    (hl : leaving input subnet = before ++ e :: after) :
    (∃ d ∈ desired input subnet, d.mac = some e.1) ↔
      (forcedFirst input subnet).length + before.length < (initiallyFree input subnet).length ∧
        prefsWanted input subnet + (forcedFirst input subnet).length + before.length <
          (prefsAside input subnet).1.length := by
  let request := fun e : Text × WorkingAssignment => (⟨e.1, some e.2.wan⟩ : ForcedReassign)
  have hmem : e.1 ∈ leavingMacs input subnet := List.mem_map_of_mem (by rw [hl]; simp)
  obtain ⟨rest, horder, hnodup, -⟩ := allocationOrder_eq input subnet
  have hrequests : leavingRequests input subnet = before.map request ++ request e :: after.map request := by
    rw [leavingRequests, List.filter_eq_self.mpr, hl, List.map_append, List.map_cons]
    intro r hr
    obtain ⟨f, hf, rfl⟩ := List.mem_map.mp hr
    exact hleased f hf
  set first := forcedFirst input subnet ++ before.map request with hfirst
  have hlength : first.length = (forcedFirst input subnet).length + before.length := by
    rw [hfirst, List.length_append, List.length_map]
  have horder : allocationOrder input subnet = first ++ request e :: (after.map request ++ rest) := by
    rw [horder, hrequests, hfirst]
    simp only [List.append_assoc, List.cons_append]
  by_cases hlt : first.length < (initiallyFree input subnet).length
  · obtain ⟨added, hentries, hkeys, hdrawn⟩ := allocationPass_entries subnet hnames hrun
    obtain ⟨left, hleft⟩ : ∃ left, (initiallyFree input subnet).length = first.length + (left + 1) :=
      ⟨(initiallyFree input subnet).length - first.length - 1, by omega⟩
    rw [horder, hleft, List.take_length_add_append, List.take_succ_cons, List.map_append,
      List.map_cons] at hkeys
    obtain ⟨front, added, rfl, hfront, hkeys⟩ := List.map_eq_append_iff.mp hkeys
    obtain ⟨f, back, rfl, hf, -⟩ := List.map_eq_cons_iff.mp hkeys
    have hfrontLength : front.length = first.length := by
      simpa using congrArg List.length hfront
    have hbound := (bound_iff_of_drawn hnames hentries hdrawn).1
    rw [hf] at hbound
    rw [show e.1 = (request e).mac from rfl, hbound, hfrontLength]
    omega
  · refine iff_of_false (fun ⟨d, hd, hm⟩ => ?_) (by omega)
    have hin := (drawn_of_bound hnames hrun hmem hd hm).1
    rw [horder, List.take_append_of_le_length (by omega)] at hin
    rw [horder, List.map_append, List.map_cons, List.nodup_append] at hnodup
    obtain ⟨r, hr, heq⟩ := List.mem_map.mp hin
    exact hnodup.2.2 _ (List.mem_map_of_mem (List.mem_of_mem_take hr)) _ List.mem_cons_self heq

end BoredManager.OpenWrt.Planner

namespace BoredManager.OpenWrt
open BoredManager.Js Planner

/-- The remap takes away the client's assignment: its WAN has been in error for the grace. -/
def ReleasedByError (input : ReconcileInput) (subnet : ParsedSubnet) (mac wan : Text) : Prop :=
  ∃ a, (mac, a) ∈ (preservePass input subnet).assignments.entries ∧ a.wan = wan ∧
    mac ∉ (remapPass input subnet).assignments.keys

/-- The result binds the client to another WAN, which is usable. -/
def Rebound (input : ReconcileInput) (mac wan : Text) : Prop :=
  ∃ d ∈ (planBindingReconciliation input).desired, d.mac = some mac ∧ d.wan ≠ wan ∧
    ∃ member ∈ input.wans, member.name = d.wan ∧
      wanUsable member input.policy.wanWarnUptimeSec = true

def StrandsNobody (input : ReconcileInput) : Prop :=
  ∀ subnet, parseCidr input.lanCidr = some subnet →
    ∀ mac wan, ReleasedByError input subnet mac wan → Rebound input mac wan

/-- The clients to leave have leases, and there are WANs and preferences for them after
the forced requests and the rules that stay. -/
structure RemapCovered (input : ReconcileInput) (subnet : ParsedSubnet) : Prop where
  leased : ∀ e ∈ leaving input subnet, (currentLeases input subnet).has e.1 = true
  wans : (forcedFirst input subnet).length + (leaving input subnet).length ≤
    (initiallyFree input subnet).length
  prefs : prefsWanted input subnet + (forcedFirst input subnet).length +
    (leaving input subnet).length ≤ (prefsAside input subnet).1.length

theorem releasedByError_iff {input : ReconcileInput} {subnet : ParsedSubnet} {mac wan : Text} :
    ReleasedByError input subnet mac wan ↔ ∃ a, (mac, a) ∈ leaving input subnet ∧ a.wan = wan := by
  constructor
  · rintro ⟨a, ha, hw, hk⟩
    exact ⟨a, mem_leaving.mpr ⟨ha, hk⟩, hw⟩
  · rintro ⟨a, ha, hw⟩
    exact ⟨a, (mem_leaving.mp ha).1, hw, (mem_leaving.mp ha).2⟩

theorem running_of_leaving {input : ReconcileInput} {subnet : ParsedSubnet}
    (h : leaving input subnet ≠ []) : input.instance_.running = true := by
  simp only [leaving] at h
  split at h
  · rename_i hc
    exact (Bool.and_eq_true _ _ |>.mp hc).1
  · exact absurd rfl h

/-- The WAN of a client that left is in error: a free WAN is another one. -/
theorem free_ne_of_leaving {input : ReconcileInput} {subnet : ParsedSubnet}
    (hnames : (input.wans.map PlannerWan.name).Nodup) {e : Text × WorkingAssignment}
    (he : e ∈ leaving input subnet) {wan : PlannerWan} (hw : wan ∈ initiallyFree input subnet) :
    wan ∈ input.wans ∧ wanUsable wan input.policy.wanWarnUptimeSec = true ∧ wan.name ≠ e.2.wan := by
  obtain ⟨hmem, hfree⟩ := List.mem_filter.mp hw
  have husable := (Bool.and_eq_true _ _ |>.mp hfree).1
  refine ⟨hmem, husable, fun heq => ?_⟩
  have hover := (mem_remapCandidates.mp (leaving_subset he)).2
  rw [not_overdue_of_state hnames hmem heq (by rw [wanUsable_iff.mp husable]; simp)] at hover
  cases hover

/-- The error remap strands nobody exactly where nobody leaves or the clients that leave
are covered. -/
theorem error_remap_strands_nobody (input : ReconcileInput)
    (hnames : (input.wans.map PlannerWan.name).Nodup) :
    StrandsNobody input ↔ ∀ subnet, parseCidr input.lanCidr = some subnet →
      leaving input subnet = [] ∨ RemapCovered input subnet := by
  refine forall₂_congr fun subnet hparse => ?_
  have hdesired : (planBindingReconciliation input).desired = desired input subnet := by
    rw [planBinding_of_parsed hparse, planOn_desired]
  constructor
  · intro h
    by_cases hnil : leaving input subnet = []
    · exact .inl hnil
    have hrun := running_of_leaving hnil
    have hbound : ∀ e ∈ leaving input subnet, ∃ d ∈ desired input subnet, d.mac = some e.1 := by
      intro e he
      obtain ⟨d, hd, hm, -⟩ := h e.1 e.2.wan (releasedByError_iff.mpr ⟨e.2, he, rfl⟩)
      exact ⟨d, hdesired ▸ hd, hm⟩
    have hleased : ∀ e ∈ leaving input subnet, (currentLeases input subnet).has e.1 = true := by
      intro e he
      obtain ⟨d, hd, hm⟩ := hbound e he
      exact leased_of_bound hnames hrun (List.mem_map_of_mem he) hd hm
    -- the last client to leave has the last turn
    obtain ⟨before, e, hl⟩ := (leaving input subnet).eq_nil_or_concat.resolve_left hnil
    rw [List.concat_eq_append] at hl
    have hlast' : leaving input subnet = before ++ e :: [] := hl
    have hlast := (bound_iff hnames hrun hleased hlast').mp (hbound e (by rw [hl]; simp))
    refine .inr ⟨hleased, ?_, ?_⟩ <;> simp only [hl, List.length_append, List.length_singleton] <;> omega
  · rintro (hnil | hcovered) mac wan hreleased
    · obtain ⟨a, ha, -⟩ := releasedByError_iff.mp hreleased
      rw [hnil] at ha
      cases ha
    · obtain ⟨a, ha, rfl⟩ := releasedByError_iff.mp hreleased
      have hrun := running_of_leaving (List.ne_nil_of_mem ha)
      obtain ⟨before, after, hl⟩ := List.append_of_mem ha
      have hlength := congrArg List.length hl
      simp only [List.length_append, List.length_cons] at hlength
      have hwans := hcovered.wans
      have hprefs := hcovered.prefs
      obtain ⟨d, hd, hm⟩ := (bound_iff hnames hrun hcovered.leased hl).mpr
        ⟨by omega, by omega⟩
      obtain ⟨-, member, hfree, hname⟩ := drawn_of_bound hnames hrun (List.mem_map_of_mem ha) hd hm
      obtain ⟨hmem, husable, hne⟩ := free_ne_of_leaving hnames ha hfree
      exact ⟨d, hdesired ▸ hd, hm, hname ▸ hne, member, hmem, hname, husable⟩

/-- The phone's WAN has been down for the grace; `others` are the free WANs, and the
tablet is to be reassigned if `forced`. -/
def outageInput (others : List PlannerWan) (forced : Bool) : ReconcileInput := {
  quietInput with
  rules := [⟨1000, js "192.168.10.2", 10001⟩]
  wans := ⟨js "pd00001", some 10001, false, false, none, 0, none⟩ :: others
  memory := some { emptyPlannerMemory with
    wanErrors := [⟨js "pd00001", 1000000000 - 60000⟩]
    forceReassign := if forced then [⟨js "00:11:22:33:44:66", none⟩] else [] } }

def upWan (name : Text) (table : Nat) : PlannerWan :=
  ⟨name, some table, true, false, some (js "100.64.0.1"), 600, none⟩

def quietSubnet : ParsedSubnet := ⟨3232238080, 24, js "192.168.10.0/24"⟩

theorem error_remap_rebinds_phone :
    leaving (outageInput [upWan (js "pd00002") 10002] false) quietSubnet ≠ [] ∧
      StrandsNobody (outageInput [upWan (js "pd00002") 10002] false) := by
  have hparse : parseCidr (outageInput [upWan (js "pd00002") 10002] false).lanCidr =
      some quietSubnet := by decide +kernel
  refine ⟨by decide +kernel, (error_remap_strands_nobody _ (by decide +kernel)).mpr
    fun subnet h => .inr ?_⟩
  rw [hparse, Option.some_inj] at h
  subst h
  exact ⟨by decide +kernel, by decide +kernel, by decide +kernel⟩

/-- The tablet's forced request takes the only free WAN: the phone, which would have kept
its own without the remap, is left with none. -/
theorem forced_request_strands_phone :
    (∃ d ∈ (planBindingReconciliation { outageInput [upWan (js "pd00002") 10002] true with
        instance_ := ⟨js "home", true, true, false⟩ }).desired,
      d.mac = some (js "00:11:22:33:44:55")) ∧
      (∀ d ∈ (planBindingReconciliation (outageInput [upWan (js "pd00002") 10002] true)).desired,
        d.mac ≠ some (js "00:11:22:33:44:55")) ∧
      ¬StrandsNobody (outageInput [upWan (js "pd00002") 10002] true) := by
  have hunbound : ∀ d ∈ (planBindingReconciliation
      (outageInput [upWan (js "pd00002") 10002] true)).desired,
      d.mac ≠ some (js "00:11:22:33:44:55") := by decide +kernel
  have hreleased : ∃ e ∈ leaving (outageInput [upWan (js "pd00002") 10002] true) quietSubnet,
      e.1 = js "00:11:22:33:44:55" := by decide +kernel
  refine ⟨by decide +kernel, hunbound, fun h => ?_⟩
  obtain ⟨⟨_, a⟩, he, rfl⟩ := hreleased
  obtain ⟨d, hd, hm, -⟩ := h quietSubnet (by decide +kernel) _ a.wan
    (releasedByError_iff.mpr ⟨a, he, rfl⟩)
  exact hunbound d hd hm

end BoredManager.OpenWrt
