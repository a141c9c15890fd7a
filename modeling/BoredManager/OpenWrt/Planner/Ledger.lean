import BoredManager.Alloc.Exclusive
import BoredManager.OpenWrt.Planner.Reconcile

/-! The ledger that the passes of the planner share: each assignment holds a WAN of
the pool of its own, under its client's address. One lemma for each way in which
a pass changes it, then one for each pass. -/
namespace BoredManager.OpenWrt.Planner
open BoredManager.Js BoredManager.Alloc

variable {input : ReconcileInput} {subnet : ParsedSubnet}
  {used : List Text} {opaques : List WorkingAssignment}
  {assignments : OrderedMap Text WorkingAssignment}

/-- The assignment's WAN is one of the input, with that table. -/
def OnPool (input : ReconcileInput) (wan : Text) (table : Nat) : Prop :=
  ∃ member ∈ input.wans, member.name = wan ∧ member.table = some table

/-- The assignment is the client's, at the client's address. -/
def IsOf (input : ReconcileInput) (subnet : ParsedSubnet) (mac : Text)
    (a : WorkingAssignment) : Prop :=
  a.mac = some mac ∧ ∃ device, workingDevice input subnet mac = some device ∧ a.ip = device.ip

structure Ledger (input : ReconcileInput) (subnet : ParsedSubnet) (used : List Text)
    (opaques : List WorkingAssignment) (assignments : OrderedMap Text WorkingAssignment) :
    Prop where
  exclusive : Exclusive WorkingAssignment.wan used (opaques ++ assignments.values)
  pool : ∀ a ∈ opaques ++ assignments.values, OnPool input a.wan a.table
  unknown : ∀ a ∈ opaques, a.mac = none
  client : ∀ e ∈ assignments.entries, IsOf input subnet e.1 e.2 ∧ e.1 ∉ held input

namespace Ledger

theorem empty : Ledger input subnet [] [] .empty := {
  exclusive := Exclusive.nil
  pool := fun _ h => by cases h
  unknown := fun _ h => by cases h
  client := fun _ h => by cases h }

/-- A rule of no client claims a WAN. -/
theorem claim (h : Ledger input subnet used opaques assignments) {a : WorkingAssignment}
    (hw : a.wan ∉ used) (hp : OnPool input a.wan a.table) (hm : a.mac = none) :
    Ledger input subnet (a.wan :: used) (opaques ++ [a]) assignments := by
  have hperm : (opaques ++ [a] ++ assignments.values).Perm
      (a :: (opaques ++ assignments.values)) := by
    rw [List.append_assoc]
    exact List.perm_middle
  refine ⟨(h.exclusive.grant hw).perm hperm, fun b hb => ?_, fun b hb => ?_, h.client⟩
  · rcases List.mem_cons.mp (hperm.mem_iff.mp hb) with rfl | hb
    · exact hp
    · exact h.pool b hb
  · rcases List.mem_append.mp hb with hb | hb
    · exact h.unknown b hb
    · rw [List.mem_singleton.mp hb]
      exact hm

/-- A client without an assignment gets a WAN. -/
theorem grant (h : Ledger input subnet used opaques assignments) {mac : Text} {a : WorkingAssignment}
    (hk : mac ∉ assignments.keys) (hw : a.wan ∉ used) (hp : OnPool input a.wan a.table)
    (hm : IsOf input subnet mac a) (hh : mac ∉ held input) :
    Ledger input subnet (a.wan :: used) opaques (assignments.set mac a) := by
  have hperm : (opaques ++ (assignments.set mac a).values).Perm
      (a :: (opaques ++ assignments.values)) := by
    rw [OrderedMap.values_set_of_not_mem hk, ← List.append_assoc]
    exact List.perm_append_singleton _ _
  refine ⟨(h.exclusive.grant hw).perm hperm, fun b hb => ?_, h.unknown, fun e he => ?_⟩
  · rcases List.mem_cons.mp (hperm.mem_iff.mp hb) with rfl | hb
    · exact hp
    · exact h.pool b hb
  · rcases OrderedMap.mem_entries_set.mp he with rfl | ⟨he, -⟩
    · exact ⟨hm, hh⟩
    · exact h.client e he

/-- A client leaves its WAN. -/
theorem revoke (h : Ledger input subnet used opaques assignments) {mac : Text} {a : WorkingAssignment}
    (hk : (mac, a) ∈ assignments.entries) :
    Ledger input subnet (used.filter (· ≠ a.wan)) opaques (assignments.erase mac) := by
  have hperm : (opaques ++ assignments.values).Perm
      (a :: (opaques ++ (assignments.erase mac).values)) := by
    have hvalues := (OrderedMap.entries_perm_erase hk).map Prod.snd
    exact (hvalues.append_left opaques).trans List.perm_middle
  refine ⟨(h.exclusive.perm hperm.symm).revoke, fun b hb => ?_, h.unknown, fun e he => ?_⟩
  · exact h.pool b (hperm.mem_iff.mpr (List.mem_cons_of_mem _ hb))
  · exact h.client e (OrderedMap.mem_entries_erase.mp he).1

end Ledger

/-! ### The pool of WANs by name -/

theorem mem_wans_of_poolByName {name : Text} {wan : PlannerWan}
    (h : (poolByName input).get? name = some wan) : wan ∈ input.wans ∧ wan.name = name := by
  obtain ⟨w, hw, heq⟩ := List.mem_map.mp (OrderedMap.mem_of_get?_ofList h)
  cases heq
  exact ⟨hw, rfl⟩

theorem poolByName_of_mem (hnames : (input.wans.map PlannerWan.name).Nodup) {wan : PlannerWan}
    (h : wan ∈ input.wans) : (poolByName input).get? wan.name = some wan := by
  refine (OrderedMap.get?_ofList_of_nodup ?_).mpr (List.mem_map_of_mem h)
  simpa [Function.comp_def] using hnames

/-! ### Rules of no client -/

theorem orphanOf_eq_some {entry : WorkingActual} {orphan : OrphanMemory}
    {assignment : WorkingAssignment} (h : orphanOf input entry = some (orphan, assignment)) :
    entry.mac = none ∧ entry.wan = some assignment.wan ∧ assignment.wan ≠ [] ∧
      OnPool input assignment.wan assignment.table ∧
      assignment.mac = none ∧ assignment.ip = entry.ip ∧ assignment.table = entry.table ∧
      assignment.pref = some entry.pref ∧ orphan.key = entry.key ∧
      orphan.firstMissingAt = (((oldOrphans input).get? entry.key).map
        OrphanMemory.firstMissingAt).getD input.now ∧
      input.now - orphan.firstMissingAt < input.releaseGraceMs := by
  simp only [orphanOf] at h
  split at h
  · cases h
  · rename_i hmac
    split at h
    · cases h
    · rename_i wan hwan
      split at h
      · rename_i hc
        cases h
        obtain ⟨name, hname, hget⟩ := Option.bind_eq_some_iff.mp hwan
        obtain ⟨hmem, rfl⟩ := mem_wans_of_poolByName hget
        obtain ⟨hsome, hne⟩ := nonEmpty_eq_some.mp hname
        exact ⟨by simpa using hmac, hsome, hne, ⟨wan, hmem, rfl, hc.1⟩, rfl, rfl, rfl, rfl, rfl,
          rfl, hc.2⟩
      · cases h

theorem orphanStep_ledger {state : OrphanPass} (entry : WorkingActual)
    (h : Ledger input subnet state.usedWans state.opaqueAssignments .empty) :
    Ledger input subnet (orphanStep input state entry).usedWans
      (orphanStep input state entry).opaqueAssignments .empty := by
  simp only [orphanStep]
  split
  · exact h
  · rename_i orphan assignment ho
    split
    · exact h
    · rename_i hused
      obtain ⟨-, -, -, hpool, hmac, -⟩ := orphanOf_eq_some ho
      exact h.claim hused hpool hmac

theorem orphanPass_ledger :
    Ledger input subnet (orphanPass input subnet).usedWans (orphanPass input subnet).opaqueAssignments
      .empty := by
  simp only [orphanPass]
  split
  · exact List.foldlRecOn (actual input subnet) (orphanStep input)
      (b := ⟨[], [], []⟩)
      (motive := fun state => Ledger input subnet state.usedWans state.opaqueAssignments .empty)
      Ledger.empty fun state h entry _ => orphanStep_ledger entry h
  · exact Ledger.empty

/-! ### Rules that keep their client -/

theorem preservedBy_eq_some {entry : WorkingActual} {mac : Text} {assignment : WorkingAssignment}
    (h : preservedBy input subnet entry = some (mac, assignment)) :
    entry.mac = some mac ∧ mac ∉ held input ∧ (forced input).has mac = false ∧
      IsOf input subnet mac assignment ∧
      entry.wan = some assignment.wan ∧ assignment.wan ≠ [] ∧
      OnPool input assignment.wan assignment.table ∧ assignment.table = entry.table ∧
      assignment.pref = some entry.pref := by
  simp only [preservedBy] at h
  split at h
  · cases h
  · rename_i m hm
    split at h
    · cases h
    · rename_i hfree
      rw [not_or] at hfree
      split at h
      · rename_i device wan hdevice hwan
        split at h
        · rename_i htable
          cases h
          obtain ⟨name, hname, hget⟩ := Option.bind_eq_some_iff.mp hwan
          obtain ⟨hmem, rfl⟩ := mem_wans_of_poolByName hget
          obtain ⟨hsome, hne⟩ := nonEmpty_eq_some.mp hname
          exact ⟨hm, hfree.1, by simpa using hfree.2, ⟨rfl, device, hdevice, rfl⟩, hsome, hne,
            ⟨wan, hmem, rfl, htable⟩, rfl, rfl⟩
        · cases h
      · cases h

/-- What the pass keeps, beside the ledger: `usedMacs` names the clients. -/
structure PreserveInv (input : ReconcileInput) (subnet : ParsedSubnet) (opaques : List WorkingAssignment)
    (state : PreservePass) : Prop where
  ledger : Ledger input subnet state.usedWans opaques state.assignments
  clients : ∀ mac ∈ state.assignments.keys, mac ∈ state.usedMacs

theorem preserveStep_inv {state : PreservePass} (entry : WorkingActual)
    (h : PreserveInv input subnet opaques state) :
    PreserveInv input subnet opaques (preserveStep input subnet state entry) := by
  simp only [preserveStep]
  split
  · exact h
  · rename_i mac assignment hp
    split
    · exact h
    · rename_i hfresh
      rw [not_or] at hfresh
      obtain ⟨-, hheld, -, hmac, -, -, hpool, -⟩ := preservedBy_eq_some hp
      have hk : mac ∉ state.assignments.keys := fun hk => hfresh.1 (h.clients mac hk)
      refine ⟨h.ledger.grant hk hfresh.2 hpool hmac hheld, fun other ho => ?_⟩
      rcases OrderedMap.mem_keys_set.mp ho with rfl | ho
      · exact List.mem_cons_self
      · exact List.mem_cons_of_mem _ (h.clients other ho)

theorem preservePass_inv :
    PreserveInv input subnet (orphanPass input subnet).opaqueAssignments (preservePass input subnet) := by
  have hstart : PreserveInv input subnet (orphanPass input subnet).opaqueAssignments
      ⟨(orphanPass input subnet).usedWans, [], .empty, .empty⟩ :=
    ⟨orphanPass_ledger, fun _ h => by cases h⟩
  simp only [preservePass]
  split
  · exact List.foldlRecOn (actual input subnet) (preserveStep input subnet) hstart
      fun state h entry _ => preserveStep_inv entry h
  · exact hstart

/-! ### WANs in error -/

theorem remapLoop_ledger (capacity : Nat) (candidates : List (Text × WorkingAssignment))
    (state : RemapPass) (hn : (candidates.map Prod.fst).Nodup)
    (hmem : ∀ e ∈ candidates, e ∈ state.assignments.entries)
    (h : Ledger input subnet state.usedWans opaques state.assignments) :
    Ledger input subnet (remapLoop capacity candidates state).usedWans opaques
      (remapLoop capacity candidates state).assignments := by
  induction candidates generalizing capacity state with
  | nil => cases capacity <;> exact h
  | cons e candidates ih =>
    cases capacity with
    | zero => exact h
    | succ capacity =>
      obtain ⟨hne, hn⟩ := List.nodup_cons.mp hn
      refine ih capacity _ hn (fun other ho => ?_) (h.revoke (hmem e List.mem_cons_self))
      -- the other candidates are still there: their keys differ
      have hkey : other.1 ≠ e.1 := fun heq => hne (List.mem_map.mpr ⟨other, ho, heq⟩)
      exact OrderedMap.mem_entries_erase.mpr ⟨hmem other (List.mem_cons_of_mem _ ho), hkey⟩

theorem remapCandidates_perm :
    (remapCandidates input subnet).Perm
      ((preservePass input subnet).assignments.entries.filter fun e => overdue input e.2) :=
  List.perm_insertionSort _ _

theorem remapCandidates_nodup : ((remapCandidates input subnet).map Prod.fst).Nodup := by
  rw [(remapCandidates_perm.map Prod.fst).nodup_iff]
  exact (preservePass input subnet).assignments.nodup.sublist (List.filter_sublist.map Prod.fst)

theorem mem_remapCandidates {e : Text × WorkingAssignment} :
    e ∈ remapCandidates input subnet ↔
      e ∈ (preservePass input subnet).assignments.entries ∧ overdue input e.2 = true := by
  rw [remapCandidates_perm.mem_iff, List.mem_filter]

theorem remapPass_ledger :
    Ledger input subnet (remapPass input subnet).usedWans (orphanPass input subnet).opaqueAssignments
      (remapPass input subnet).assignments := by
  simp only [remapPass]
  split
  · exact remapLoop_ledger _ _ _ remapCandidates_nodup
      (fun e he => (mem_remapCandidates.mp he).1) preservePass_inv.ledger
  · exact preservePass_inv.ledger

/-! ### The queue -/

theorem not_held_of_mem_allocationOrder {request : ForcedReassign}
    (h : request ∈ allocationOrder input subnet) : request.mac ∉ held input := by
  have hall : ∀ requests state : List ForcedReassign, (∀ r ∈ state, r.mac ∉ held input) →
      ∀ r ∈ requests.foldl (requestStep input) state, r.mac ∉ held input := by
    intro requests
    induction requests with
    | nil => exact fun _ h => h
    | cons r requests ih =>
      intro state hstate
      refine ih _ ?_
      simp only [requestStep]
      split
      · exact hstate
      · rename_i hfresh
        rw [not_or] at hfresh
        intro s hs
        rcases List.mem_append.mp hs with hs | hs
        · exact hstate s hs
        · rw [List.mem_singleton.mp hs]
          exact hfresh.1
  exact hall _ [] (fun _ h => by cases h) request h

theorem selectWan_perm {freeWans freeWans' : FreeWanPool} {random random' : SeededRandom}
    {request : ForcedReassign} {wan : PlannerWan}
    (h : selectWan input freeWans random request = (some (wan, freeWans'), random')) :
    freeWans.values.Perm (wan :: freeWans'.values) := by
  simp only [selectWan] at h
  split at h
  · rename_i taken htaken
    obtain ⟨choice, -, hchoice⟩ := Option.bind_eq_some_iff.mp htaken
    cases h
    exact FreeWanPool.takeNamed_perm hchoice
  · exact FreeWanPool.takeRandom_perm (congrArg Prod.fst h)

/-- What the allocation keeps: the free WANs are distinct WANs of the input that
nobody uses. -/
structure AllocationInv (input : ReconcileInput) (subnet : ParsedSubnet)
    (opaques : List WorkingAssignment) (state : AllocationState) : Prop where
  ledger : Ledger input subnet state.usedWans opaques state.assignments
  distinct : (state.freeWans.values.map PlannerWan.name).Nodup
  unused : ∀ wan ∈ state.freeWans.values, wan.name ∉ state.usedWans
  pool : ∀ wan ∈ state.freeWans.values, wan ∈ input.wans

theorem allocateStep_inv {state : AllocationState} {request : ForcedReassign}
    (hheld : request.mac ∉ held input) (h : AllocationInv input subnet opaques state) :
    AllocationInv input subnet opaques (allocateStep input subnet state request) := by
  simp only [allocateStep]
  split
  · exact h
  · rename_i hfresh
    split
    · exact h
    · rename_i device hdevice
      split
      · exact ⟨h.ledger, h.distinct, h.unused, h.pool⟩
      · rename_i selected freeWans random hselect
        have hperm := selectWan_perm hselect
        have hn := List.nodup_cons.mp ((hperm.map PlannerWan.name).nodup_iff.mp h.distinct)
        have hsub : ∀ wan ∈ freeWans.values, wan ∈ state.freeWans.values := fun wan hw =>
          hperm.mem_iff.mpr (List.mem_cons_of_mem _ hw)
        have hsel : selected ∈ state.freeWans.values := hperm.mem_iff.mpr List.mem_cons_self
        split
        · exact ⟨h.ledger, hn.2, fun wan hw => h.unused wan (hsub wan hw),
            fun wan hw => h.pool wan (hsub wan hw)⟩
        · rename_i table htable
          have hk : request.mac ∉ state.assignments.keys := by
            rw [Bool.or_eq_true, not_or] at hfresh
            exact fun hk => hfresh.2 (OrderedMap.has_iff.mpr hk)
          refine ⟨?_, hn.2, fun wan hw => ?_, fun wan hw => h.pool wan (hsub wan hw)⟩
          · exact h.ledger.grant (a := assignTo input request.mac device selected table none) hk
              (h.unused selected hsel) ⟨selected, h.pool selected hsel, rfl, htable⟩
              ⟨rfl, device, hdevice, rfl⟩ hheld
          · have hne : wan.name ≠ selected.name := fun heq =>
              hn.1 (heq ▸ List.mem_map_of_mem hw)
            simpa [hne] using h.unused wan (hsub wan hw)

theorem allocationPass_inv (hnames : (input.wans.map PlannerWan.name).Nodup) :
    AllocationInv input subnet (orphanPass input subnet).opaqueAssignments
      (allocationPass input subnet) := by
  refine List.foldlRecOn (allocationOrder input subnet) (allocateStep input subnet) ?_
    fun state h request hr => allocateStep_inv (not_held_of_mem_allocationOrder hr) h
  refine ⟨remapPass_ledger, hnames.sublist (List.filter_sublist.map _), fun wan hw => ?_,
    fun wan hw => List.mem_of_mem_filter hw⟩
  have := (List.mem_filter.mp hw).2
  rw [Bool.and_eq_true] at this
  exact of_decide_eq_true this.2

end BoredManager.OpenWrt.Planner
