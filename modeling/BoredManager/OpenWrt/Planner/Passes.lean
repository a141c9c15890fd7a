import BoredManager.Machine.Runs
import BoredManager.OpenWrt.Planner.OneToOne

/-! What each pass of the planner takes from the rules, and that it leaves none of
them out: an assignment comes from a rule or a request, and a rule that could be
kept is kept unless its client or its WAN is taken. -/
namespace BoredManager.OpenWrt.Planner
open BoredManager.Js BoredManager.Alloc BoredManager.Machine

variable {input : ReconcileInput} {subnet : ParsedSubnet}

/-! ### Rules of no client -/

/-- The three lists of the pass come from the same rules. -/
structure OrphanSources (input : ReconcileInput) (entries : List WorkingActual)
    (state : OrphanPass) : Prop where
  assignments : ∀ a ∈ state.opaqueAssignments, ∃ entry ∈ entries, ∃ orphan ∈ state.orphans,
    orphanOf input entry = some (orphan, a)
  orphans : ∀ orphan ∈ state.orphans, ∃ entry ∈ entries, ∃ a ∈ state.opaqueAssignments,
    orphanOf input entry = some (orphan, a)
  used : ∀ name ∈ state.usedWans, ∃ a ∈ state.opaqueAssignments, a.wan = name

theorem orphanStep_sources {entries : List WorkingActual} {state : OrphanPass}
    {entry : WorkingActual} (he : entry ∈ entries) (h : OrphanSources input entries state) :
    OrphanSources input entries (orphanStep input state entry) := by
  simp only [orphanStep]
  split
  · exact h
  · rename_i orphan assignment ho
    split
    · exact h
    · refine ⟨fun a ha => ?_, fun o ho' => ?_, fun name hn => ?_⟩
      · rcases List.mem_append.mp ha with ha | ha
        · obtain ⟨e, he, o, hm, heq⟩ := h.assignments a ha
          exact ⟨e, he, o, List.mem_append_left _ hm, heq⟩
        · rw [List.mem_singleton.mp ha]
          exact ⟨entry, he, orphan, List.mem_append_right _ (List.mem_singleton_self _), ho⟩
      · rcases List.mem_append.mp ho' with ho' | ho'
        · obtain ⟨e, he, a, hm, heq⟩ := h.orphans o ho'
          exact ⟨e, he, a, List.mem_append_left _ hm, heq⟩
        · rw [List.mem_singleton.mp ho']
          exact ⟨entry, he, assignment, List.mem_append_right _ (List.mem_singleton_self _), ho⟩
      · rcases List.mem_cons.mp hn with rfl | hn
        · exact ⟨assignment, List.mem_append_right _ (List.mem_singleton_self _), rfl⟩
        · obtain ⟨a, hm, heq⟩ := h.used name hn
          exact ⟨a, List.mem_append_left _ hm, heq⟩

theorem orphanPass_sources :
    OrphanSources input (actual input subnet) (orphanPass input subnet) := by
  have hstart : OrphanSources input (actual input subnet) ⟨[], [], []⟩ :=
    ⟨fun _ h => (by cases h), fun _ h => (by cases h), fun _ h => (by cases h)⟩
  simp only [orphanPass]
  split
  · exact List.foldlRecOn (actual input subnet) (orphanStep input) hstart
      fun state h entry he => orphanStep_sources he h
  · exact hstart

/-! ### Rules that keep their client -/

structure PreserveSources (input : ReconcileInput) (subnet : ParsedSubnet)
    (state : PreservePass) : Prop where
  assignments : ∀ e ∈ state.assignments.entries, ∃ entry ∈ actual input subnet,
    preservedBy input subnet entry = some e
  macs : ∀ mac ∈ state.usedMacs, mac ∈ state.assignments.keys
  used : ∀ name ∈ state.usedWans, name ∈ (orphanPass input subnet).usedWans ∨
    ∃ e ∈ state.assignments.entries, e.2.wan = name

/-- The step either leaves the state or grants the rule's assignment to a client that
had none. -/
theorem preserveStep_cases (opaques : List WorkingAssignment) {state : PreservePass}
    (entry : WorkingActual) (h : PreserveInv input subnet opaques state) :
    preserveStep input subnet state entry = state ∨
      ∃ mac a, preservedBy input subnet entry = some (mac, a) ∧ mac ∉ state.assignments.keys ∧
        a.wan ∉ state.usedWans ∧
        (preserveStep input subnet state entry).usedWans = a.wan :: state.usedWans ∧
        (preserveStep input subnet state entry).usedMacs = mac :: state.usedMacs ∧
        (preserveStep input subnet state entry).assignments = state.assignments.set mac a := by
  simp only [preserveStep]
  split
  · exact .inl rfl
  · rename_i mac a hp
    split
    · exact .inl rfl
    · rename_i hfresh
      rw [not_or] at hfresh
      exact .inr ⟨mac, a, hp, fun hk => hfresh.1 (h.clients mac hk), hfresh.2, rfl, rfl, rfl⟩

theorem preserveStep_sources {opaques : List WorkingAssignment} {state : PreservePass}
    {entry : WorkingActual} (he : entry ∈ actual input subnet)
    (hinv : PreserveInv input subnet opaques state) (h : PreserveSources input subnet state) :
    PreserveSources input subnet (preserveStep input subnet state entry) := by
  rcases preserveStep_cases opaques entry hinv with heq | ⟨mac, a, hp, hk, -, hw, hm, ha⟩
  · rw [heq]
    exact h
  · refine ⟨fun e hmem => ?_, fun other ho => ?_, fun name hn => ?_⟩
    · rw [ha] at hmem
      rcases OrderedMap.mem_entries_set.mp hmem with rfl | ⟨hmem, -⟩
      · exact ⟨entry, he, hp⟩
      · exact h.assignments e hmem
    · rw [hm] at ho
      rw [ha, OrderedMap.mem_keys_set]
      exact (List.mem_cons.mp ho).imp id (h.macs other)
    · rw [hw] at hn
      rw [ha]
      rcases List.mem_cons.mp hn with rfl | hn
      · exact .inr ⟨(mac, a), OrderedMap.mem_entries_set.mpr (.inl rfl), rfl⟩
      · refine (h.used name hn).imp id fun ⟨e, hmem, heq⟩ => ⟨e, ?_, heq⟩
        have hne : e.1 ≠ mac := fun heq => hk (heq ▸ List.mem_map_of_mem hmem)
        exact OrderedMap.mem_entries_set.mpr (.inr ⟨hmem, hne⟩)

theorem preservePass_sources : PreserveSources input subnet (preservePass input subnet) := by
  set start : PreservePass := ⟨(orphanPass input subnet).usedWans, [], .empty, .empty⟩
  have hstart : PreserveInv input subnet (orphanPass input subnet).opaqueAssignments start ∧
      PreserveSources input subnet start :=
    ⟨⟨orphanPass_ledger, fun _ h => by cases h⟩,
      ⟨fun _ h => (by cases h), fun _ h => (by cases h), fun _ h => .inl h⟩⟩
  simp only [preservePass]
  split
  · exact (List.foldlRecOn (motive := fun state : PreservePass =>
        PreserveInv input subnet (orphanPass input subnet).opaqueAssignments state ∧
          PreserveSources input subnet state)
      (actual input subnet) (preserveStep input subnet) hstart
      fun state h entry he => ⟨preserveStep_inv entry h.1, preserveStep_sources he h.1 h.2⟩).2
  · exact hstart.2

theorem preserveStep_used {state : PreservePass} {entry : WorkingActual} {mac name : Text}
    (h : mac ∈ state.usedMacs ∨ name ∈ state.usedWans) :
    mac ∈ (preserveStep input subnet state entry).usedMacs ∨
      name ∈ (preserveStep input subnet state entry).usedWans := by
  simp only [preserveStep]
  split
  · exact h
  · split
    · exact h
    · exact h.imp (List.mem_cons_of_mem _) (List.mem_cons_of_mem _)

/-- A rule that can be kept is, unless its client has another WAN or its WAN another
client. -/
theorem preservePass_complete (hrun : input.instance_.running = true) {entry : WorkingActual}
    (he : entry ∈ actual input subnet) {mac : Text} {a : WorkingAssignment}
    (hp : preservedBy input subnet entry = some (mac, a)) :
    mac ∈ (preservePass input subnet).assignments.keys ∨
      a.wan ∈ (preservePass input subnet).usedWans := by
  have hused : mac ∈ (preservePass input subnet).usedMacs ∨
      a.wan ∈ (preservePass input subnet).usedWans := by
    simp only [preservePass, if_pos hrun]
    refine run_establishes
      (P := fun state : PreservePass => mac ∈ state.usedMacs ∨ a.wan ∈ state.usedWans)
      (fun state other _ h => preserveStep_used h) he (fun state => ?_) _
    simp only [preserveStep, hp]
    split
    · assumption
    · exact .inl List.mem_cons_self
  exact hused.imp (preservePass_sources.macs mac) id

/-! ### WANs in error -/

/-- The loop only takes candidates away. -/
theorem mem_remapLoop {capacity : Nat} {candidates : List (Text × WorkingAssignment)}
    {state : RemapPass} {e : Text × WorkingAssignment} (h : e ∈ state.assignments.entries)
    (hne : ∀ c ∈ candidates, c.1 ≠ e.1) :
    e ∈ (remapLoop capacity candidates state).assignments.entries := by
  induction candidates generalizing capacity state with
  | nil => cases capacity <;> exact h
  | cons c candidates ih =>
    cases capacity with
    | zero => exact h
    | succ capacity =>
      refine ih ?_ fun other ho => hne other (List.mem_cons_of_mem _ ho)
      exact OrderedMap.mem_entries_erase.mpr ⟨h, (hne c List.mem_cons_self).symm⟩

/-- A client whose WAN is not overdue stays. -/
theorem mem_remapPass_of_not_overdue {e : Text × WorkingAssignment}
    (h : e ∈ (preservePass input subnet).assignments.entries) (ho : overdue input e.2 = false) :
    e ∈ (remapPass input subnet).assignments.entries := by
  simp only [remapPass]
  split
  · refine mem_remapLoop h fun c hc heq => ?_
    obtain ⟨hmem, hover⟩ := mem_remapCandidates.mp hc
    have hsame : c = e :=
      List.inj_on_of_nodup_map (preservePass input subnet).assignments.nodup hmem h heq
    rw [hsame, ho] at hover
    cases hover
  · exact h

theorem remapLoop_subset {capacity : Nat} {candidates : List (Text × WorkingAssignment)}
    {state : RemapPass} :
    (remapLoop capacity candidates state).assignments.entries ⊆ state.assignments.entries := by
  induction candidates generalizing capacity state with
  | nil => cases capacity <;> exact List.Subset.refl _
  | cons c candidates ih =>
    cases capacity with
    | zero => exact List.Subset.refl _
    | succ capacity =>
      exact List.Subset.trans ih fun e he => (OrderedMap.mem_entries_erase.mp he).1

theorem remapPass_subset : (remapPass input subnet).assignments.entries ⊆
    (preservePass input subnet).assignments.entries := by
  simp only [remapPass]
  split
  · exact remapLoop_subset
  · exact List.Subset.refl _

theorem not_overdue_of_state (hnames : (input.wans.map PlannerWan.name).Nodup)
    {a : WorkingAssignment} {wan : PlannerWan} (hw : wan ∈ input.wans) (hname : wan.name = a.wan)
    (hstate : wanState wan input.policy.wanWarnUptimeSec ≠ .error) :
    overdue input a = false := by
  rw [overdue]
  cases hs : (errorSince input).get? a.wan with
  | none => rfl
  | some since =>
    exfalso
    obtain ⟨entry, he, heq⟩ := List.mem_map.mp (OrderedMap.mem_of_get?_ofList hs)
    obtain ⟨bad, hb, rfl⟩ := List.mem_map.mp he
    obtain ⟨hb, herr⟩ := List.mem_filter.mp hb
    have hsame : bad = wan := List.inj_on_of_nodup_map hnames hb hw
      (((Prod.mk.inj heq).1).trans hname.symm)
    rw [hsame] at herr
    exact hstate (of_decide_eq_true herr)

/-! ### Free WANs -/

theorem allocateStep_mem {state : AllocationState} {request : ForcedReassign}
    {e : Text × WorkingAssignment} (h : e ∈ state.assignments.entries) :
    e ∈ (allocateStep input subnet state request).assignments.entries := by
  simp only [allocateStep]
  split
  · exact h
  · rename_i hfresh
    rw [Bool.or_eq_true, not_or] at hfresh
    split
    · exact h
    · split
      · exact h
      · split
        · exact h
        · have hne : e.1 ≠ request.mac := fun heq =>
            hfresh.2 (OrderedMap.has_iff.mpr (heq ▸ List.mem_map_of_mem h))
          exact OrderedMap.mem_entries_set.mpr (.inr ⟨h, hne⟩)

theorem mem_allocationPass {e : Text × WorkingAssignment}
    (h : e ∈ (remapPass input subnet).assignments.entries) :
    e ∈ (allocationPass input subnet).assignments.entries :=
  List.foldlRecOn (motive := fun state : AllocationState => e ∈ state.assignments.entries)
    (allocationOrder input subnet) (allocateStep input subnet) h
    fun _ h _ _ => allocateStep_mem h

/-- The allocation adds assignments without a preference. -/
theorem allocationPass_cases {e : Text × WorkingAssignment}
    (h : e ∈ (allocationPass input subnet).assignments.entries) :
    e ∈ (remapPass input subnet).assignments.entries ∨ e.2.pref = none := by
  refine List.foldlRecOn (motive := fun state : AllocationState =>
    ∀ e ∈ state.assignments.entries,
      e ∈ (remapPass input subnet).assignments.entries ∨ e.2.pref = none)
    (allocationOrder input subnet) (allocateStep input subnet) (fun _ h => .inl h)
    (fun state hs request _ => ?_) e h
  simp only [allocateStep]
  split
  · exact hs
  · split
    · exact hs
    · split
      · exact hs
      · split
        · exact hs
        · intro e he
          rcases OrderedMap.mem_entries_set.mp he with rfl | ⟨he, -⟩
          · exact .inr rfl
          · exact hs e he

/-- An assignment with a preference stands for a rule. -/
theorem source_of_pref {e : Text × WorkingAssignment} {pref : Nat}
    (h : e ∈ (allocationPass input subnet).assignments.entries) (hp : e.2.pref = some pref) :
    ∃ entry ∈ actual input subnet, preservedBy input subnet entry = some e ∧
      entry.pref = pref := by
  rcases allocationPass_cases h with h | hnone
  · obtain ⟨entry, he, hpre⟩ := preservePass_sources.assignments e (remapPass_subset h)
    refine ⟨entry, he, hpre, ?_⟩
    have := (preservedBy_eq_some hpre).2.2.2.2.2.2.2.2
    rw [hp, Option.some_inj] at this
    exact this.symm
  · rw [hnone] at hp
    cases hp

/-! ### Preferences -/

theorem keepPrefs_left {available : List Nat} {l : List WorkingAssignment} {pref : Nat}
    (hp : pref ∈ available) (hl : ∀ a ∈ l, a.pref ≠ some pref) :
    pref ∈ (keepPrefs available l).1 := by
  induction l generalizing available with
  | nil => exact hp
  | cons a l ih =>
    have hl' := fun b hb => hl b (List.mem_cons_of_mem _ hb)
    simp only [keepPrefs]
    split
    · exact ih hp hl'
    · rename_i other ha
      split
      · have hne : pref ≠ other := fun heq => hl a List.mem_cons_self (heq ▸ ha)
        exact ih (List.mem_filter.mpr ⟨hp, by simpa using hne⟩) hl'
      · exact ih hp hl'

/-- An available preference stays with one of those that hold it. -/
theorem keepPrefs_holds {available : List Nat} {l : List WorkingAssignment} {pref : Nat}
    (hp : pref ∈ available) {a : WorkingAssignment} (ha : a ∈ l) (hpref : a.pref = some pref) :
    ∃ b ∈ l, b.pref = some pref ∧ b ∈ (keepPrefs available l).2 := by
  induction l generalizing available with
  | nil => cases ha
  | cons c l ih =>
    simp only [keepPrefs]
    split
    · rename_i hc
      have hal : a ∈ l := (List.mem_cons.mp ha).resolve_left fun heq => by
        rw [heq, hc] at hpref
        cases hpref
      obtain ⟨b, hb, hbp, hbk⟩ := ih hp hal
      exact ⟨b, List.mem_cons_of_mem _ hb, hbp, List.mem_cons_of_mem _ hbk⟩
    · rename_i other hc
      by_cases heq : pref = other
      · subst heq
        rw [if_pos hp]
        exact ⟨c, List.mem_cons_self, hc, List.mem_cons_self⟩
      · have hal : a ∈ l := (List.mem_cons.mp ha).resolve_left fun heq' => by
          rw [heq', hc] at hpref
          exact heq (Option.some_inj.mp hpref).symm
        split
        · have hp' : pref ∈ available.filter (· ≠ other) :=
            List.mem_filter.mpr ⟨hp, by simpa using heq⟩
          obtain ⟨b, hb, hbp, hbk⟩ := ih hp' hal
          exact ⟨b, List.mem_cons_of_mem _ hb, hbp, List.mem_cons_of_mem _ hbk⟩
        · obtain ⟨b, hb, hbp, hbk⟩ := ih hp hal
          exact ⟨b, List.mem_cons_of_mem _ hb, hbp, List.mem_cons_of_mem _ hbk⟩

theorem takePrefs_mem {policy : PlannerPolicy} {search : PrefSearch}
    {l : List WorkingAssignment} {a : WorkingAssignment} {pref : Nat} (ha : a ∈ l)
    (hp : a.pref = some pref) : a ∈ (takePrefs policy search l).2 := by
  induction l generalizing search with
  | nil => cases ha
  | cons c l ih =>
    simp only [takePrefs]
    split
    · rcases List.mem_cons.mp ha with rfl | ha
      · exact List.mem_cons_self
      · exact List.mem_cons_of_mem _ (ih ha)
    · rename_i hc
      have hal : a ∈ l := (List.mem_cons.mp ha).resolve_left fun heq => by
        rw [heq, hc] at hp
        cases hp
      exact List.mem_cons_of_mem _ (ih hal)

/-- An assignment keeps an available preference that no other assignment holds. -/
theorem mem_desired_of_pref {a : WorkingAssignment} {pref : Nat}
    (ha : a ∈ (allocationPass input subnet).assignments.values) (hp : a.pref = some pref)
    (havailable : pref ∈ availablePrefs input subnet)
    (hforeign : ∀ b ∈ (orphanPass input subnet).opaqueAssignments, b.pref ≠ some pref)
    (hothers : ∀ b ∈ (allocationPass input subnet).assignments.values,
      b.pref = some pref → b = a) :
    ∃ entry ∈ desired input subnet, a.desired = some entry := by
  have hleft := keepPrefs_left havailable hforeign
  obtain ⟨b, hb, hbp, hbk⟩ := keepPrefs_holds hleft ha hp
  rw [hothers b hb hbp] at hbk
  have hplaced : a ∈ placedAssignments input subnet :=
    List.mem_append_right _ (takePrefs_mem hbk hp)
  have hdesired : a.desired = some ⟨pref, a.ip, a.table, a.wan, a.mac, a.assignedAt⟩ := by
    rw [WorkingAssignment.desired, hp]
    rfl
  exact ⟨_, mem_desired.mpr ⟨a, hplaced, hdesired⟩, hdesired⟩

end BoredManager.OpenWrt.Planner
