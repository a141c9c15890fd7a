import BoredManager.OpenWrt.PppoeJobs
import BoredManager.OpenWrt.UciScript

/-! The create and the delete job of a batch, in every interleaving: when a delete
waits for the create job's chunks, no section outlives the record of the batch. -/
namespace BoredManager.OpenWrt
open BoredManager.Js BoredManager.Machine

variable {α : Type*}

theorem flatten_chunkFrom {size : Nat} (hs : 0 < size) {fuel : Nat} {values : List α}
    (h : values.length ≤ fuel) : (chunkFrom size fuel values).flatten = values := by
  induction fuel generalizing values with
  | zero =>
    have hnil : values = [] := List.eq_nil_of_length_eq_zero (Nat.le_zero.mp h)
    rw [hnil]
    rfl
  | succ fuel ih =>
    cases values with
    | nil => rfl
    | cons value values =>
      have hdrop : ((value :: values).drop size).length ≤ fuel := by
        simp only [List.length_drop, List.length_cons] at h ⊢
        omega
      rw [chunkFrom, List.flatten_cons, ih hdrop, List.take_append_drop]
      exact List.cons_ne_nil _ _

/-- Chunking loses and repeats nothing. -/
theorem flatten_chunkValues (values : List α) (size : Int) :
    (chunkValues values size).flatten = values := by
  apply flatten_chunkFrom _ (Nat.le_refl _)
  unfold chunkSizeOf
  omega

theorem planChunksFrom_sections {carrier : Text} {total index : Nat} {emitted : List Int}
    {plans : List (List PppoeSectionPlan)} {chunks : List PppoeUciChunk}
    (h : planChunksFrom carrier total index emitted plans = .ok chunks) :
    chunks.flatMap PppoeUciChunk.sections = plans.flatten.map PppoeSectionPlan.section_ := by
  induction plans generalizing index emitted chunks with
  | nil =>
    cases h
    rfl
  | cons plan plans ih =>
    obtain ⟨⟨lines, vlans⟩, -, h⟩ := bind_eq_ok.mp h
    obtain ⟨rest, hrest, h⟩ := bind_eq_ok.mp h
    cases h
    rw [List.flatMap_cons, ih hrest, List.flatten_cons, List.map_append]

theorem buildSectionsFrom_names {options : PppoeBuildOptions} {batchVlan : Option Int}
    {index : Nat} {rows : List PppoeInputRow} {plans : List PppoeSectionPlan}
    (h : buildSectionsFrom options batchVlan index rows = .ok plans) :
    List.Forall₂ (fun i name =>
        pppoeSectionName options.ifacePrefix (addIndex options.seqFrom i) = .ok name)
      (List.range' index rows.length) (plans.map PppoeSectionPlan.section_) := by
  induction rows generalizing index plans with
  | nil =>
    cases h
    exact .nil
  | cons row rows ih =>
    obtain ⟨plan, hplan, h⟩ := bind_eq_ok.mp h
    obtain ⟨rest, hrest, h⟩ := bind_eq_ok.mp h
    cases h
    obtain ⟨name, hname, hplan⟩ := bind_eq_ok.mp hplan
    obtain ⟨table, -, hplan⟩ := bind_eq_ok.mp hplan
    obtain ⟨vlan, -, hplan⟩ := bind_eq_ok.mp hplan
    obtain ⟨-, hplan⟩ := ite_error_eq_ok.mp hplan
    cases hplan
    exact .cons hname (ih hrest)

theorem mapM_eq_ok {β ε : Type*} {f : α → Except ε β} {as : List α} {bs : List β}
    (h : List.Forall₂ (fun a b => f a = .ok b) as bs) : as.mapM f = .ok bs := by
  induction h with
  | nil => rfl
  | cons ha _ ih =>
    rw [List.mapM_cons, ha]
    exact bind_eq_ok.mpr ⟨_, rfl, bind_eq_ok.mpr ⟨_, ih, rfl⟩⟩

theorem isAlnum_of_isPppoePrefix {s : Text} (h : isPppoePrefix s = true) :
    s ≠ [] ∧ ∀ u ∈ s, isAlnum u = true := by
  cases s with
  | nil => cases h
  | cons v s =>
    simp only [isPppoePrefix, Bool.and_eq_true, List.all_eq_true, Bool.or_eq_true] at h
    refine ⟨List.cons_ne_nil _ _, fun u hu => ?_⟩
    rcases List.mem_cons.mp hu with rfl | hu
    · simp [isAlnum, h.1.1]
    · rcases h.2 u hu with h | h <;> simp [isAlnum, h]

theorem isAlnum_of_mem_padZero {width : Nat} {n u : Nat} (h : u ∈ padZero width (decimal n)) :
    isAlnum u = true := by
  rcases List.mem_append.mp h with h | h
  · rw [List.eq_of_mem_replicate h]
    decide
  · simp [isAlnum, isDigit_of_mem_decimal h]

theorem pppoeSectionName_managed {ifacePrefix name : Text} {seq : Nat}
    (h : pppoeSectionName ifacePrefix (.ofInt seq) = .ok name) :
    seq ≤ 99999 ∧ isManagedSectionName name = true := by
  unfold pppoeSectionName at h
  obtain ⟨hname, h⟩ := ite_error_eq_ok.mp h
  obtain ⟨padded, hp, h⟩ := bind_eq_ok.mp h
  obtain ⟨hlength, h⟩ := ite_error_eq_ok.mp h
  obtain ⟨n, hn, hp⟩ := bind_eq_ok.mp hp
  obtain ⟨hrange, hp⟩ := ite_error_eq_ok.mp hp
  have hseq : n = seq := by
    have := wholeNumber_ok hn
    simpa using this.symm
  cases h
  cases hp
  subst hseq
  have hle : seq ≤ 99999 := by
    simp only [maxPppoeSequence] at hrange
    omega
  obtain ⟨hne, hall⟩ := isAlnum_of_isPppoePrefix (s := ifacePrefix) (by simpa using hname)
  have hdec : decimalInt (seq : Int) = decimal seq := by simp [decimalInt]
  rw [hdec] at hlength ⊢
  refine ⟨hle, ?_⟩
  simp only [isManagedSectionName, Bool.and_eq_true, decide_eq_true_eq, List.all_eq_true,
    Bool.or_eq_true]
  refine ⟨⟨by simp [hne], fun u hu => .inl ?_⟩, ?_⟩
  · rcases List.mem_append.mp hu with hu | hu
    · exact hall u hu
    · exact isAlnum_of_mem_padZero hu
  · simp only [List.length_append, not_lt] at hlength ⊢
    omega

theorem forall_of_forall₂ {β : Type*} {R : α → β → Prop} {P : α → Prop} {Q : β → Prop}
    {as : List α} {bs : List β} (hR : ∀ a b, R a b → P a ∧ Q b) (h : List.Forall₂ R as bs) :
    (∀ a ∈ as, P a) ∧ ∀ b ∈ bs, Q b := by
  induction h with
  | nil => simp
  | cons hab _ ih =>
    obtain ⟨ha, hb⟩ := hR _ _ hab
    exact ⟨List.forall_mem_cons.mpr ⟨ha, ih.1⟩, List.forall_mem_cons.mpr ⟨hb, ih.2⟩⟩

/-- The recorded range names exactly the sections that the chunks create. -/
theorem allBatchNames_record {plan : FrozenBatchPlan} {chunks : List PppoeUciChunk}
    (h : plan.chunks = .ok chunks) (id : Text) (now : Int) :
    allBatchNames (plan.record id now) = .ok (chunks.flatMap PppoeUciChunk.sections) ∧
      ∀ name ∈ chunks.flatMap PppoeUciChunk.sections, isManagedSectionName name = true := by
  unfold FrozenBatchPlan.chunks planPppoeChunks at h
  obtain ⟨plans, hplans, h⟩ := bind_eq_ok.mp h
  have hsections := planChunksFrom_sections h
  rw [flatten_chunkValues] at hsections
  unfold buildPppoeSections at hplans
  obtain ⟨-, hplans⟩ := ite_error_eq_ok.mp hplans
  obtain ⟨-, hplans⟩ := ite_error_eq_ok.mp hplans
  obtain ⟨batchVlan, -, hplans⟩ := bind_eq_ok.mp hplans
  have hnames := buildSectionsFrom_names hplans
  rw [← hsections, ← List.range_eq_range'] at hnames
  have hseqs : List.Forall₂ (fun (seq : Nat) name =>
      pppoeSectionName plan.ifacePrefix (.ofInt seq) = .ok name)
      ((List.range plan.rows.length).map fun index => plan.seqFrom + index)
      (chunks.flatMap PppoeUciChunk.sections) := by
    rw [List.forall₂_map_left_iff]
    refine hnames.imp fun index name hname => ?_
    rw [← hname]
    simp [FrozenBatchPlan.options, addIndex, Number.ofInt]
  obtain ⟨hle, hmanaged⟩ := forall_of_forall₂
    (fun _ _ hname => pppoeSectionName_managed hname) hseqs
  have hbatch : batchSequences (plan.record id now) =
      (List.range plan.rows.length).map fun index => plan.seqFrom + index := by
    have hfrom := plan.seqFrom_pos
    have hto := plan.seqTo_eq
    have hrows := plan.rows_le
    have hcount : min hardMaxBatchRows (min (plan.seqTo + 1 - plan.seqFrom)
        (if plan.rows.length = 0 then plan.seqTo + 1 - plan.seqFrom else plan.rows.length)) =
        plan.rows.length := by
      split <;> omega
    simp only [batchSequences, FrozenBatchPlan.record, Nat.max_eq_right hfrom, hcount]
    exact List.filter_eq_self.mpr fun seq hseq => by simpa using hle seq hseq
  refine ⟨?_, hmanaged⟩
  rw [allBatchNames, hbatch]
  exact mapM_eq_ok hseqs

theorem mem_checkedSections {names : List Text} {name : Text} :
    name ∈ checkedSections names ↔ name ∈ names ∧ isManagedSectionName name = true := by
  rw [checkedSections, List.mem_eraseDups, List.mem_filter]

theorem works_numbered (title : Text) (work : List Text → PppoeWork) (waves : List (List Text)) :
    (numbered title work waves).map JobItemSpec.work = waves.map work := by
  refine List.ext_getElem? fun n => ?_
  simp [numbered, List.getElem?_mapIdx, Function.comp_def]

theorem works_createSpec (batch : PppoeBatchRecord) (zoneName : Text)
    (chunks : List PppoeUciChunk) :
    ∀ chunk, .applyChunk chunk ∈ (createSpec batch zoneName chunks).items.map JobItemSpec.work →
      chunk ∈ chunks := by
  intro chunk hm
  simpa [createSpec] using hm

theorem works_deleteSpec (batch : PppoeBatchRecord) (waves : List (List Text)) :
    (deleteSpec batch waves).items.map JobItemSpec.work =
      .inspectDevices :: (waves.map .stopWave ++ waves.map .deleteChunk ++ [.cleanVlans]) := by
  simp [deleteSpec, works_numbered]

namespace PppoeManager

/-- The names are still to be deleted by the job. -/
def ToDelete (committed : List Nat) (key : Nat) (works : List PppoeWork) (name : Text) : Prop :=
  ∃ names, .deleteChunk names ∈ (if key ∈ committed then works.tail else works) ∧
    name ∈ checkedSections names

structure PppoeInv (plan : FrozenBatchPlan) (s : PppoeManager) : Prop where
  jobs : Inv none s.sys
  outcomes : ∀ key idx, .itemSettled key idx .cancelledError ∉ s.sys.log
  untouched : s.taken = false →
    s.batches = [] ∧ s.uci = [] ∧ s.deleteJobs = [] ∧ ∀ key, s.sys.jobs.runs.get? key = none
  single : s.batches.length ≤ 1
  names : ∀ batch ∈ s.batches, allBatchNames batch = .ok plan.names
  uci : ∀ name ∈ s.uci, name ∈ plan.names
  sections : ∀ key j, s.sys.jobs.runs.get? key = some j → ∀ chunk, .applyChunk chunk ∈ j.works →
    ∀ name ∈ chunk.sections, name ∈ plan.names
  deleteKeys : ∀ entry ∈ s.deleteJobs, entry.1 < s.sys.jobs.nextKey
  creating : s.CreatePending → s.batches ≠ [] ∧
    ∀ entry ∈ s.deleteJobs, s.sys.jobs.runs.get? entry.1 = none
  deleting : ∀ entry ∈ s.deleteJobs, ∀ j, s.sys.jobs.runs.get? entry.1 = some j →
    j.waiting = true → (∀ item ∈ j.settled, item.status = .ok) →
    ∀ name ∈ s.uci, ToDelete s.committed entry.1 j.works name
  gone : s.NoOrphans

theorem names_managed {plan : FrozenBatchPlan} :
    ∀ name ∈ plan.names, isManagedSectionName name = true := by
  intro name hn
  unfold FrozenBatchPlan.names at hn
  split at hn
  · rename_i chunks h
    exact (allBatchNames_record h [] 0).2 name hn
  · cases hn

theorem pppoeInv_init (plan : FrozenBatchPlan) (history : List OpenWrtJob) (nextSeq : Nat) :
    PppoeInv plan (init history nextSeq) := by
  constructor
  case jobs => exact inv_init history
  case creating =>
    rintro ⟨key, j, hget, -⟩
    cases hget
  case untouched => exact fun _ => ⟨rfl, rfl, rfl, fun key => rfl⟩
  all_goals simp [init, JobSystem.init, Jobs.init, NoOrphans, OrderedMap.get?, OrderedMap.empty]

/-- Jobs that lose no flag and gain no work keep the facts about chunks to create. -/
theorem createPending_of_runs {s t : PppoeManager}
    (h : ∀ key j, t.sys.jobs.runs.get? key = some j → ∃ i, s.sys.jobs.runs.get? key = some i ∧
      (j.waiting = true → i.waiting = true) ∧ ∀ w ∈ j.works, w ∈ i.works)
    (hc : t.CreatePending) : s.CreatePending := by
  obtain ⟨key, j, hget, hwait, w, hw, ha⟩ := hc
  obtain ⟨i, hi, hiw, hworks⟩ := h key j hget
  exact ⟨key, i, hi, hiw hwait, w, hworks w hw, ha⟩

theorem pppoeInv_cancel {plan : FrozenBatchPlan} {s : PppoeManager} (id : Text)
    (h : PppoeInv plan s) : PppoeInv plan { s with sys := s.sys.step (.cancel id) } := by
  have hget := cancel_get? s.sys.jobs id
  have hback : ∀ key j, (s.sys.step (.cancel id)).jobs.runs.get? key = some j →
      ∃ i, s.sys.jobs.runs.get? key = some i ∧ j.works = i.works ∧ j.waiting = i.waiting ∧
        j.settled = i.settled := by
    intro key j hj
    rcases hget key with hsame | ⟨i, hi, hflag⟩
    · exact ⟨j, hsame.symm.trans hj, rfl, rfl, rfl⟩
    · have : some j = some { i with cancelRequested := true } := hj.symm.trans hflag
      cases this
      exact ⟨i, hi, rfl, rfl, rfl⟩
  have hnone : ∀ key, s.sys.jobs.runs.get? key = none →
      (s.sys.step (.cancel id)).jobs.runs.get? key = none := by
    intro key hk
    cases hj : (s.sys.step (.cancel id)).jobs.runs.get? key with
    | none => rfl
    | some j =>
      obtain ⟨i, hi, -⟩ := hback key j hj
      rw [hk] at hi
      cases hi
  have hlog : ∀ key idx, .itemSettled key idx .cancelledError ∉ (s.sys.step (.cancel id)).log := by
    intro key idx hm
    have hcases : (s.sys.jobs.cancel id).2 = [] ∨
        ∃ k, (s.sys.jobs.cancel id).2 = [.cancelRequested k] := by
      unfold Jobs.cancel
      split
      · exact .inl rfl
      · exact .inr ⟨_, rfl⟩
    simp only [JobSystem.step] at hm
    rcases hcases with hc | ⟨k, hc⟩
    · exact h.outcomes key idx (by simpa [hc] using hm)
    · exact h.outcomes key idx (by simpa [hc] using hm)
  have hnext : (s.sys.step (.cancel id)).jobs.nextKey = s.sys.jobs.nextKey := by
    simp only [JobSystem.step, Jobs.cancel]
    split <;> rfl
  constructor
  · exact inv_cancel id h.jobs
  · exact hlog
  · intro ht
    obtain ⟨hb, hu, hd, hr⟩ := h.untouched ht
    exact ⟨hb, hu, hd, fun key => hnone key (hr key)⟩
  · exact h.single
  · exact h.names
  · exact h.uci
  · intro key j hj chunk hc
    obtain ⟨i, hi, hw, -⟩ := hback key j hj
    exact h.sections key i hi chunk (hw ▸ hc)
  · intro entry he
    rw [hnext]
    exact h.deleteKeys entry he
  · intro hc
    obtain ⟨hb, hd⟩ := h.creating (createPending_of_runs (fun key j hj => by
      obtain ⟨i, hi, hw, hwait, -⟩ := hback key j hj
      exact ⟨i, hi, fun hj' => hwait ▸ hj', fun w hm => hw ▸ hm⟩) hc)
    exact ⟨hb, fun entry he => hnone _ (hd entry he)⟩
  · intro entry he j hj hwait hok
    obtain ⟨i, hi, hw, hwait', hs⟩ := hback _ j hj
    rw [hw]
    exact h.deleting entry he i hi (hwait' ▸ hwait) (hs ▸ hok)
  · exact h.gone

theorem inFlight_eq_some {s : PppoeManager} {key : Nat} {work : PppoeWork}
    (h : s.inFlight key = some work) :
    ∃ j works, s.sys.jobs.runs.get? key = some j ∧ j.waiting = true ∧ j.works = work :: works := by
  unfold inFlight at h
  split at h
  · rename_i j hj
    split at h
    · rename_i hwait
      obtain ⟨works, hw⟩ := List.head?_eq_some_iff.mp h
      exact ⟨j, works, hj, hwait, hw⟩
    · cases h
  · cases h

theorem pppoeInv_write {plan : FrozenBatchPlan} {s : PppoeManager} (key : Nat)
    (written : List Text) (h : PppoeInv plan s) : PppoeInv plan (s.write key written) := by
  unfold write
  split
  · -- the create job adds sections, so the record is there and no delete job is
    rename_i chunk hflight
    obtain ⟨j, works, hget, hwait, hw⟩ := inFlight_eq_some hflight
    have hpending : s.CreatePending := ⟨key, j, hget, hwait, .applyChunk chunk, by simp [hw], rfl⟩
    obtain ⟨hrecorded, hnone⟩ := h.creating hpending
    refine { h with untouched := ?_, uci := ?_, deleting := ?_, gone := ?_ }
    · intro ht
      exact absurd (h.untouched ht).1 hrecorded
    · intro name hn
      rcases List.mem_append.mp hn with hn | hn
      · exact h.uci name hn
      · exact h.sections key j hget chunk (by simp [hw]) name (List.mem_filter.mp hn).1
    · intro entry he i hi
      rw [hnone entry he] at hi
      cases hi
    · exact fun _ hb => absurd hb hrecorded
  · rename_i names hflight
    obtain ⟨j, works, hget, hwait, hw⟩ := inFlight_eq_some hflight
    refine { h with untouched := ?_, uci := ?_, deleting := ?_, gone := ?_ }
    · intro ht
      obtain ⟨hb, hu, hd, hr⟩ := h.untouched ht
      exact ⟨hb, by simp [hu], hd, hr⟩
    · exact fun name hn => h.uci name (List.mem_filter.mp hn).1
    · intro entry he i hi hwaits hok name hn
      obtain ⟨hn, hleft⟩ := List.mem_filter.mp hn
      have hto := h.deleting entry he i hi hwaits hok name hn
      have hleft : ¬ (name ∈ checkedSections names ∧ name ∈ written) := of_decide_eq_true hleft
      dsimp only
      split
      · rename_i hall
        by_cases hk : entry.1 = key
        · -- the whole chunk was written: the name is in a later one
          rw [hk, hget] at hi
          cases hi
          have hnot : name ∉ checkedSections names := fun hm =>
            hleft ⟨hm, of_decide_eq_true (List.all_eq_true.mp hall name hm)⟩
          obtain ⟨others, ho, hm⟩ := hto
          refine ⟨others, ?_, hm⟩
          rw [hk, hw] at ho ⊢
          simp only [List.mem_cons, true_or, if_true, List.tail_cons]
          split at ho
          · exact ho
          · rcases List.mem_cons.mp ho with heq | ho
            · cases heq
              exact absurd hm hnot
            · exact ho
        · obtain ⟨others, ho, hm⟩ := hto
          exact ⟨others, by simpa [hk] using ho, hm⟩
      · exact hto
    · intro ht hb
      have := h.gone ht hb
      simp [this]
  · exact h

/-- The hook of a delete job keeps the invariant when no chunk is left to create and,
should the job be done, to delete. -/
theorem pppoeInv_onFinished {plan : FrozenBatchPlan} {s : PppoeManager} {key : Nat}
    {job : OpenWrtJob} {older : List (Action PppoeWork)} (h : PppoeInv plan s)
    (hpending : ∀ id, (key, id) ∈ s.deleteJobs → ¬ s.CreatePending)
    (hempty : ∀ id, (key, id) ∈ s.deleteJobs → job.state = .done → s.uci = []) :
    PppoeInv plan (s.onFinished (.onFinished key job :: older)) := by
  unfold onFinished
  dsimp only
  split
  · rename_i id hlookup
    have hmem : (key, id) ∈ s.deleteJobs := by
      obtain ⟨l₁, l₂, hl, -⟩ := List.lookup_eq_some_iff.mp hlookup
      simp [hl]
    have hsub : ∀ batch ∈ (if job.state = .done
        then s.batches.filter fun batch => decide (batch.id ≠ id) else s.batches),
        batch ∈ s.batches := by
      intro batch hb
      split at hb
      · exact (List.mem_filter.mp hb).1
      · exact hb
    refine { h with untouched := ?_, single := ?_, names := ?_, creating := ?_, gone := ?_ }
    · intro ht
      obtain ⟨hb, hu, hd, hr⟩ := h.untouched ht
      rw [hd] at hmem
      cases hmem
    · dsimp only
      split
      · exact (List.length_filter_le _ _).trans h.single
      · exact h.single
    · exact fun batch hb => h.names batch (hsub batch hb)
    · exact fun hc => absurd hc (hpending id hmem)
    · intro ht hb
      by_cases hd : job.state = .done
      · exact hempty id hmem hd
      · exact h.gone ht (by simpa [hd] using hb)
  · exact h

/-- A work that may end without its chunk written leaves the name to a later chunk. -/
theorem ToDelete.tail {committed : List Nat} {key : Nat} {work : PppoeWork}
    {works : List PppoeWork} {name : Text} (h : ToDelete committed key (work :: works) name)
    (hc : isUciChunk (some work) = true → key ∈ committed) :
    ToDelete (committed.filter fun other => decide (other ≠ key)) key works name := by
  obtain ⟨names, hm, hn⟩ := h
  refine ⟨names, ?_, hn⟩
  simp only [List.mem_filter, decide_eq_true_eq, ne_eq, not_true_eq_false, and_false, if_false]
  split at hm
  · exact hm
  · rename_i hnot
    rcases List.mem_cons.mp hm with rfl | hm
    · exact absurd (hc rfl) hnot
    · exact hm

theorem pppoeInv_settle {plan : FrozenBatchPlan} {s : PppoeManager} (key : Nat)
    (outcome : Except Text (Option Text)) (now : Int) (faults : Faults) (h : PppoeInv plan s) :
    PppoeInv plan (s.settle key outcome now faults) := by
  unfold settle
  split
  · exact h
  rename_i hguard
  dsimp only
  generalize hres : outcomeOf outcome = result
  have hthrew : result ≠ .cancelledError := by
    rw [← hres]
    cases outcome <;> simp [outcomeOf]
  have hisOk : (∃ note, result = .ok note) → outcome.isOk = true := by
    rintro ⟨note, hn⟩
    cases outcome with
    | ok note => rfl
    | error message => rw [← hres] at hn; cases hn
  obtain ⟨hother, hkey, hcases⟩ := settle_cases h.jobs key result now faults
  have hback : ∀ k j, (s.sys.jobs.settle key result now faults).1.runs.get? k = some j →
      ∃ i, s.sys.jobs.runs.get? k = some i ∧ (j.waiting = true → i.waiting = true) ∧
        ∀ w ∈ j.works, w ∈ i.works := by
    intro k j hj
    by_cases hk : k = key
    · subst hk
      rcases hcases with ⟨-, hsame⟩ | ⟨i, work, works, ended, next, hi, hwait, hw, -, -, -, hsub, -,
        ⟨hn, -⟩ | ⟨-, hn, -⟩⟩
      · exact ⟨j, (hsame j hj).1, id, fun _ hm => hm⟩
      · rw [hn] at hj
        cases hj
        exact ⟨i, hi, fun _ => hwait, fun w hm => hw ▸ List.mem_cons_of_mem _ (hsub w hm)⟩
      · rw [hn] at hj
        cases hj
    · exact ⟨j, (hother k hk).symm.trans hj, id, fun _ hm => hm⟩
  have hlog : ∀ k idx, .itemSettled k idx .cancelledError ∉
      (s.sys.step (.settle key result now faults)).log := by
    intro k idx hm
    rcases List.mem_append.mp hm with hm | hm
    · rcases hcases with ⟨hr, -⟩ | ⟨i, work, works, ended, next, -, -, -, -, -, -, -, -,
        ⟨-, idx', hr⟩ | ⟨-, -, job, -, hr | hr⟩⟩ <;> rw [hr] at hm <;> simp at hm <;>
        exact hthrew hm.2.2.symm
    · exact h.outcomes k idx hm
  have hpendingOf : ∀ {t : PppoeManager},
      t.sys = s.sys.step (.settle key result now faults) → t.CreatePending → s.CreatePending := by
    intro t ht
    exact createPending_of_runs fun k j hj => hback k j (by rwa [ht] at hj)
  have hnone : ∀ k, s.sys.jobs.runs.get? k = none →
      (s.sys.jobs.settle key result now faults).1.runs.get? k = none := by
    intro k hk
    cases hj : (s.sys.jobs.settle key result now faults).1.runs.get? k with
    | none => rfl
    | some j =>
      obtain ⟨i, hi, -⟩ := hback k j hj
      rw [hk] at hi
      cases hi
  have hbase : PppoeInv plan { s with
      sys := s.sys.step (.settle key result now faults)
      committed := s.committed.filter fun other => decide (other ≠ key) } := by
    constructor
    · exact inv_settle key result now faults h.jobs
    · exact hlog
    · intro ht
      obtain ⟨hb, hu, hd, hr⟩ := h.untouched ht
      exact ⟨hb, hu, hd, fun k => hnone k (hr k)⟩
    · exact h.single
    · exact h.names
    · exact h.uci
    · intro k j hj chunk hc
      obtain ⟨i, hi, -, hsub⟩ := hback k j hj
      exact h.sections k i hi chunk (hsub _ hc)
    · intro entry he
      exact Nat.lt_of_lt_of_eq (h.deleteKeys entry he) hkey.symm
    · intro hc
      obtain ⟨hb, hd⟩ := h.creating (hpendingOf rfl hc)
      exact ⟨hb, fun entry he => hnone _ (hd entry he)⟩
    · intro entry he j hj hwait hok name hn
      by_cases hk : entry.1 = key
      · rw [hk] at hj ⊢
        rcases hcases with ⟨-, hsame⟩ | ⟨i, work, works, ended, next, hi, hiwait, hw, hsub, hended,
          hendedOk, -, hworks, ⟨hnext, -⟩ | ⟨-, hnext, -⟩⟩
        · rw [(hsame j hj).2] at hwait
          cases hwait
        · have hnj : next = j := Option.some.inj (hnext.symm.trans hj)
          subst hnj
          have hto := h.deleting entry he i (by rw [hk, hi]) hiwait
            (fun item hi => hok item (hsub item hi)) name hn
          rw [hk, hw] at hto
          rw [hworks hok]
          refine hto.tail fun hchunk => ?_
          have hflight : s.inFlight key = some work := by
            simp [inFlight, hi, hiwait, hw]
          have hisok := hisOk (hendedOk (hok ended hended))
          simpa [hflight, hchunk, hisok] using hguard
        · cases hnext.symm.trans hj
      · have hj' := (hother entry.1 hk).symm.trans hj
        obtain ⟨names, hm, hnames⟩ := h.deleting entry he j hj' hwait hok name hn
        exact ⟨names, by simpa [hk] using hm, hnames⟩
    · exact h.gone
  rcases hcases with ⟨hr, -⟩ | ⟨i, work, works, ended, next, hi, hiwait, hw, hsub, hended, hendedOk,
    -, hworks, ⟨-, idx, hr⟩ | ⟨hnil, -, job, hitems, hr | hr⟩⟩
  · rw [hr]
    exact hbase
  · rw [hr]
    exact hbase
  · rw [hr]
    exact hbase
  · rw [hr]
    refine pppoeInv_onFinished hbase (fun id hm hc => ?_) fun id hm hd => ?_
    · -- no chunk is left to create while a delete job runs
      have := (h.creating (hpendingOf rfl hc)).2 (key, id) hm
      rw [hi] at this
      cases this
    · -- every chunk of the delete job was written
      have hok : ∀ item ∈ next.settled, item.status = .ok := by
        rw [← hitems]
        refine ok_of_done (inv_settle key result now faults h.jobs).ordered ?_ (hlog key) hd
        simp [JobSystem.step, hr]
      have hempty : works = [] := (hworks hok).symm.trans hnil
      refine List.eq_nil_iff_forall_not_mem.mpr fun name hn => ?_
      have hto := h.deleting (key, id) hm i hi hiwait (fun item hi => hok item (hsub item hi)) name hn
      rw [hw, hempty] at hto
      obtain ⟨names, hmem, -⟩ := hto.tail fun hchunk => by
        have hflight : s.inFlight key = some work := by
          simp [inFlight, hi, hiwait, hw]
        have hisok := hisOk (hendedOk (hok ended hended))
        simpa [hflight, hchunk, hisok] using hguard
      simp at hmem

theorem started_log {s : PppoeManager} {spec : JobSpec PppoeWork} {draws : Nat → Int × Text}
    {now : Int} {faults : Faults} {plan : FrozenBatchPlan} (h : PppoeInv plan s) :
    ∀ key idx, .itemSettled key idx .cancelledError ∉
      (s.sys.step (.start spec draws now faults)).log := by
  intro key idx hm
  rcases List.mem_append.mp hm with hm | hm
  · exact (start_cases h.jobs spec draws now faults).2.2.2.2.1 key idx _ hm
  · exact h.outcomes key idx hm

theorem pppoeInv_apply {plan : FrozenBatchPlan} {s : PppoeManager} (zoneName id : Text)
    (draws : Nat → Int × Text) (now : Int) (faults : Faults) (h : PppoeInv plan s)
    (hdraws : ∃ attempt < 50, jobIdText (draws attempt) ∉ s.sys.jobs.takenIds) :
    PppoeInv plan (apply plan zoneName s id draws now faults) := by
  unfold apply
  split
  · exact h
  rename_i htaken
  obtain ⟨hbatches, huci, hdelete, hruns⟩ := h.untouched (by simpa using htaken)
  split
  · -- the plan is refused before anything is recorded
    exact { h with untouched := fun ht => (by cases ht), gone := fun _ _ => huci }
  rename_i chunks hchunks
  have hnames : plan.names = chunks.flatMap PppoeUciChunk.sections := by
    simp [FrozenBatchPlan.names, hchunks]
  dsimp only
  generalize hspec : createSpec (plan.record id now) zoneName chunks = spec
  obtain ⟨hother, -, -, hnew, -, -⟩ := start_cases h.jobs spec draws now faults
  have honly : ∀ k j, (s.sys.jobs.start spec draws now faults).1.runs.get? k = some j →
      k = s.sys.jobs.nextKey := by
    intro k j hj
    by_contra hk
    rw [hother k hk, hruns k] at hj
    cases hj
  have hsub : ∀ batch ∈ (if (s.sys.jobs.start spec draws now faults).2.2.isSome
      then s.batches ++ [plan.record id now]
      else (s.batches ++ [plan.record id now]).filter fun entry => decide (entry.id ≠ id)),
      batch = plan.record id now := by
    intro batch hb
    rw [hbatches] at hb
    split at hb
    · simpa using hb
    · simpa using (List.mem_filter.mp hb).1
  constructor
  · exact inv_start spec draws now faults h.jobs hdraws
  · exact started_log h
  · exact fun ht => by cases ht
  · dsimp only
    rw [hbatches]
    split
    · simp
    · exact List.length_filter_le _ _
  · intro batch hb
    rw [hsub batch hb, hnames]
    exact (allBatchNames_record hchunks id now).1
  · rw [huci]
    simp
  · intro k j hj chunk hc name hn
    rw [honly k j hj] at hj
    have hmem := (hnew j hj).1 _ hc
    rw [← hspec] at hmem
    rw [hnames]
    exact List.mem_flatMap.mpr ⟨chunk, works_createSpec _ _ _ chunk hmem, hn⟩
  · rw [hdelete]
    simp
  · rintro ⟨k, j, hj, hwait, -⟩
    rw [hdelete]
    refine ⟨?_, by simp⟩
    rw [honly k j hj] at hj
    cases hs : (s.sys.jobs.start spec draws now faults).2.2 with
    | none =>
      have := (hnew j hj).2.1 hs
      rw [hwait] at this
      cases this
    | some key => simp
  · rw [hdelete]
    simp
  · exact fun _ _ => huci

/-- A delete job starts while no chunk is left to create. -/
theorem pppoeInv_deleteStarted {plan : FrozenBatchPlan} {s : PppoeManager}
    {spec : JobSpec PppoeWork} {waves : List (List Text)} (deleting : List Text)
    (deleteJobs : List (Nat × Text)) (draws : Nat → Int × Text) (now : Int) (faults : Faults)
    (h : PppoeInv plan s) (hrecorded : s.batches ≠ []) (hpending : ¬ s.CreatePending)
    (hdraws : ∃ attempt < 50, jobIdText (draws attempt) ∉ s.sys.jobs.takenIds)
    (hwaves : waves.flatten = plan.names)
    (hworks : spec.items.map JobItemSpec.work =
      .inspectDevices :: (waves.map .stopWave ++ waves.map .deleteChunk ++ [.cleanVlans]))
    (hjobs : ∀ entry ∈ deleteJobs, entry ∈ s.deleteJobs ∨ (entry.1 = s.sys.jobs.nextKey ∧
      (s.sys.jobs.start spec draws now faults).2.2.isSome = true)) :
    PppoeInv plan { s with
      sys := s.sys.step (.start spec draws now faults)
      deleting
      deleteJobs } ∧
    ¬ CreatePending { s with
      sys := s.sys.step (.start spec draws now faults)
      deleting
      deleteJobs } := by
  obtain ⟨hother, hle, hlt, hnew, -, -⟩ := start_cases h.jobs spec draws now faults
  have hnot : ¬ CreatePending { s with
      sys := s.sys.step (.start spec draws now faults)
      deleting
      deleteJobs } := by
    rintro ⟨k, j, hj, hwait, w, hw, ha⟩
    by_cases hk : k = s.sys.jobs.nextKey
    · subst hk
      have hm := (hnew j hj).1 w hw
      rw [hworks] at hm
      simp only [List.mem_cons, List.mem_append, List.mem_map, List.not_mem_nil, or_false] at hm
      rcases hm with rfl | (⟨_, -, rfl⟩ | ⟨_, -, rfl⟩) | rfl <;> cases ha
    · exact hpending ⟨k, j, (hother k hk).symm.trans hj, hwait, w, hw, ha⟩
  refine ⟨?_, hnot⟩
  constructor
  · exact inv_start spec draws now faults h.jobs hdraws
  · exact started_log h
  · exact fun ht => absurd (h.untouched ht).1 hrecorded
  · exact h.single
  · exact h.names
  · exact h.uci
  · intro k j hj chunk hc
    by_cases hk : k = s.sys.jobs.nextKey
    · subst hk
      have hm := (hnew j hj).1 _ hc
      rw [hworks] at hm
      simp at hm
    · exact h.sections k j ((hother k hk).symm.trans hj) chunk hc
  · intro entry he
    rcases hjobs entry he with he | ⟨hk, hsome⟩
    · exact Nat.lt_of_lt_of_le (h.deleteKeys entry he) hle
    · exact hk ▸ hlt hsome
  · exact fun hc => absurd hc hnot
  · intro entry he j hj hwait hok name hn
    rcases hjobs entry he with he | ⟨hk, -⟩
    · have hk := h.deleteKeys entry he
      exact h.deleting entry he j ((hother entry.1 (by omega)).symm.trans hj) hwait hok name hn
    · have hmem := h.uci name hn
      rw [← hwaves] at hmem
      obtain ⟨wave, hwave, hname⟩ := List.mem_flatten.mp hmem
      rw [hk] at hj
      rw [(hnew j hj).2.2 hok, hworks]
      refine ⟨wave, ?_, mem_checkedSections.mpr ⟨hname, names_managed name (h.uci name hn)⟩⟩
      split <;> simp [hwave]
  · exact fun _ hb => absurd hb hrecorded

theorem pppoeInv_batchDelete {plan : FrozenBatchPlan} {s : PppoeManager} (id : Text)
    (draws : Nat → Int × Text) (now : Int) (faults : Faults) (h : PppoeInv plan s)
    (hpending : ¬ s.CreatePending)
    (hdraws : ∃ attempt < 50, jobIdText (draws attempt) ∉ s.sys.jobs.takenIds) :
    PppoeInv plan (batchDelete plan s id draws now faults) := by
  unfold batchDelete
  split
  · exact h
  rename_i batch hfind
  split
  · exact h
  have hmem := List.mem_of_find?_eq_some hfind
  rw [h.names batch hmem]
  dsimp only
  have hwaves := flatten_chunkValues plan.names
    (effectivePppoeChunkSize plan.names.length plan.uciChunkSize)
  generalize chunkValues plan.names
    (effectivePppoeChunkSize plan.names.length plan.uciChunkSize) = waves at hwaves ⊢
  have hworks := works_deleteSpec batch waves
  generalize deleteSpec batch waves = spec at hworks ⊢
  have hrecorded : s.batches ≠ [] := List.ne_nil_of_mem hmem
  split
  · rename_i hsome
    obtain ⟨hbase, hnot⟩ := pppoeInv_deleteStarted (s.deleting ++ [id])
      ((s.sys.jobs.nextKey, id) :: s.deleteJobs) draws now faults h hrecorded hpending hdraws
      hwaves hworks fun entry he => by
        rcases List.mem_cons.mp he with rfl | he
        · exact .inr ⟨rfl, hsome⟩
        · exact .inl he
    cases hacts : (s.sys.jobs.start spec draws now faults).2.1 with
    | nil => exact hbase
    | cons action older =>
      cases action with
      | onFinished key job =>
        obtain ⟨-, -, hfin, hall⟩ := (start_cases h.jobs spec draws now faults).2.2.2.2.2 key job
          older hacts
        refine pppoeInv_onFinished hbase (fun _ _ => hnot) fun _ _ hd => ?_
        have hitems := hall (ok_of_done hbase.jobs.ordered ?_ (hbase.outcomes key) hd)
        · rw [hitems] at hworks
          cases hworks
        · simp [JobSystem.step, hacts, hfin]
      | _ => exact hbase
  · exact (pppoeInv_deleteStarted s.deleting s.deleteJobs draws now faults h hrecorded hpending hdraws hwaves hworks
      fun entry he => .inl he).1

/-- Every step of the manager that meets the condition keeps the invariant. -/
theorem pppoeInv_step {plan : FrozenBatchPlan} {zoneName : Text} {s : PppoeManager}
    {event : PppoeEvent} (h : PppoeInv plan s) (hok : s.DeletesAfterCreate event) :
    PppoeInv plan (step plan zoneName s event) := by
  cases event with
  | apply id draws now faults => exact pppoeInv_apply zoneName id draws now faults h hok
  | batchDelete id draws now faults =>
    exact pppoeInv_batchDelete id draws now faults h hok.1 hok.2
  | write key written => exact pppoeInv_write key written h
  | settle key outcome now faults => exact pppoeInv_settle key outcome now faults h
  | cancel id => exact pppoeInv_cancel id h

/-- When every delete is asked for after the chunks of the create job, no section is
left, and none comes later, once the record of the batch is removed. -/
theorem no_orphaned_sections (plan : FrozenBatchPlan) (zoneName : Text)
    (history : List OpenWrtJob) (nextSeq : Nat) (events : List PppoeEvent)
    (h : Guarded (step plan zoneName) DeletesAfterCreate (init history nextSeq) events) :
    NoOrphans (run (step plan zoneName) (init history nextSeq) events) :=
  (run_preserves (fun _ _ hs hok => pppoeInv_step hs hok) h
    (pppoeInv_init plan history nextSeq) : PppoeInv plan _).gone

theorem not_createPending_of_keys {s : PppoeManager} (h : s.sys.jobs.runs.keys = []) :
    ¬ s.CreatePending := by
  rintro ⟨key, j, hget, -⟩
  have hmem := OrderedMap.mem_keys.mpr ⟨j, OrderedMap.get?_eq_some.mp hget⟩
  rw [h] at hmem
  cases hmem

def onePlan : FrozenBatchPlan where
  name := js "b"
  carrier := js "eth1"
  ifacePrefix := js "pd"
  vlan := none
  rows := [⟨js "u", js "p", none⟩]
  seqFrom := 1
  seqTo := 1
  tableBase := .fin 10000
  uciChunkSize := 100
  rows_ne := by decide
  rows_le := by decide
  seqFrom_pos := by decide
  seqTo_eq := by decide

def ok (key : Nat) : PppoeEvent := .settle key (.ok none) 0 noFaults

/-- A whole delete job, whose key is `key`. -/
def deleteAll (key : Nat) : List PppoeEvent :=
  [ok key, ok key, .write key [js "pd00001"], ok key, ok key]

theorem no_orphaned_sections_after_create :
    NoOrphans (run (step onePlan (js "wan")) (init [] 1)
      ([.apply (js "x") (fun _ => (0, js "a")) 0 noFaults, .write 0 [js "pd00001"], ok 0, ok 0,
        ok 0, .batchDelete (js "x") (fun _ => (0, js "b")) 0 noFaults] ++ deleteAll 1)) := by
  apply no_orphaned_sections
  exact ⟨⟨0, by decide, by decide +kernel⟩, trivial, trivial, trivial, trivial,
    ⟨not_createPending_of_keys (by decide +kernel), 0, by decide, by decide +kernel⟩,
    trivial, trivial, trivial, trivial, trivial, trivial⟩

/-- The batch is deleted while its only chunk is in flight: the record goes, and the
chunk is written afterwards. -/
theorem orphan_after_early_delete :
    ¬ ∀ events : List PppoeEvent,
      NoOrphans (run (step onePlan (js "wan")) (init [] 1) events) := by
  intro hclaim
  have hempty := hclaim ([.apply (js "x") (fun _ => (0, js "a")) 0 noFaults,
    .batchDelete (js "x") (fun _ => (0, js "b")) 0 noFaults] ++ deleteAll 1 ++
      [.write 0 [js "pd00001"]]) (by decide +kernel)
      (List.isEmpty_iff.mp (by decide +kernel))
  exact absurd hempty (by decide +kernel)

end PppoeManager
end BoredManager.OpenWrt
