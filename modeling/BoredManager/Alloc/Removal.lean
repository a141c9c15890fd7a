import Mathlib.Data.List.Perm.Basic
import Mathlib.Tactic.Common

/-! Removing rows of a table by a label: the first row of each listed label goes.
When the label tells the rows apart that are to go, exactly those go; when it is
coarser, that depends on the order of the table. -/
namespace BoredManager.Alloc

variable {α β : Type*} [DecidableEq β] {label : α → Option β} {key : α → β}
  {doomed : α → Bool} {listed : List β} {rows : List α}

/-- Rows whose label is listed go, one for each time that it is listed. -/
def dropListed (label : α → Option β) : List β → List α → List α
  | _, [] => []
  | listed, row :: rows =>
    match label row with
    | some l =>
      if l ∈ listed then dropListed label (listed.erase l) rows
      else row :: dropListed label listed rows
    | none => row :: dropListed label listed rows

attribute [local grind] dropListed

@[simp] theorem dropListed_empty (label : α → Option β) (listed : List β) :
    dropListed label listed [] = [] := by rw [dropListed]

theorem dropListed_drop {row : α} {l : β} (hl : label row = some l) (hm : l ∈ listed) :
    dropListed label listed (row :: rows) = dropListed label (listed.erase l) rows := by
  rw [dropListed, hl]
  exact if_pos hm

theorem dropListed_keep {row : α} (h : ∀ l, label row = some l → l ∉ listed) :
    dropListed label listed (row :: rows) = row :: dropListed label listed rows := by
  rw [dropListed]
  cases hl : label row with
  | none => rfl
  | some l => exact if_neg (h l hl)

theorem dropKeyed_drop {row : α} (hm : key row ∈ listed) :
    dropListed (fun a => some (key a)) listed (row :: rows) =
      dropListed (fun a => some (key a)) (listed.erase (key row)) rows := by
  simp [dropListed, hm]

theorem dropKeyed_keep {row : α} (hm : key row ∉ listed) :
    dropListed (fun a => some (key a)) listed (row :: rows) =
      row :: dropListed (fun a => some (key a)) listed rows := by
  simp [dropListed, hm]

theorem dropListed_sublist (label : α → Option β) (listed : List β) (rows : List α) :
    (dropListed label listed rows).Sublist rows := by
  induction rows generalizing listed with
  | nil => rw [dropListed_empty]
  | cons row rows ih =>
    rw [dropListed]
    split
    · split
      · exact (ih _).cons _
      · exact (ih _).cons_cons _
    · exact (ih _).cons_cons _

theorem dropListed_nil (rows : List α) : dropListed label ([] : List β) rows = rows := by
  induction rows with
  | nil => rw [dropListed_empty]
  | cons row rows ih => rw [dropListed_keep (fun _ _ h => by cases h), ih]

/-- One removal of the first row with a key, then the others. -/
theorem dropListed_cons (k : β) (listed : List β) (rows : List α) :
    dropListed (fun a => some (key a)) (k :: listed) rows =
      dropListed (fun a => some (key a)) listed (rows.eraseP fun a => key a == k) := by
  induction rows generalizing listed with
  | nil => rfl
  | cons row rows ih =>
    by_cases hk : key row = k
    · subst hk
      rw [dropKeyed_drop List.mem_cons_self, List.erase_cons_head,
        List.eraseP_cons_of_pos (by simp)]
    · rw [List.eraseP_cons_of_neg (by simpa using hk)]
      have hkr : ¬(k == key row) = true := by simpa using fun h => hk h.symm
      by_cases hm : key row ∈ listed
      · rw [dropKeyed_drop (List.mem_cons_of_mem _ hm), List.erase_cons_tail hkr, ih,
          dropKeyed_drop hm]
      · have hm' : key row ∉ k :: listed := by
          rw [List.mem_cons, not_or]
          exact ⟨hk, hm⟩
        rw [dropKeyed_keep hm', ih,
          dropKeyed_keep hm]

/-- Removals by key, one after another. -/
theorem foldl_eraseP_eq_dropListed (listed : List β) (rows : List α) :
    listed.foldl (fun rows k => rows.eraseP fun a => key a == k) rows =
      dropListed (fun a => some (key a)) listed rows := by
  induction listed generalizing rows with
  | nil => rw [dropListed_nil]; rfl
  | cons k listed ih => rw [List.foldl_cons, ih, dropListed_cons]

/-- A label that says whether a row is to go removes just the rows that are. -/
theorem dropListed_eq_filter (hlisted : listed.Perm ((rows.filter doomed).filterMap label))
    (hlabel : ∀ a ∈ rows, doomed a = true → label a ≠ none)
    (hsame : ∀ a ∈ rows, ∀ b ∈ rows, label a = label b → doomed b = true → doomed a = true) :
    dropListed label listed rows = rows.filter fun a => !doomed a := by
  induction rows generalizing listed with
  | nil => rfl
  | cons row rows ih =>
    have hlabel' := fun a ha => hlabel a (List.mem_cons_of_mem _ ha)
    have hsame' := fun a ha b hb => hsame a (List.mem_cons_of_mem _ ha) b (List.mem_cons_of_mem _ hb)
    cases hd : doomed row with
    | true =>
      obtain ⟨l, hl⟩ := Option.ne_none_iff_exists'.mp (hlabel row List.mem_cons_self hd)
      rw [List.filter_cons_of_pos hd, List.filterMap_cons_some hl] at hlisted
      have hm : l ∈ listed := hlisted.mem_iff.mpr List.mem_cons_self
      have herase := hlisted.erase l
      rw [List.erase_cons_head] at herase
      rw [dropListed_drop hl hm, ih herase hlabel' hsame', List.filter_cons_of_neg (by simp [hd])]
    | false =>
      rw [List.filter_cons_of_neg (by simp [hd])] at hlisted
      rw [dropListed_keep, ih hlisted hlabel' hsame', List.filter_cons_of_pos (by simp [hd])]
      -- a row of the same label that is to go would take this one along
      intro l hl hm
      obtain ⟨b, hb, hbl⟩ := List.mem_filterMap.mp (hlisted.mem_iff.mp hm)
      obtain ⟨hb, hbd⟩ := List.mem_filter.mp hb
      have := hsame row List.mem_cons_self b (List.mem_cons_of_mem _ hb) (hl.trans hbl.symm) hbd
      rw [hd] at this
      cases this

theorem countP_dropListed (key : α → β) (k : β) (listed : List β) (rows : List α)
    (h : ∀ l ∈ listed, listed.count l ≤ rows.countP fun a => key a == l) :
    (dropListed (fun a => some (key a)) listed rows).countP (fun a => key a == k) +
      listed.count k = rows.countP fun a => key a == k := by
  induction rows generalizing listed with
  | nil =>
    have hnil : listed = [] := by
      cases listed with
      | nil => rfl
      | cons l listed =>
        have := h l List.mem_cons_self
        simp at this
    simp [hnil]
  | cons row rows ih =>
    by_cases hm : key row ∈ listed
    · have hrest : ∀ l ∈ listed.erase (key row), (listed.erase (key row)).count l ≤
          rows.countP fun a => key a == l := by
        intro l hl
        have hle := h l (List.mem_of_mem_erase hl)
        rw [List.countP_cons] at hle
        by_cases hkl : key row = l
        · subst hkl
          rw [List.count_erase_self]
          simp only [beq_self_eq_true, if_true] at hle
          omega
        · rw [List.count_erase_of_ne (fun h => hkl h.symm)]
          simpa [hkl] using hle
      have hih := ih (listed.erase (key row)) hrest
      rw [dropKeyed_drop hm, List.countP_cons]
      by_cases hk : key row = k
      · subst hk
        rw [List.count_erase_self] at hih
        have hpos := List.count_pos_iff.mpr hm
        simp only [beq_self_eq_true, if_true]
        omega
      · rw [List.count_erase_of_ne (fun h => hk h.symm)] at hih
        simpa [hk] using hih
    · rw [dropKeyed_keep hm, List.countP_cons, List.countP_cons]
      have hih := ih listed fun l hl => by
        have hle := h l hl
        have hne : key row ≠ l := fun heq => hm (heq ▸ hl)
        simpa [List.countP_cons, hne] using hle
      omega

/-- A row that goes in place of another with its key leaves that one in the table. -/
theorem not_perm_of_stays {row : α} (hlisted : listed.Perm ((rows.filter doomed).map key))
    (hd : doomed row = false) (hm : key row ∈ listed) :
    ¬(dropListed (fun a => some (key a)) listed (row :: rows)).Perm
      (row :: rows.filter fun a => !doomed a) := by
  intro hperm
  have hsplit : ∀ l, rows.countP (fun a => key a == l) =
      listed.count l + (rows.filter fun a => !doomed a).countP fun a => key a == l := by
    intro l
    rw [hlisted.count_eq, List.count, List.countP_map,
      List.countP_eq_countP_filter_add rows _ doomed]
    rfl
  have hcount := countP_dropListed key (key row) listed (row :: rows) fun l _ => by
    rw [List.countP_cons, hsplit]
    omega
  rw [dropKeyed_drop hm] at hperm hcount
  -- what is left is a part of the later rows without one that is to go
  have hkept : ∀ a ∈ dropListed (fun a => some (key a)) (listed.erase (key row)) rows,
      (!doomed a) = true := by
    intro a ha
    rcases List.mem_cons.mp (hperm.mem_iff.mp ha) with rfl | ha
    · rw [hd]
      rfl
    · exact (List.mem_filter.mp ha).2
  have hsub := (dropListed_sublist (fun a => some (key a)) (listed.erase (key row)) rows).filter
    fun a => !doomed a
  rw [List.filter_eq_self.mpr hkept] at hsub
  have hle := hsub.countP_le (p := fun a => key a == key row)
  rw [List.countP_cons_of_pos (by simp), hsplit] at hcount
  omega

/-- Removal by a key that other rows share removes the rows that are to go iff none
of the others stands before one of them. -/
theorem dropListed_perm_iff (hlisted : listed.Perm ((rows.filter doomed).map key)) :
    (dropListed (fun a => some (key a)) listed rows).Perm (rows.filter fun a => !doomed a) ↔
      rows.Pairwise fun a b => key a = key b → doomed b = true → doomed a = true := by
  induction rows generalizing listed with
  | nil => simp
  | cons row rows ih =>
    cases hd : doomed row with
    | true =>
      rw [List.filter_cons_of_pos hd, List.map_cons] at hlisted
      have hm : key row ∈ listed := hlisted.mem_iff.mpr List.mem_cons_self
      have herase := hlisted.erase (key row)
      rw [List.erase_cons_head] at herase
      rw [dropKeyed_drop hm, List.filter_cons_of_neg (by simp [hd]), ih herase,
        List.pairwise_cons]
      simp [hd]
    | false =>
      rw [List.filter_cons_of_neg (by simp [hd])] at hlisted
      rw [List.filter_cons_of_pos (by simp [hd]), List.pairwise_cons]
      by_cases hm : key row ∈ listed
      · -- the row goes in place of a later one, which stays
        obtain ⟨b, hb, hbk⟩ := List.mem_map.mp (hlisted.mem_iff.mp hm)
        obtain ⟨hb, hbd⟩ := List.mem_filter.mp hb
        have hright : ¬∀ b ∈ rows, key row = key b → doomed b = true → doomed row = true := by
          intro hall
          have := hall b hb hbk.symm hbd
          rw [hd] at this
          cases this
        exact ⟨fun hperm => absurd hperm (not_perm_of_stays hlisted hd hm),
          fun hpair => absurd (hd ▸ hpair.1) hright⟩
      · rw [dropKeyed_keep hm, List.perm_cons, ih hlisted]
        refine ⟨fun hpair => ⟨fun b hb hk hbd => ?_, hpair⟩, fun hpair => hpair.2⟩
        exact absurd (hlisted.mem_iff.mpr (List.mem_map.mpr
          ⟨b, List.mem_filter.mpr ⟨hb, hbd⟩, hk.symm⟩)) hm

/-- The groups of distinct keys, one after another, are the rows with those keys. -/
theorem flatMap_groups_perm (key : α → β) {keys : List β} (hn : keys.Nodup) (rows : List α) :
    (keys.flatMap fun k => rows.filter fun a => key a == k).Perm
      (rows.filter fun a => decide (key a ∈ keys)) := by
  induction keys with
  | nil => simp
  | cons k keys ih =>
    obtain ⟨hk, hn⟩ := List.nodup_cons.mp hn
    rw [List.flatMap_cons]
    refine ((ih hn).append_left _).trans ?_
    have hsplit := List.filter_append_perm (fun a => key a == k)
      (rows.filter fun a => decide (key a ∈ k :: keys))
    rw [List.filter_filter, List.filter_filter] at hsplit
    refine (List.Perm.of_eq ?_).trans hsplit
    congr 1
    · refine List.filter_congr fun a _ => ?_
      by_cases h : key a = k <;> simp [h]
    · refine List.filter_congr fun a _ => ?_
      by_cases h : key a = k
      · simp [h, hk]
      · simp [h]

end BoredManager.Alloc
