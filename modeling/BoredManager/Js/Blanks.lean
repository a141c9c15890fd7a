import BoredManager.Js.Text
import Mathlib.Data.List.TakeWhile

/-! Blanks in texts: what `trim` takes away, and the runs of white space that become one blank. -/
namespace BoredManager.Js

/-- What `trim` takes away is white space. -/
theorem mem_trim_or_space {s : Text} {u : Nat} (h : u ∈ s) : isSpace u = true ∨ u ∈ trim s := by
  have hcut : ∀ {l : Text}, u ∈ l → isSpace u = true ∨ u ∈ l.dropWhile isSpace := by
    intro l hu
    rw [← List.takeWhile_append_dropWhile (p := isSpace) (l := l)] at hu
    exact (List.mem_append.mp hu).imp_left fun hu => List.mem_takeWhile_imp hu
  obtain hspace | hleft := hcut h
  · exact .inl hspace
  · exact (hcut (List.mem_reverse.mpr hleft)).imp_right List.mem_reverse.mpr

theorem getLast?_trim_not_space {s : Text} {u : Nat} (h : u ∈ (trim s).getLast?) : isSpace u = false := by
  rw [trim, List.getLast?_reverse] at h
  have hd := List.head?_dropWhile_not isSpace (s.dropWhile isSpace).reverse
  rw [h] at hd
  simpa using hd

/-- A text without blanks at its ends. -/
theorem trim_of_ends {s : Text} (hhead : ∀ u ∈ s.head?, isSpace u = false)
    (hlast : ∀ u ∈ s.getLast?, isSpace u = false) : trim s = s := by
  have hback : ∀ u ∈ s.reverse.head?, isSpace u = false := by
    rw [List.head?_reverse]
    exact hlast
  rw [trim, dropWhile_of_head hhead, dropWhile_of_head hback, List.reverse_reverse]

theorem trim_cons_space {s : Text} {u : Nat} (h : isSpace u = true) : trim (u :: s) = trim s := by
  rw [trim, trim, List.dropWhile_cons_of_pos h]

/-- A blank behind a text that has none at its ends. -/
theorem trim_append_space {s : Text} {u : Nat} (hs : trim s = s) (h : isSpace u = true) :
    trim (s ++ [u]) = s := by
  cases s with
  | nil => rw [List.nil_append, trim_cons_space h, hs]
  | cons v s =>
    have hhead : isSpace v = false := head?_trim_not_space (s := v :: s) (by rw [hs]; rfl)
    have hback : ∀ w ∈ (v :: s).reverse.head?, isSpace w = false := by
      rw [List.head?_reverse]
      intro w hw
      exact getLast?_trim_not_space (s := v :: s) (by rwa [hs])
    rw [trim, List.cons_append, List.dropWhile_cons_of_neg (by simp [hhead]), ← List.cons_append,
      List.reverse_append, List.reverse_singleton, List.singleton_append, List.dropWhile_cons_of_pos h,
      dropWhile_of_head hback, List.reverse_reverse]

/-! ### One blank for a run -/

/-- The rest of `text.replace(/\s+/g, ' ')`, inside a run of white space or not. -/
def collapseFrom : Bool → Text → Text
  | _, [] => []
  | inRun, u :: s =>
    if isSpace u then (if inRun then collapseFrom true s else 32 :: collapseFrom true s)
    else u :: collapseFrom false s

/-- `text.replace(/\s+/g, ' ')` -/
def collapse (s : Text) : Text := collapseFrom false s

/-- Blanks stand alone, and none stands behind a run. -/
def Single : Bool → Text → Prop
  | _, [] => True
  | inRun, u :: s => if isSpace u = true then inRun = false ∧ u = 32 ∧ Single true s else Single false s

attribute [local grind] collapseFrom Single

theorem single_collapseFrom (inRun : Bool) (s : Text) : Single inRun (collapseFrom inRun s) := by
  induction s generalizing inRun with
  | nil => trivial
  | cons u s ih =>
    rw [collapseFrom]
    split_ifs with hspace hrun
    · rw [hrun]
      exact ih true
    · rw [Single, if_pos (by decide)]
      exact ⟨by simpa using hrun, rfl, ih true⟩
    · rw [Single, if_neg hspace]
      exact ih false

theorem Single.outside {inRun : Bool} {s : Text} (h : Single inRun s) : Single false s := by
  cases s with
  | nil => trivial
  | cons u s =>
    rw [Single] at h ⊢
    split_ifs at h ⊢
    · exact ⟨rfl, h.2⟩
    · exact h

/-- A text whose blanks stand alone stays as it is. -/
theorem collapseFrom_of_single {inRun : Bool} {s : Text} (h : Single inRun s) :
    collapseFrom inRun s = s := by
  induction s generalizing inRun with
  | nil => rfl
  | cons u s ih =>
    rw [Single] at h
    rw [collapseFrom]
    split_ifs at h with hspace
    · obtain ⟨rfl, rfl, hrest⟩ := h
      rw [if_pos hspace, if_neg (by decide), ih hrest]
    · rw [if_neg hspace, ih h]

theorem Single.dropWhile {inRun : Bool} {s : Text} (h : Single inRun s) :
    Single false (s.dropWhile isSpace) := by
  induction s generalizing inRun with
  | nil => trivial
  | cons u s ih =>
    by_cases hspace : isSpace u = true
    · rw [Single, if_pos hspace] at h
      rw [List.dropWhile_cons_of_pos hspace]
      exact ih h.2.2
    · rw [List.dropWhile_cons_of_neg hspace]
      exact h.outside

theorem Single.of_append {inRun : Bool} {s t : Text} (h : Single inRun (s ++ t)) : Single inRun s := by
  induction s generalizing inRun with
  | nil => trivial
  | cons u s ih =>
    rw [List.cons_append, Single] at h
    rw [Single]
    split_ifs at h ⊢
    · exact ⟨h.1, h.2.1, ih h.2.2⟩
    · exact ih h

theorem Single.trimmed {s : Text} (h : Single false s) : Single false (trim s) := by
  have hprefix : trim s <+: s.dropWhile isSpace := by
    have hsuffix := List.dropWhile_suffix (l := (s.dropWhile isSpace).reverse) isSpace
    have hrev := List.reverse_prefix.mpr hsuffix
    rwa [List.reverse_reverse] at hrev
  obtain ⟨rest, hrest⟩ := hprefix
  have hdropped := h.dropWhile
  rw [← hrest] at hdropped
  exact hdropped.of_append

theorem mem_collapseFrom {inRun : Bool} {s : Text} {u : Nat} (h : u ∈ collapseFrom inRun s) :
    u = 32 ∨ (u ∈ s ∧ isSpace u = false) := by
  induction s generalizing inRun with
  | nil => cases h
  | cons v s ih =>
    have hlater : ∀ {b}, u ∈ collapseFrom b s → u = 32 ∨ (u ∈ v :: s ∧ isSpace u = false) := fun hu =>
      (ih hu).imp_right fun hu => ⟨List.mem_cons_of_mem _ hu.1, hu.2⟩
    rw [collapseFrom] at h
    split_ifs at h with hspace hrun
    · exact hlater h
    · obtain rfl | h := List.mem_cons.mp h
      · exact .inl rfl
      · exact hlater h
    · obtain rfl | h := List.mem_cons.mp h
      · exact .inr ⟨List.mem_cons_self, by simpa using hspace⟩
      · exact hlater h

theorem mem_collapseFrom_of_mem {s : Text} {u : Nat} (hu : u ∈ s) (hspace : isSpace u = false)
    (inRun : Bool) : u ∈ collapseFrom inRun s := by
  induction s generalizing inRun with
  | nil => cases hu
  | cons v s ih =>
    rw [collapseFrom]
    obtain rfl | hu := List.mem_cons.mp hu
    · rw [hspace]
      exact List.mem_cons_self
    · split_ifs
      · exact ih hu true
      · exact List.mem_cons_of_mem _ (ih hu true)
      · exact List.mem_cons_of_mem _ (ih hu false)

/-! ### Blanks at the ends -/

/-- The blanks at the end of a text. -/
theorem exists_trim_append (s : Text) :
    ∃ t, (∀ u ∈ t, isSpace u = true) ∧ s.dropWhile isSpace = trim s ++ t := by
  refine ⟨((s.dropWhile isSpace).reverse.takeWhile isSpace).reverse, fun u hu => ?_, ?_⟩
  · exact List.mem_takeWhile_imp (List.mem_reverse.mp hu)
  · rw [trim, ← List.reverse_append, List.takeWhile_append_dropWhile, List.reverse_reverse]

theorem trim_append_spaces {s t : Text} (h : ∀ u ∈ t, isSpace u = true) : trim (s ++ t) = trim s := by
  have hall : ∀ u ∈ t.reverse, isSpace u = true := fun u hu => h u (List.mem_reverse.mp hu)
  by_cases hblank : ∀ u ∈ s, isSpace u = true
  · have hboth : ∀ u ∈ s ++ t, isSpace u = true := fun u hu =>
      (List.mem_append.mp hu).elim (hblank u) (h u)
    rw [trim, trim, List.dropWhile_eq_nil_iff.mpr hboth, List.dropWhile_eq_nil_iff.mpr hblank]
  · have hdrop : (s ++ t).dropWhile isSpace = s.dropWhile isSpace ++ t := by
      rw [List.dropWhile_append, if_neg]
      rw [List.isEmpty_iff, List.dropWhile_eq_nil_iff]
      exact hblank
    rw [trim, trim, hdrop, List.reverse_append, List.dropWhile_append_of_pos hall]

/-- Behind a text that has no blanks at its ends, only blanks at the end go. -/
theorem trim_append_tail {c t : Text} (hne : c ≠ []) (hhead : ∀ u ∈ c.head?, isSpace u = false)
    (hlast : ∀ u ∈ c.getLast?, isSpace u = false) : ∃ t' blanks, t = t' ++ blanks ∧
      (∀ u ∈ blanks, isSpace u = true) ∧ trim (c ++ t) = c ++ t' := by
  have hblanks : ∀ u ∈ (t.reverse.takeWhile isSpace).reverse, isSpace u = true := fun u hu =>
    List.mem_takeWhile_imp (List.mem_reverse.mp hu)
  have hcut : t = (t.reverse.dropWhile isSpace).reverse ++ (t.reverse.takeWhile isSpace).reverse := by
    rw [← List.reverse_append, List.takeWhile_append_dropWhile, List.reverse_reverse]
  have hkept : ∀ u ∈ (t.reverse.dropWhile isSpace).reverse.getLast?, isSpace u = false := by
    intro u hu
    rw [List.getLast?_reverse] at hu
    have hd := List.head?_dropWhile_not isSpace t.reverse
    rw [hu] at hd
    simpa using hd
  generalize (t.reverse.dropWhile isSpace).reverse = t' at hcut hkept
  generalize (t.reverse.takeWhile isSpace).reverse = blanks at hcut hblanks
  refine ⟨t', blanks, hcut, hblanks, ?_⟩
  rw [hcut, ← List.append_assoc, trim_append_spaces hblanks]
  refine trim_of_ends (fun u hu => ?_) fun u hu => ?_
  · rw [List.head?_append_of_ne_nil _ hne] at hu
    exact hhead u hu
  · rw [List.getLast?_append] at hu
    cases hend : t'.getLast? with
    | none =>
      rw [hend, Option.none_or] at hu
      exact hlast u hu
    | some v =>
      rw [hend, Option.some_or] at hu
      exact hkept u (hend.trans hu)

theorem dropWhile_collapseFrom (inRun : Bool) (s : Text) :
    (collapseFrom inRun s).dropWhile isSpace = collapseFrom false (s.dropWhile isSpace) := by
  induction s generalizing inRun with
  | nil => rfl
  | cons u s ih =>
    rw [collapseFrom]
    by_cases hspace : isSpace u = true
    · rw [if_pos hspace, List.dropWhile_cons_of_pos hspace]
      split_ifs
      · exact ih true
      · rw [List.dropWhile_cons_of_pos rfl]
        exact ih true
    · rw [if_neg hspace, List.dropWhile_cons_of_neg hspace, List.dropWhile_cons_of_neg hspace,
        collapseFrom, if_neg hspace]

/-- Blanks at the end become blanks at the end. -/
theorem collapseFrom_append_spaces (inRun : Bool) (s : Text) {t : Text} (h : ∀ u ∈ t, isSpace u = true) :
    ∃ r, (∀ u ∈ r, isSpace u = true) ∧ collapseFrom inRun (s ++ t) = collapseFrom inRun s ++ r := by
  induction s generalizing inRun with
  | nil =>
    refine ⟨collapseFrom inRun t, fun u hu => ?_, rfl⟩
    obtain rfl | ⟨hu, hspace⟩ := mem_collapseFrom hu
    · rfl
    · exact h u hu
  | cons u s ih =>
    rw [List.cons_append, collapseFrom, collapseFrom]
    split_ifs
    · exact ih true
    · obtain ⟨r, hr, heq⟩ := ih true
      exact ⟨r, hr, by rw [heq, List.cons_append]⟩
    · obtain ⟨r, hr, heq⟩ := ih false
      exact ⟨r, hr, by rw [heq, List.cons_append]⟩

/-- The ends of a text do not count for its collapsed text. -/
theorem trim_collapse_trim (s : Text) : trim (collapse (trim s)) = trim (collapse s) := by
  have hdropped : ∀ t, trim (t.dropWhile isSpace) = trim t := by
    intro t
    have hhead : ∀ u ∈ (t.dropWhile isSpace).head?, isSpace u = false := by
      intro u hu
      have hd := List.head?_dropWhile_not isSpace t
      rw [hu] at hd
      simpa using hd
    rw [trim, trim, dropWhile_of_head hhead]
  obtain ⟨t, ht, heq⟩ := exists_trim_append s
  obtain ⟨r, hr, hcollapse⟩ := collapseFrom_append_spaces false (trim s) ht
  calc trim (collapse (trim s)) = trim (collapseFrom false (trim s) ++ r) := (trim_append_spaces hr).symm
    _ = trim ((collapse s).dropWhile isSpace) := by
      rw [← hcollapse, ← heq, collapse, dropWhile_collapseFrom]
    _ = trim (collapse s) := hdropped _

end BoredManager.Js
