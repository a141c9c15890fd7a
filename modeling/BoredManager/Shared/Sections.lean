import BoredManager.Shared.Shell

/-! What the splitter gives back of an output that was printed section by section. -/
namespace BoredManager.Shared
open BoredManager.Js

variable {name line : Text} {lines : List Text} {sections : List (Text × List Text)}

/-- A line of a section's text: one line, and no marker. -/
structure IsTextLine (line : Text) : Prop where
  one_line : 10 ∉ line
  no_marker : markerName line = none

/-- A name that a marker line carries. -/
def IsName (name : Text) : Prop := name ≠ [] ∧ ∀ u ∈ name, isUpper u = true

instance (name : Text) : Decidable (IsName name) := inferInstanceAs (Decidable (_ ∧ _))

/-- The lines of an output: each section's marker, and its text. -/
def sectionLines (sections : List (Text × List Text)) : List Text :=
  sections.flatMap fun s => marker s.1 :: s.2

/-- A line as a command prints it. -/
def echo (line : Text) : Text := line ++ [10]

theorem join_append_lines (lines : List Text) {more : List Text} (hne : more ≠ []) :
    join [10] (lines ++ more) = lines.flatMap echo ++ join [10] more := by
  induction lines with
  | nil => rfl
  | cons line lines ih =>
    have hrest : lines ++ more ≠ [] := List.append_ne_nil_of_right_ne_nil _ hne
    have hjoin : join [10] (line :: (lines ++ more)) = echo line ++ join [10] (lines ++ more) := by
      rw [join, List.intercalate_cons_of_ne_nil hrest, List.append_assoc]
      exact (List.append_assoc _ _ _).symm
    rw [List.cons_append, hjoin, ih, List.flatMap_cons, List.append_assoc]

theorem markerName_marker (h : IsName name) : markerName (marker name) = some name := by
  have hend : ∀ u ∈ name, isUpper u = true := h.2
  have htake : (name ++ [61, 61, 61]).takeWhile isUpper = name := by
    rw [List.takeWhile_append_of_pos hend]
    exact List.append_nil name
  have hdrop : (name ++ [61, 61, 61]).dropWhile isUpper = [61, 61, 61] := by
    rw [List.dropWhile_append_of_pos hend]
    rfl
  have hshape : marker name = 61 :: 61 :: 61 :: (name ++ [61, 61, 61]) := rfl
  rw [hshape, markerName, htake, hdrop, if_pos ⟨h.1, rfl⟩]

/-- A marker line is the marker of its name. -/
theorem eq_marker_of_markerName (h : markerName line = some name) : line = marker name := by
  unfold markerName at h
  split at h
  · rename_i rest
    dsimp only at h
    split at h
    · rename_i hshape
      cases h
      have hcut := List.takeWhile_append_dropWhile (p := isUpper) (l := rest)
      rw [hshape.2] at hcut
      calc 61 :: 61 :: 61 :: rest = js "===" ++ rest := rfl
        _ = js "===" ++ (rest.takeWhile isUpper ++ [61, 61, 61]) := by rw [hcut]
        _ = marker (rest.takeWhile isUpper) := (List.append_assoc _ _ _).symm
    · cases h
  · cases h

/-- No marker line holds a blank. -/
theorem markerName_of_space {u : Nat} (hu : u ∈ line) (hspace : isSpace u = true) :
    markerName line = none := by
  cases hname : markerName line with
  | none => rfl
  | some name =>
    have hupper := (isUpper_of_markerName hname).2
    rw [eq_marker_of_markerName hname] at hu
    have hequals : ∀ v ∈ js "===", isSpace v = false := by decide
    have hletters : ∀ v ∈ name, isSpace v = false := by
      intro v hv
      have hv := hupper v hv
      simp only [isUpper, Bool.and_eq_true, decide_eq_true_eq] at hv
      simp only [isSpace, Bool.or_eq_false_iff, Bool.and_eq_false_iff, decide_eq_false_iff_not,
        beq_eq_false_iff_ne]
      omega
    simp only [marker, List.mem_append] at hu
    obtain (hu | hu) | hu := hu
    · exact absurd hspace (by simp [hequals u hu])
    · exact absurd hspace (by simp [hletters u hu])
    · exact absurd hspace (by simp [hequals u hu])

theorem one_line_marker (h : 10 ∉ name) : 10 ∉ marker name := by
  have hequals : 10 ∉ js "===" := by decide
  simp [marker, h, hequals]

theorem IsName.one_line (h : IsName name) : 10 ∉ name := fun hmem => by cases h.2 10 hmem

/-- A line that begins with no equals sign is no marker. -/
theorem markerName_of_head {u : Nat} (h : line.head? = some u) (hu : u ≠ 61) :
    markerName line = none := by
  rw [markerName]
  rintro rest rfl
  cases h
  exact hu rfl

/-- Lines without a marker go to the section that is open. -/
theorem foldl_no_marker (h : ∀ line ∈ lines, markerName line = none) (st : SplitState) :
    lines.foldl SplitState.step st = { st with buf := st.buf ++ lines } := by
  induction lines generalizing st with
  | nil => simp
  | cons line lines ih =>
    have hstep : st.step line = { st with buf := st.buf ++ [line] } := by
      rw [SplitState.step, h line List.mem_cons_self]
    rw [List.foldl_cons, hstep, ih fun l hl => h l (List.mem_cons_of_mem _ hl)]
    simp

/-- A section that is printed is set behind the ones before it. -/
theorem flush_sectionLines (hname : ∀ s ∈ sections, IsName s.1)
    (hlines : ∀ s ∈ sections, ∀ line ∈ s.2, markerName line = none) (st : SplitState) :
    ((sectionLines sections).foldl SplitState.step st).flush.sections =
      sections.foldl (fun m s => m.set s.1 (join [10] s.2)) st.flush.sections := by
  induction sections generalizing st with
  | nil => rfl
  | cons s sections ih =>
    have hs : IsName s.1 := hname s List.mem_cons_self
    have hopen : st.step (marker s.1) = { st.flush with current := s.1 } := by
      rw [SplitState.step, markerName_marker hs]
    have hbuf : st.flush.buf = [] := rfl
    have hflush : SplitState.flush ⟨st.flush.sections, s.1, s.2⟩ =
        ⟨st.flush.sections.set s.1 (join [10] s.2), s.1, []⟩ := by
      rw [SplitState.flush]
      simp only [if_neg hs.1]
    have hlist : sectionLines (s :: sections) = marker s.1 :: (s.2 ++ sectionLines sections) := rfl
    rw [hlist, List.foldl_cons, hopen, List.foldl_append,
      foldl_no_marker (hlines s List.mem_cons_self), hbuf, List.nil_append,
      ih (fun t ht => hname t (List.mem_cons_of_mem _ ht))
        (fun t ht => hlines t (List.mem_cons_of_mem _ ht)), hflush, List.foldl_cons]

/-- Every section comes back with its own text; of two with one name, the last one. -/
theorem splitSections_sectionLines (hne : sections ≠ []) (hname : ∀ s ∈ sections, IsName s.1)
    (hlines : ∀ s ∈ sections, ∀ line ∈ s.2, IsTextLine line) :
    splitSections (join [10] (sectionLines sections)) =
      .ofList (sections.map fun s => (s.1, join [10] s.2)) := by
  have hone : ∀ line ∈ sectionLines sections, 10 ∉ line := by
    intro line hline
    obtain ⟨s, hs, hline⟩ := List.mem_flatMap.mp hline
    obtain rfl | hline := List.mem_cons.mp hline
    · exact one_line_marker (hname s hs).one_line
    · exact (hlines s hs line hline).one_line
  have hcut : (join [10] (sectionLines sections)).splitOn 10 = sectionLines sections := by
    refine List.splitOn_intercalate 10 hone fun hnil => ?_
    obtain ⟨s, rest, rfl⟩ := List.exists_cons_of_ne_nil hne
    cases hnil
  rw [splitSections, ← List.splitOn_eq_splitOnP, hcut,
    flush_sectionLines hname fun s hs line hline => (hlines s hs line hline).no_marker]
  have hempty : SplitState.flush ⟨.empty, [], []⟩ = ⟨.empty, [], []⟩ := rfl
  rw [hempty, OrderedMap.ofList, List.foldl_map]

end BoredManager.Shared
