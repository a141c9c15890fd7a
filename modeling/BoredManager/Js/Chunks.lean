import BoredManager.Js.Text

/-! Lines out of a text that comes in chunks: after each chunk the lines that are complete are cut
off, and the rest waits for the next chunk. -/
namespace BoredManager.Js

variable {s t line : Text}

/-- The lines that are over. -/
def completeLines (s : Text) : List Text := (splitLines s).dropLast

/-- What stands behind the last of them. -/
def openLine (s : Text) : Text := (splitLines s).getLastD []

theorem splitLines_of_pieces {front : List Text} {last : Text}
    (h : s.splitOnP (· == 10) = front ++ [last]) : splitLines s = front.map dropCr ++ [last] := by
  rw [splitLines, h]
  simp

/-- A text that goes on goes on in its last piece. -/
theorem splitOnP_append (p : Nat → Bool) (s : Text) : ∃ front last, s.splitOnP p = front ++ [last] ∧
    ∀ t : Text, (s ++ t).splitOnP p = front ++ (last ++ t).splitOnP p := by
  induction s with
  | nil => exact ⟨[], [], rfl, fun t => rfl⟩
  | cons u s ih =>
    obtain ⟨front, last, hs, happend⟩ := ih
    by_cases hu : p u = true
    · refine ⟨[] :: front, last, ?_, fun t => ?_⟩
      · rw [List.splitOnP_cons_eq_if_modifyHead, if_pos hu, hs]
        rfl
      · rw [List.cons_append, List.splitOnP_cons_eq_if_modifyHead, if_pos hu, happend]
        rfl
    · cases front with
      | nil =>
        refine ⟨[], u :: last, ?_, fun t => ?_⟩
        · rw [List.splitOnP_cons_eq_if_modifyHead, if_neg hu, hs]
          rfl
        · rw [List.cons_append, List.splitOnP_cons_eq_if_modifyHead, if_neg hu, happend,
            List.cons_append, List.splitOnP_cons_eq_if_modifyHead, if_neg hu]
          rfl
      | cons first front =>
        refine ⟨(u :: first) :: front, last, ?_, fun t => ?_⟩
        · rw [List.splitOnP_cons_eq_if_modifyHead, if_neg hu, hs]
          rfl
        · rw [List.cons_append, List.splitOnP_cons_eq_if_modifyHead, if_neg hu, happend]
          rfl

/-- A unit that does not separate goes to the last piece. -/
theorem splitOnP_snoc {p : Nat → Bool} {u : Nat} (hu : p u = false) (s : Text) :
    ∃ front last, s.splitOnP p = front ++ [last] ∧ (s ++ [u]).splitOnP p = front ++ [last ++ [u]] := by
  obtain ⟨front, last, hs, happend⟩ := splitOnP_append p s
  have hlast : last ∈ s.splitOnP p := by
    rw [hs]
    exact List.mem_append_right _ List.mem_cons_self
  have hplain : ∀ v ∈ last ++ [u], p v = false := by
    intro v hv
    obtain hv | hv := List.mem_append.mp hv
    · exact (not_mem_of_mem_splitOnP hlast hv).2
    · rw [List.mem_singleton.mp hv]
      exact hu
  refine ⟨front, last, hs, ?_⟩
  rw [happend, List.splitOnP_eq_singleton hplain]

theorem splitLines_append (s t : Text) :
    splitLines (s ++ t) = completeLines s ++ splitLines (openLine s ++ t) := by
  obtain ⟨front, last, hs, happend⟩ := splitOnP_append (· == 10) s
  have hlines := splitLines_of_pieces hs
  have hcomplete : completeLines s = front.map dropCr := by
    rw [completeLines, hlines, List.dropLast_concat]
  have hopen : openLine s = last := by
    rw [openLine, hlines, List.getLastD_concat]
  rw [hcomplete, hopen, splitLines, happend, splitLines]
  have hne := List.splitOnP_ne_nil (· == 10) (last ++ t)
  simp only [List.dropLast_append_of_ne_nil hne, List.map_append, List.append_assoc]
  rw [List.getLast?_append_of_ne_nil _ hne]

theorem splitLines_ne_nil (s : Text) : splitLines s ≠ [] := by
  obtain ⟨front, last, hs, -⟩ := splitOnP_append (· == 10) s
  rw [splitLines_of_pieces hs]
  simp

/-- What the chunks complete is what their text completes. -/
theorem completeLines_append (s t : Text) :
    completeLines (s ++ t) = completeLines s ++ completeLines (openLine s ++ t) := by
  rw [completeLines, splitLines_append, List.dropLast_append_of_ne_nil (splitLines_ne_nil _),
    completeLines, completeLines]

theorem openLine_append (s t : Text) : openLine (s ++ t) = openLine (openLine s ++ t) := by
  have hne := splitLines_ne_nil (openLine s ++ t)
  rw [openLine, splitLines_append, List.getLastD_eq_getLast?,
    List.getLast?_append_of_ne_nil _ hne, ← List.getLastD_eq_getLast?]
  rfl

theorem not_mem_of_mem_completeLines (h : line ∈ completeLines s) : 10 ∉ line := fun hmem =>
  (mem_splitLines (List.dropLast_subset _ h) hmem).2 rfl

end BoredManager.Js
