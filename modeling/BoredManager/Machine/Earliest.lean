import Mathlib.Data.List.Induction
import Mathlib.Order.Lattice

/-! The earliest element of least weight among those of a list that qualify, found in one pass. -/
namespace BoredManager.Machine

variable {α β : Type*} [LinearOrder β] {qualifies : α → Bool} {weight : α → β} {l : List α} {limit : β}

/-- One turn of the loop: an element that qualifies replaces the best one when it is lighter. -/
def lighter (qualifies : α → Bool) (weight : α → β) (best : Option α × β) (a : α) : Option α × β :=
  if qualifies a = false then best
  else if weight a < best.2 then (some a, weight a) else best

/-- The earliest of the lightest elements that qualify. -/
def Earliest (qualifies : α → Bool) (weight : α → β) (l : List α) (a : α) : Prop :=
  ∃ before after, l = before ++ a :: after ∧ qualifies a = true ∧
    (∀ b ∈ before, qualifies b = true → weight a < weight b) ∧
    ∀ b ∈ after, qualifies b = true → weight a ≤ weight b

/-- What the loop has found in the elements so far. -/
inductive Found (qualifies : α → Bool) (weight : α → β) (limit : β) (l : List α) :
    Option α × β → Prop
  | nothing (h : ∀ a ∈ l, qualifies a = false) : Found qualifies weight limit l (none, limit)
  | best (a : α) (h : Earliest qualifies weight l a) : Found qualifies weight limit l (some a, weight a)

theorem Earliest.append {a b : α} (h : Earliest qualifies weight l a)
    (hb : qualifies b = true → weight a ≤ weight b) : Earliest qualifies weight (l ++ [b]) a := by
  obtain ⟨before, after, rfl, ha, hbefore, hafter⟩ := h
  refine ⟨before, after ++ [b], by simp, ha, hbefore, fun c hc => ?_⟩
  obtain hc | hc := List.mem_append.mp hc
  · exact hafter c hc
  · rw [List.mem_singleton.mp hc]
    exact hb

theorem Earliest.le {a b : α} (h : Earliest qualifies weight l a) (hb : b ∈ l)
    (hq : qualifies b = true) : weight a ≤ weight b := by
  obtain ⟨before, after, rfl, -, hbefore, hafter⟩ := h
  obtain hb | hb := List.mem_append.mp hb
  · exact le_of_lt (hbefore b hb hq)
  · obtain rfl | hb := List.mem_cons.mp hb
    · exact le_rfl
    · exact hafter b hb hq

theorem Found.step {best : Option α × β} {a : α} (h : Found qualifies weight limit l best)
    (hlimit : qualifies a = true → weight a < limit) :
    Found qualifies weight limit (l ++ [a]) (lighter qualifies weight best a) := by
  by_cases hq : qualifies a = false
  · rw [lighter, if_pos hq]
    cases h with
    | nothing h => exact .nothing (by simpa [or_imp, forall_and] using ⟨h, hq⟩)
    | best b h => exact .best b (h.append fun hqa => by rw [hq] at hqa; cases hqa)
  rw [lighter, if_neg hq]
  rw [Bool.not_eq_false] at hq
  cases h with
  | nothing h =>
    rw [if_pos (hlimit hq)]
    refine .best a ⟨l, [], rfl, hq, fun b hb hqb => ?_, by simp⟩
    rw [h b hb] at hqb
    cases hqb
  | best b h =>
    split_ifs with hlt
    · exact .best a ⟨l, [], rfl, hq, fun c hc hqc => lt_of_lt_of_le hlt (h.le hc hqc), by simp⟩
    · exact .best b (h.append fun _ => not_lt.mp hlt)

/-- The loop over a list whose weights are all below the one it starts with. -/
theorem found_foldl (hlimit : ∀ a ∈ l, qualifies a = true → weight a < limit) :
    Found qualifies weight limit l (l.foldl (lighter qualifies weight) (none, limit)) := by
  induction l using List.reverseRecOn with
  | nil => exact .nothing (by simp)
  | append_singleton l a ih =>
    rw [List.foldl_append]
    exact (ih fun b hb => hlimit b (List.mem_append_left _ hb)).step (hlimit a (by simp))

end BoredManager.Machine
