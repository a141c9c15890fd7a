import Mathlib.Data.List.Sort
import Mathlib.Tactic.Common

/-! Half-open ranges in a linear order. Once they are sorted by their starts, neighbours
that do not overlap are enough for no two of them to overlap. -/
namespace BoredManager.Ranges
variable {ι α : Type*} [LinearOrder α] (start finish : ι → α)

/-- One range ends where the other starts, or before. -/
def Apart (a b : ι) : Prop := finish a ≤ start b ∨ finish b ≤ start a

/-- The stable sort by starts. -/
def sortByStart (l : List ι) : List ι := l.insertionSort fun a b => start a ≤ start b

/-- The first two neighbours that overlap. -/
def firstOverlap : List ι → Option (ι × ι)
  | a :: b :: l => if start b < finish a then some (a, b) else firstOverlap (b :: l)
  | _ => none

variable {start finish}

theorem Apart.symm {a b : ι} (h : Apart start finish a b) : Apart start finish b a := Or.symm h

/-- A point in two ranges tells that they are not apart. -/
theorem Apart.not_mem_both {a b : ι} (h : Apart start finish a b) (x : α) :
    ¬((start a ≤ x ∧ x < finish a) ∧ (start b ≤ x ∧ x < finish b)) := by
  rintro ⟨⟨ha, ha'⟩, ⟨hb, hb'⟩⟩
  rcases h with h | h
  · exact absurd (ha'.trans_le h) (not_lt.mpr hb)
  · exact absurd (hb'.trans_le h) (not_lt.mpr ha)

theorem pairwise_of_firstOverlap {l : List ι} (hle : ∀ a ∈ l, start a ≤ finish a)
    (h : firstOverlap start finish l = none) : l.Pairwise fun a b => finish a ≤ start b := by
  induction l with
  | nil => exact .nil
  | cons a l ih =>
    cases l with
    | nil => exact List.pairwise_singleton _ _
    | cons b l =>
      rw [firstOverlap] at h
      by_cases hlt : start b < finish a
      · rw [if_pos hlt] at h
        cases h
      · rw [if_neg hlt] at h
        have htail := ih (fun c hc => hle c (List.mem_cons_of_mem _ hc)) h
        have hab : finish a ≤ start b := not_lt.mp hlt
        refine List.pairwise_cons.mpr ⟨fun c hc => ?_, htail⟩
        rcases List.mem_cons.mp hc with rfl | hc
        · exact hab
        · have hbc := (List.pairwise_cons.mp htail).1 c hc
          have hb := hle b (by simp)
          exact hab.trans (hb.trans hbc)

/-- The comparison of sorted neighbours decides for all pairs of the list as it was. -/
theorem pairwise_apart {l : List ι} (hle : ∀ a ∈ l, start a ≤ finish a)
    (h : firstOverlap start finish (sortByStart start l) = none) :
    l.Pairwise (Apart start finish) := by
  have hperm : (sortByStart start l).Perm l := List.perm_insertionSort _ _
  have hsorted := pairwise_of_firstOverlap (fun a ha => hle a (hperm.mem_iff.mp ha)) h
  exact (hperm.pairwise_iff fun hab => hab.symm).mp (hsorted.imp fun hab => .inl hab)

end BoredManager.Ranges
