import Mathlib.Algebra.GroupWithZero.Nat
import Mathlib.Algebra.Order.BigOperators.Group.List
import Mathlib.Algebra.Order.Group.Nat
import Mathlib.Data.List.Flatten

/-! Forests given by their roots and the children of each node: the nodes at a depth, and how
many there are down to a depth. -/
namespace BoredManager.Machine.Forest

variable {α : Type*} (children : α → List α)

/-- The nodes at a depth, the roots being at depth zero. -/
def level : List α → Nat → List α
  | roots, 0 => roots
  | roots, depth + 1 => level (roots.flatMap children) depth

/-- How many nodes there are above a depth. -/
def size (roots : List α) (depth : Nat) : Nat :=
  ((List.range depth).map fun d => (level children roots d).length).sum

@[simp] theorem level_nil (depth : Nat) : level children [] depth = [] := by
  induction depth with
  | zero => rfl
  | succ depth ih => exact ih

theorem level_append (roots more : List α) (depth : Nat) :
    level children (roots ++ more) depth =
      level children roots depth ++ level children more depth := by
  induction depth generalizing roots more with
  | zero => rfl
  | succ depth ih =>
    rw [level, List.flatMap_append, ih]
    rfl

/-- Fewer roots, or fewer children, have fewer nodes at each depth. -/
theorem level_sublist {fewer : α → List α} (h : ∀ a, (fewer a).Sublist (children a))
    {roots more : List α} (hroots : roots.Sublist more) (depth : Nat) :
    (level fewer roots depth).Sublist (level children more depth) := by
  induction depth generalizing roots more with
  | zero => exact hroots
  | succ depth ih =>
    apply ih
    exact (hroots.flatMap fewer).trans (List.Sublist.flatMap_right more fun a _ => h a)

@[simp] theorem size_zero (roots : List α) : size children roots 0 = 0 := rfl

theorem size_succ (roots : List α) (depth : Nat) :
    size children roots (depth + 1) =
      roots.length + size children (roots.flatMap children) depth := by
  simp only [size, List.range_succ_eq_map, List.map_cons, List.map_map, List.sum_cons]
  rfl

@[simp] theorem size_nil (depth : Nat) : size children [] depth = 0 := by
  induction depth with
  | zero => rfl
  | succ depth ih => rw [size_succ, List.flatMap_nil, ih, List.length_nil]

theorem size_append (roots more : List α) (depth : Nat) :
    size children (roots ++ more) depth =
      size children roots depth + size children more depth := by
  induction depth generalizing roots more with
  | zero => rfl
  | succ depth ih =>
    simp only [size_succ, List.flatMap_append, ih, List.length_append]
    omega

theorem size_mono {fewer : α → List α} (h : ∀ a, (fewer a).Sublist (children a))
    (roots : List α) (depth : Nat) : size fewer roots depth ≤ size children roots depth :=
  List.sum_le_sum fun d _ => (level_sublist children h (List.Sublist.refl roots) d).length_le

/-- Below an empty level there is nothing more to count. -/
theorem size_le {roots : List α} {depth : Nat} (h : ∀ d, depth ≤ d → level children roots d = [])
    (deeper : Nat) : size children roots deeper ≤ size children roots depth := by
  obtain hle | hle := Nat.le_total deeper depth
  · obtain ⟨k, rfl⟩ := Nat.exists_eq_add_of_le hle
    simp [size, List.range_add]
  · obtain ⟨k, rfl⟩ := Nat.exists_eq_add_of_le hle
    have hrest : ∀ d ∈ List.range k, (level children roots (depth + d)).length = 0 := by
      simp [h]
    simp only [size, List.range_add, List.map_append, List.sum_append, List.map_map]
    have hsum : ((List.range k).map ((fun d => (level children roots d).length) ∘
        (depth + ·))).sum = 0 := List.sum_eq_zero (by simpa using hrest)
    rw [hsum, Nat.add_zero]

end BoredManager.Machine.Forest
