import Mathlib.Tactic.Common

/-! Code that may throw, as `Except`: inversion of a sequence that returned, and
two runs with the same outcome up to a relation on what they return. -/
namespace BoredManager.Js
universe u v
variable {ε : Type v} {α β : Type u}

theorem bind_eq_ok {x : Except ε α} {f : α → Except ε β} {b : β} :
    (x >>= f) = .ok b ↔ ∃ a, x = .ok a ∧ f a = .ok b := by
  cases x <;> simp [bind, Except.bind]

theorem ite_error_eq_ok {c : Prop} [Decidable c] {e : ε} {x : Except ε α} {a : α} :
    (if c then .error e else x) = .ok a ↔ ¬c ∧ x = .ok a := by
  by_cases h : c <;> simp [h]

/-- The same error, or two results in a relation. -/
inductive SameOutcome (R : α → α → Prop) : Except ε α → Except ε α → Prop
  | error (e : ε) : SameOutcome R (.error e) (.error e)
  | ok {a b : α} (h : R a b) : SameOutcome R (.ok a) (.ok b)

theorem SameOutcome.refl (x : Except ε α) : SameOutcome Eq x x := by
  cases x with
  | error e => exact .error e
  | ok a => exact .ok rfl

theorem SameOutcome.bind {R : α → α → Prop} {S : β → β → Prop} {x y : Except ε α}
    {f g : α → Except ε β} (h : SameOutcome R x y) (hf : ∀ a b, R a b → SameOutcome S (f a) (g b)) :
    SameOutcome S (x >>= f) (y >>= g) := by
  cases h with
  | error e => exact .error e
  | ok h => exact hf _ _ h

theorem SameOutcome.ite {R : α → α → Prop} {c : Prop} [Decidable c] {x x' y y' : Except ε α}
    (h : SameOutcome R x x') (h' : SameOutcome R y y') :
    SameOutcome R (if c then x else y) (if c then x' else y') := by
  by_cases hc : c <;> simp [hc, h, h']

end BoredManager.Js
