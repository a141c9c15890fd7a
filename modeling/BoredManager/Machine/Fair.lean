import Mathlib.Data.Nat.Basic
import Mathlib.Tactic.Common

/-! Endless runs of a machine, and what comes about in every one of them that is fair to the events
that make progress. -/
namespace BoredManager.Machine

variable {σ ε : Type*} {step : σ → ε → σ} {enabled : σ → ε → Prop} {inv done : σ → Prop}
  {quiet : ε → Prop} {measure : σ → ℕ} {s : σ} {events : ℕ → ε}

/-- The states of an endless run. -/
def trace (step : σ → ε → σ) (s : σ) (events : ℕ → ε) : ℕ → σ
  | 0 => s
  | n + 1 => step (trace step s events n) (events n)

theorem trace_inv (hstart : inv s) (hstep : ∀ s e, inv s → inv (step s e)) (n : ℕ) :
    inv (trace step s events n) := by
  induction n with
  | zero => exact hstart
  | succ n ih => exact hstep _ _ ih

/-- An event that is enabled is taken, or is not enabled at some later time. -/
def Fair (step : σ → ε → σ) (enabled : σ → ε → Prop) (s : σ) (events : ℕ → ε) (e : ε) : Prop :=
  ∀ n, enabled (trace step s events n) e →
    ∃ m, n ≤ m ∧ (events m = e ∨ ¬enabled (trace step s events m) e)

/-- As long as something is to be done, some event is enabled and lowers the measure, no quiet
event raises it, and none disables another without lowering it. -/
structure Progress (step : σ → ε → σ) (enabled : σ → ε → Prop) (inv done : σ → Prop)
    (quiet : ε → Prop) (measure : σ → ℕ) : Prop where
  next : ∀ s, inv s → ¬done s → ∃ e, enabled s e
  less : ∀ s e, inv s → ¬done s → enabled s e → measure (step s e) < measure s
  keep : ∀ s e, inv s → ¬done s → quiet e → measure (step s e) ≤ measure s
  stay : ∀ s e other, inv s → ¬done s → quiet other → enabled s e →
    enabled (step s other) e ∨ measure (step s other) < measure s

/-- Up to any later moment, all is done, or the measure was lowered, or nothing has changed for
the enabled event. -/
theorem Progress.wait (h : Progress step enabled inv done quiet measure)
    {start n : ℕ} {e : ε} (hinv : ∀ m, start ≤ m → inv (trace step s events m))
    (hquiet : ∀ m, start ≤ m → quiet (events m)) (hn : start ≤ n)
    (he : enabled (trace step s events n) e) (k : ℕ) :
    (∃ m, n ≤ m ∧ m ≤ n + k ∧ (done (trace step s events m) ∨
      measure (trace step s events m) < measure (trace step s events n))) ∨
    enabled (trace step s events (n + k)) e ∧ ¬done (trace step s events (n + k)) ∧
      measure (trace step s events (n + k)) ≤ measure (trace step s events n) := by
  induction k with
  | zero =>
    by_cases hdone : done (trace step s events n)
    · exact .inl ⟨n, le_rfl, le_rfl, .inl hdone⟩
    · exact .inr ⟨he, hdone, le_rfl⟩
  | succ k ih =>
    obtain ⟨m, hnm, hmk, hm⟩ | ⟨hk, hnot, hle⟩ := ih
    · exact .inl ⟨m, hnm, by omega, hm⟩
    · have hq := hquiet (n + k) (by omega)
      have hkeep := h.keep _ _ (hinv (n + k) (by omega)) hnot hq
      have hnext : trace step s events (n + (k + 1)) =
        step (trace step s events (n + k)) (events (n + k)) := rfl
      rw [← hnext] at hkeep
      by_cases hdone : done (trace step s events (n + (k + 1)))
      · exact .inl ⟨n + (k + 1), by omega, le_rfl, .inl hdone⟩
      · obtain hstay | hless := h.stay _ e _ (hinv (n + k) (by omega)) hnot hq hk
        · exact .inr ⟨hstay, hdone, Nat.le_trans hkeep hle⟩
        · exact .inl ⟨n + (k + 1), by omega, le_rfl, .inr (Nat.lt_of_lt_of_le hless hle)⟩

/-- In a fair run that is quiet from some moment on, all is done in the end. -/
theorem Progress.eventually (h : Progress step enabled inv done quiet measure)
    {start : ℕ} (hinv : ∀ m, start ≤ m → inv (trace step s events m))
    (hquiet : ∀ m, start ≤ m → quiet (events m)) (hfair : ∀ e, Fair step enabled s events e)
    {n : ℕ} (hn : start ≤ n) : ∃ m, n ≤ m ∧ done (trace step s events m) := by
  induction hk : measure (trace step s events n) using Nat.strongRecOn generalizing n with
  | _ k ih =>
    by_cases hdone : done (trace step s events n)
    · exact ⟨n, le_rfl, hdone⟩
    · have hagain : ∀ m, n ≤ m → (done (trace step s events m) ∨
          measure (trace step s events m) < measure (trace step s events n)) →
          ∃ m, n ≤ m ∧ done (trace step s events m) := fun m hm hor => by
        obtain hd | hless := hor
        · exact ⟨m, hm, hd⟩
        · obtain ⟨l, hl, hd⟩ := ih _ (hk ▸ hless) (Nat.le_trans hn hm) rfl
          exact ⟨l, Nat.le_trans hm hl, hd⟩
      obtain ⟨e, he⟩ := h.next _ (hinv n hn) hdone
      obtain ⟨m, hnm, hm⟩ := hfair e n he
      obtain ⟨k', rfl⟩ := Nat.exists_eq_add_of_le hnm
      obtain ⟨l, hl, -, hor⟩ | ⟨hen, hnot, hle⟩ := h.wait hinv hquiet hn he k'
      · exact hagain l hl hor
      · obtain htaken | hdis := hm
        · have hless := h.less _ _ (hinv (n + k') (by omega)) hnot (htaken.symm ▸ hen)
          exact hagain (n + k' + 1) (by omega) (.inr (Nat.lt_of_lt_of_le hless hle))
        · exact absurd hen hdis

end BoredManager.Machine
