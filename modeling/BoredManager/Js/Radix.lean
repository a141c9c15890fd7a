import BoredManager.Js.Number
import Mathlib.Tactic.Ring

/-! The digits of whole numbers: `n.toString(r)` reads back as `n` in every radix. -/
namespace BoredManager.Js.Number

/-- The digit a radix text writes. -/
def digitUnit (d : Nat) : Nat := if d < 10 then 48 + d else 87 + d

theorem digitValue_digitUnit {d : Nat} (h : d < 36) : digitValue (digitUnit d) = some d := by
  exact (by decide : ∀ d < 36, digitValue (digitUnit d) = some d) d h

/-- Every unit is a digit of the radix. -/
def IsRadixText (r : Nat) (s : Text) : Prop := ∀ u ∈ s, ∃ d, d < r ∧ digitValue u = some d

/-- The number read so far, continued over further digits. -/
def continueValue (r : Nat) (s : Text) (a : Nat) : Nat :=
  s.foldl (fun a u => a * r + (digitValue u).getD 0) a

theorem continueValue_append (r : Nat) (s t : Text) (a : Nat) :
    continueValue r (s ++ t) a = continueValue r t (continueValue r s a) := by
  simp [continueValue, List.foldl_append]

theorem radixFold_eq {r : Nat} {s : Text} (h : IsRadixText r s) (a : Nat) :
    s.foldl (fun acc u => do
      let d ← digitValue u
      let a ← acc
      if d < r then some (a * r + d) else none) (some a) = some (continueValue r s a) := by
  induction s generalizing a with
  | nil => rfl
  | cons u s ih =>
    obtain ⟨d, hd, hu⟩ := h u List.mem_cons_self
    have hs : IsRadixText r s := fun v hv => h v (List.mem_cons_of_mem _ hv)
    have hfirst : (do
        let d ← digitValue u
        let a ← some a
        if d < r then some (a * r + d) else none) = some (a * r + d) := by
      simp [hu, hd]
    rw [List.foldl_cons, hfirst, ih hs]
    simp [continueValue, hu]

theorem radixValue_eq {r : Nat} {s : Text} (hne : s ≠ []) (h : IsRadixText r s) :
    radixValue r s = some (continueValue r s 0) := by
  rw [radixValue, if_neg hne, radixFold_eq h]

theorem isRadixText_radixFrom {r : Nat} (hr : 0 < r) (hmax : r ≤ 36) (fuel n : Nat) (acc : Text)
    (hacc : IsRadixText r acc) : IsRadixText r (radixFrom r fuel n acc) := by
  induction fuel generalizing n acc with
  | zero => exact hacc
  | succ fuel ih =>
    have hd : n % r < r := Nat.mod_lt n hr
    have hacc' : IsRadixText r (digitUnit (n % r) :: acc) := by
      intro u hu
      rcases List.mem_cons.mp hu with rfl | hu
      · exact ⟨n % r, hd, digitValue_digitUnit (by omega)⟩
      · exact hacc u hu
    rw [radixFrom]
    change IsRadixText r (if n / r = 0 then digitUnit (n % r) :: acc
      else radixFrom r fuel (n / r) (digitUnit (n % r) :: acc))
    split
    · exact hacc'
    · exact ih _ _ hacc'

/-- The digits of `n` in front of others read as `n` does. -/
theorem continueValue_radixFrom {r : Nat} (hr : 2 ≤ r) (hmax : r ≤ 36) (fuel n : Nat) (acc : Text)
    (h : n < 2 ^ fuel) (hfuel : 0 < fuel) :
    continueValue r (radixFrom r fuel n acc) 0 = continueValue r acc n := by
  induction fuel generalizing n acc with
  | zero => exact absurd hfuel (lt_irrefl 0)
  | succ fuel ih =>
    have hd : digitValue (digitUnit (n % r)) = some (n % r) :=
      digitValue_digitUnit (by have := Nat.mod_lt n (show r > 0 by omega); omega)
    rw [radixFrom]
    change continueValue r (if n / r = 0 then digitUnit (n % r) :: acc
      else radixFrom r fuel (n / r) (digitUnit (n % r) :: acc)) 0 = _
    have hcons : ∀ a, continueValue r (digitUnit (n % r) :: acc) a =
        continueValue r acc (a * r + n % r) := fun a => by simp [continueValue, hd]
    have hdiv : n / r * r + n % r = n := Nat.div_add_mod' n r
    split
    · rename_i hzero
      rw [hcons]
      rw [hzero] at hdiv
      rw [hdiv]
    · rename_i hpos
      have hle : n / r ≤ n / 2 := Nat.div_le_div_left hr (by omega)
      have hlt : n / r < 2 ^ fuel := by
        rw [pow_succ] at h
        omega
      have hfuel' : 0 < fuel := by
        rcases Nat.eq_zero_or_pos fuel with rfl | hf
        · rw [pow_zero] at hlt
          exact absurd (Nat.lt_one_iff.mp hlt) hpos
        · exact hf
      rw [ih _ _ hlt hfuel', hcons, hdiv]

theorem radixFrom_ne_nil (r fuel n : Nat) (acc : Text) (h : 0 < fuel ∨ acc ≠ []) :
    radixFrom r fuel n acc ≠ [] := by
  induction fuel generalizing n acc with
  | zero => simpa [radixFrom] using h
  | succ fuel ih =>
    rw [radixFrom]
    split
    · exact List.cons_ne_nil _ _
    · exact ih _ _ (.inr (List.cons_ne_nil _ _))

theorem continueValue_radixText {r : Nat} (hr : 2 ≤ r) (hmax : r ≤ 36) (n : Nat) :
    continueValue r (radixText r n) 0 = n :=
  continueValue_radixFrom hr hmax _ _ _ Nat.lt_log2_self (Nat.succ_pos _)

theorem isRadixText_radixText {r : Nat} (hr : 2 ≤ r) (hmax : r ≤ 36) (n : Nat) :
    IsRadixText r (radixText r n) :=
  isRadixText_radixFrom (by omega) hmax _ _ _ fun _ h => by cases h

theorem radixText_ne_nil (r n : Nat) : radixText r n ≠ [] :=
  radixFrom_ne_nil _ _ _ _ (.inl (Nat.succ_pos _))

/-- A number below a power of the radix has no more digits than the exponent. -/
theorem length_radixFrom {r k : Nat} (fuel n : Nat) (acc : Text) (hk : 0 < k) (h : n < r ^ k) :
    (radixFrom r fuel n acc).length ≤ acc.length + k := by
  induction fuel generalizing n acc k with
  | zero => exact Nat.le_add_right _ _
  | succ fuel ih =>
    change (if n / r = 0 then digitUnit (n % r) :: acc
      else radixFrom r fuel (n / r) (digitUnit (n % r) :: acc)).length ≤ _
    split
    · rw [List.length_cons]
      omega
    · rename_i hpos
      obtain ⟨k, rfl⟩ := Nat.exists_eq_succ_of_ne_zero hk.ne'
      have hlt : n / r < r ^ k := Nat.div_lt_of_lt_mul (by rwa [pow_succ'] at h)
      have hk' : 0 < k := by
        rcases Nat.eq_zero_or_pos k with rfl | hk'
        · rw [pow_zero] at hlt
          exact absurd (Nat.lt_one_iff.mp hlt) hpos
        · exact hk'
      have hrest := ih (n / r) (digitUnit (n % r) :: acc) hk' hlt
      rw [List.length_cons] at hrest
      omega

theorem length_radixText {r k n : Nat} (hk : 0 < k) (h : n < r ^ k) : (radixText r n).length ≤ k :=
  (length_radixFrom _ _ [] hk h).trans (by simp)

/-- The digits of a number read back as the number. -/
theorem radixValue_radixText {r : Nat} (hr : 2 ≤ r) (hmax : r ≤ 36) (n : Nat) :
    radixValue r (radixText r n) = some n := by
  rw [radixValue_eq (radixText_ne_nil r n) (isRadixText_radixText hr hmax n),
    continueValue_radixText hr hmax]

theorem radixText_injective {r : Nat} (hr : 2 ≤ r) (hmax : r ≤ 36) :
    Function.Injective (radixText r) := by
  intro m n h
  have hm := radixValue_radixText hr hmax m
  rw [h, radixValue_radixText hr hmax n] at hm
  exact (Option.some.inj hm).symm

end BoredManager.Js.Number
