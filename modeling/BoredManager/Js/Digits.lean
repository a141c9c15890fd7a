import BoredManager.Js.NumberText

/-! What `Number(text)` makes of a text that is digits only: the number itself below `2 ^ 53`, and
never a small number otherwise. -/
namespace BoredManager.Js.Number

/-- A nonempty run of decimal digits, and the number it writes. -/
def IsDigits (s : Text) (n : Nat) : Prop :=
  s ≠ [] ∧ (∀ u ∈ s, isDigit u = true) ∧ continueValue 10 s 0 = n

theorem roundEven_intCast (z : Int) : roundEven (z : ℚ) = z := by
  simp [roundEven]

theorem floor_le_roundEven (x : ℚ) : ⌊x⌋ ≤ roundEven x := by
  simp only [roundEven]
  split_ifs <;> omega

theorem binade_nat {n : Nat} (hn : n ≠ 0) : binade n 1 = n.log2 := by
  have hlog : Nat.log2 1 = 0 := rfl
  have hle : ¬n < 2 ^ n.log2 := not_lt.mpr (Nat.log2_self_le hn)
  simp only [binade, hlog, Nat.cast_zero, sub_zero, Int.toNat_natCast, Int.toNat_neg_natCast, pow_zero,
    mul_one, one_mul, if_neg hle]

/-- The whole numbers below `2 ^ 53` are doubles. -/
theorem ofRat_nat {n : Nat} (h : n < 2 ^ 53) : ofRat (n : ℚ) = .fin n := by
  by_cases hn : n = 0
  · subst hn
    rfl
  have hlog : n.log2 ≤ 52 := Nat.lt_succ_iff.mp ((Nat.log2_lt hn).mpr h)
  obtain ⟨m, hm⟩ : ∃ m : Nat, n.log2 + m = 52 := ⟨52 - n.log2, by omega⟩
  have hexponent : max ((n.log2 : Int) - 52) (-1074) = -(m : Int) := by omega
  have hscaled : (n : ℚ) / (2 : ℚ) ^ (-(m : Int)) = ((n * 2 ^ m : Nat) : Int) := by
    rw [zpow_neg, zpow_natCast, div_inv_eq_mul]
    push_cast
    rfl
  have hback : ((n * 2 ^ m : Nat) : ℚ) * (2 : ℚ) ^ (-(m : Int)) = n := by
    rw [zpow_neg, zpow_natCast]
    push_cast
    field_simp
  have hsmall : ¬(2 : ℚ) ^ (1024 : Int) ≤ |(n : ℚ)| := by
    have hpow : (2 : ℚ) ^ (53 : Nat) ≤ (2 : ℚ) ^ (1024 : Nat) :=
      pow_le_pow_right₀ (by norm_num) (by omega)
    have hlt : (n : ℚ) < (2 : ℚ) ^ (53 : Nat) := by exact_mod_cast h
    rw [abs_of_nonneg (Nat.cast_nonneg n), not_le]
    exact hlt.trans_le (by exact_mod_cast hpow)
  rw [ofRat, if_neg (Nat.cast_ne_zero.mpr hn), Rat.num_natCast, Rat.den_natCast, Int.natAbs_natCast,
    binade_nat hn]
  dsimp only
  rw [hexponent, hscaled, roundEven_intCast, Int.cast_natCast, hback, if_neg hsmall]

/-- From `2 ^ 53` on no whole number rounds to a small one. -/
theorem large_of_ofRat {n : Nat} {r : ℚ} (hn : 2 ^ 53 ≤ n) (h : ofRat (n : ℚ) = .fin r) :
    (2 : ℚ) ^ 52 ≤ r := by
  have hne : n ≠ 0 := by omega
  have hlog : 53 ≤ n.log2 := (Nat.le_log2 hne).mpr hn
  obtain ⟨m, hm⟩ : ∃ m : Nat, n.log2 = m + 52 := ⟨n.log2 - 52, by omega⟩
  have hexponent : max ((n.log2 : Int) - 52) (-1074) = (m : Int) := by omega
  have hfloor : (2 ^ 52 : Int) ≤ ⌊(n : ℚ) / (2 : ℚ) ^ (m : Int)⌋ := by
    have hself : 2 ^ (m + 52) ≤ n := hm ▸ Nat.log2_self_le hne
    have hcast : (2 : ℚ) ^ (m + 52) ≤ n := by exact_mod_cast hself
    rw [Int.le_floor, zpow_natCast, le_div_iff₀ (by positivity)]
    calc ((2 ^ 52 : Int) : ℚ) * 2 ^ m = 2 ^ (m + 52) := by push_cast; ring
      _ ≤ n := hcast
  have hround := hfloor.trans (floor_le_roundEven _)
  rw [ofRat, if_neg (Nat.cast_ne_zero.mpr hne), Rat.num_natCast, Rat.den_natCast, Int.natAbs_natCast,
    binade_nat hne] at h
  dsimp only at h
  rw [hexponent] at h
  split_ifs at h
  injection h with h
  rw [← h, zpow_natCast]
  have hone : (1 : ℚ) ≤ 2 ^ m := one_le_pow₀ (by norm_num)
  have hcast : (2 : ℚ) ^ 52 ≤ roundEven ((n : ℚ) / (2 : ℚ) ^ (m : Int)) := by exact_mod_cast hround
  rw [zpow_natCast] at hcast
  calc (2 : ℚ) ^ 52 = 2 ^ 52 * 1 := (mul_one _).symm
    _ ≤ roundEven ((n : ℚ) / 2 ^ m) * 2 ^ m := mul_le_mul hcast hone (by norm_num) (le_trans (by norm_num) hcast)

theorem ofText_trim (s : Text) : ofText (trim s) = ofText s := by
  simp only [ofText, trim_trim]

theorem not_isSpace_of_isDigit {u : Nat} (h : isDigit u = true) : isSpace u = false := by
  simp only [isDigit, Bool.and_eq_true, decide_eq_true_eq] at h
  simp only [isSpace, Bool.or_eq_false_iff, Bool.and_eq_false_iff, decide_eq_false_iff_not,
    beq_eq_false_iff_ne]
  omega

theorem IsDigits.trim_eq {s : Text} {n : Nat} (h : IsDigits s n) : trim s = s :=
  trim_eq_self fun u hu => not_isSpace_of_isDigit (h.2.1 u hu)

theorem ofText_digits {s : Text} {n : Nat} (h : IsDigits s n) : ofText s = ofRat n := by
  have htrim := h.trim_eq
  obtain ⟨hne, hall, hvalue⟩ := h
  have hlit : decimalLiteral s = some (ofRat n) := by
    have hwhole := decimalLiteral_whole hall hne .none
    rw [List.append_nil, zpow_zero, mul_one, hvalue] at hwhole
    exact hwhole
  rw [ofText, htrim]
  split
  · exact absurd rfl hne
  · rename_i x ds
    have hx := hall x (by simp)
    simp only [isDigit, Bool.and_eq_true, decide_eq_true_eq] at hx
    rw [if_neg (show ¬(x = 120 ∨ x = 88) by omega), if_neg (show ¬(x = 111 ∨ x = 79) by omega),
      if_neg (show ¬(x = 98 ∨ x = 66) by omega), if_pos rfl, hlit]
    rfl
  · have hsign : splitSign s = (false, s) := by
      rw [splitSign]
      · intro t heq
        exact absurd (hall 45 (by rw [heq]; exact List.mem_cons_self)) (by decide)
      · intro t heq
        exact absurd (hall 43 (by rw [heq]; exact List.mem_cons_self)) (by decide)
    rw [hsign]
    dsimp only
    rw [hlit]
    rfl

/-- `Number(text)` where it is an integer from 0 to a limit. -/
def whole (text : Text) (limit : Int) : Option Int :=
  (ofText text).integer?.filter fun z => 0 ≤ z && z ≤ limit

/-- Digits are read as their number, when it is within the bounds. -/
theorem whole_digits {s : Text} {n limit : Nat} (h : IsDigits (trim s) n) (hlimit : limit < 2 ^ 52) :
    whole s limit = if n ≤ limit then some (n : Int) else none := by
  rw [whole, ← ofText_trim, ofText_digits h]
  by_cases hsmall : n < 2 ^ 53
  · have hinteger : (Number.fin (n : ℚ)).integer? = some (n : Int) := by
      rw [integer?_eq_some]
      simp [ofInt]
    rw [ofRat_nat hsmall, hinteger]
    split_ifs with hle
    · simp [hle]
    · simpa using hle
  · have hlarge : ¬n ≤ limit := by omega
    rw [if_neg hlarge, Option.filter_eq_none_iff]
    intro z hz
    have hz := integer?_eq_some.mp hz
    have hbig := large_of_ofRat (not_lt.mp hsmall) hz
    have hcast : (2 ^ 52 : Int) ≤ z := by exact_mod_cast hbig
    simp only [Bool.and_eq_true, decide_eq_true_eq, not_and, not_le]
    omega

end BoredManager.Js.Number
