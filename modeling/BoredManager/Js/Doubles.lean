import BoredManager.Js.Digits

/-! Rounding to doubles on the nonnegative rationals: it keeps the order, what it gives is a double,
and the doubles are the multiples of the powers of two by at most 53 binary digits. -/
namespace BoredManager.Js.Number

variable {x y q r : ℚ}

theorem two_zpow_pos (e : Int) : (0 : ℚ) < 2 ^ e := zpow_pos (by norm_num) e

theorem two_zpow_mono {a b : Int} (h : a ≤ b) : (2 : ℚ) ^ a ≤ 2 ^ b :=
  zpow_le_zpow_right₀ (by norm_num) h

theorem lt_of_two_zpow_lt {a b : Int} (h : (2 : ℚ) ^ a < 2 ^ b) : a < b :=
  lt_of_not_ge fun hle => absurd h (not_lt.mpr (two_zpow_mono hle))

theorem two_zpow_add (a b : Int) : (2 : ℚ) ^ (a + b) = 2 ^ a * 2 ^ b := zpow_add₀ two_ne_zero a b

/-- The comparison that `binade` makes. -/
theorem lt_two_zpow_iff {n d : Nat} (hd : 0 < d) (e : Int) :
    n * 2 ^ (-e).toNat < d * 2 ^ e.toNat ↔ (n : ℚ) / d < 2 ^ e := by
  have hd' : (0 : ℚ) < d := by exact_mod_cast hd
  have hpow : (2 : ℚ) ^ e * 2 ^ ((-e).toNat : Int) = 2 ^ (e.toNat : Int) := by
    rw [← two_zpow_add]
    congr 1
    omega
  rw [div_lt_iff₀ hd', ← mul_lt_mul_iff_left₀ (two_zpow_pos ((-e).toNat : Int)), mul_right_comm, hpow,
    zpow_natCast, zpow_natCast, mul_comm _ (d : ℚ)]
  exact_mod_cast Iff.rfl

theorem binade_bounds {n d : Nat} (hn : n ≠ 0) (hd : d ≠ 0) :
    (2 : ℚ) ^ binade n d ≤ n / d ∧ (n : ℚ) / d < 2 ^ (binade n d + 1) := by
  have hd' : (0 : ℚ) < d := by exact_mod_cast Nat.pos_of_ne_zero hd
  have hnlow : (2 : ℚ) ^ (n.log2 : Int) ≤ n := by
    rw [zpow_natCast]
    exact_mod_cast Nat.log2_self_le hn
  have hnhigh : (n : ℚ) < 2 ^ ((n.log2 : Int) + 1) := by
    have hlt := (Nat.log2_lt hn).mp (Nat.lt_succ_self _)
    exact_mod_cast hlt
  have hdlow : (2 : ℚ) ^ (d.log2 : Int) ≤ d := by
    rw [zpow_natCast]
    exact_mod_cast Nat.log2_self_le hd
  have hdhigh : (d : ℚ) < 2 ^ ((d.log2 : Int) + 1) := by
    have hlt := (Nat.log2_lt hd).mp (Nat.lt_succ_self _)
    exact_mod_cast hlt
  have hlow : (2 : ℚ) ^ ((n.log2 : Int) - d.log2 - 1) ≤ n / d := by
    rw [le_div_iff₀ hd']
    calc (2 : ℚ) ^ ((n.log2 : Int) - d.log2 - 1) * d
        ≤ 2 ^ ((n.log2 : Int) - d.log2 - 1) * 2 ^ ((d.log2 : Int) + 1) :=
          mul_le_mul_of_nonneg_left hdhigh.le (two_zpow_pos _).le
      _ = 2 ^ (n.log2 : Int) := by
          rw [← two_zpow_add]
          congr 1
          omega
      _ ≤ n := hnlow
  have hhigh : (n : ℚ) / d < 2 ^ ((n.log2 : Int) - d.log2 + 1) := by
    rw [div_lt_iff₀ hd']
    calc (n : ℚ) < 2 ^ ((n.log2 : Int) + 1) := hnhigh
      _ = 2 ^ ((n.log2 : Int) - d.log2 + 1) * 2 ^ (d.log2 : Int) := by
          rw [← two_zpow_add]
          congr 1
          omega
      _ ≤ _ := mul_le_mul_of_nonneg_left hdlow (two_zpow_pos _).le
  have hcompare := lt_two_zpow_iff (n := n) (Nat.pos_of_ne_zero hd) ((n.log2 : Int) - d.log2)
  rw [binade]
  by_cases hbelow : (n : ℚ) / d < 2 ^ ((n.log2 : Int) - d.log2)
  · rw [if_pos (hcompare.mpr hbelow), sub_add_cancel]
    exact ⟨hlow, hbelow⟩
  · rw [if_neg fun h => hbelow (hcompare.mp h)]
    exact ⟨not_lt.mp hbelow, hhigh⟩

theorem binade_spec (hq : 0 < q) :
    (2 : ℚ) ^ binade q.num.natAbs q.den ≤ q ∧ q < 2 ^ (binade q.num.natAbs q.den + 1) := by
  have hnum : 0 < q.num := Rat.num_pos.mpr hq
  have habs : ((q.num.natAbs : Int) : ℚ) = (q.num : ℚ) := by rw [Int.natAbs_of_nonneg hnum.le]
  have hfrac : (q.num.natAbs : ℚ) / q.den = q := by
    rw [← Int.cast_natCast, habs, Rat.num_div_den]
  have hbounds := binade_bounds (n := q.num.natAbs) (d := q.den) (by omega) q.den_ne_zero
  rwa [hfrac] at hbounds

/-! ### Rounding -/

theorem roundEven_mono (h : x ≤ y) : roundEven x ≤ roundEven y := by
  have hfloor : ⌊x⌋ ≤ ⌊y⌋ := Int.floor_le_floor h
  have hceil : roundEven x ≤ ⌊x⌋ + 1 := by
    simp only [roundEven]
    split_ifs <;> omega
  obtain hlt | heq := hfloor.lt_or_eq
  · have hy := floor_le_roundEven y
    omega
  · simp only [roundEven, heq]
    split_ifs <;> first | omega | linarith

/-- The power of two that the nearest double is a multiple of. -/
def grain (q : ℚ) : Int := max (binade q.num.natAbs q.den - 52) (-1074)

/-- The nearest multiple of it. -/
def rounded (q : ℚ) : ℚ := roundEven (q / 2 ^ grain q) * 2 ^ grain q

theorem roundEven_nonneg (h : 0 ≤ x) : 0 ≤ roundEven x :=
  (Int.floor_nonneg.mpr h).trans (floor_le_roundEven x)

theorem rounded_nonneg (h : 0 < q) : 0 ≤ rounded q := by
  have hround := roundEven_nonneg (div_nonneg h.le (two_zpow_pos (grain q)).le)
  exact mul_nonneg (by exact_mod_cast hround) (two_zpow_pos _).le

theorem ofRat_eq (h : 0 < q) :
    ofRat q = if (2 : ℚ) ^ (1024 : Int) ≤ rounded q then .inf false else .fin (rounded q) := by
  have hnonneg := rounded_nonneg h
  have hdef : ofRat q = if (2 : ℚ) ^ (1024 : Int) ≤ |rounded q| then .inf (decide (rounded q < 0))
      else .fin (rounded q) := by
    rw [ofRat, if_neg h.ne']
    rfl
  rw [hdef, abs_of_nonneg hnonneg, decide_eq_false (not_lt.mpr hnonneg)]

/-- The digits of the nearest multiple. -/
theorem roundEven_le (h : 0 < q) : roundEven (q / 2 ^ grain q) ≤ 2 ^ 53 := by
  have hbound : q / 2 ^ grain q ≤ ((2 ^ 53 : Int) : ℚ) := by
    rw [div_le_iff₀ (two_zpow_pos _)]
    calc q ≤ 2 ^ (binade q.num.natAbs q.den + 1) := (binade_spec h).2.le
      _ ≤ 2 ^ (53 + grain q) := two_zpow_mono (by rw [grain]; omega)
      _ = ((2 ^ 53 : Int) : ℚ) * 2 ^ grain q := by
        rw [two_zpow_add]
        norm_num
  calc roundEven (q / 2 ^ grain q) ≤ roundEven ((2 ^ 53 : Int) : ℚ) := roundEven_mono hbound
    _ = 2 ^ 53 := roundEven_intCast _

theorem rounded_le_top (h : 0 < q) : rounded q ≤ 2 ^ (53 + grain q) := by
  have hle := roundEven_le h
  calc rounded q ≤ ((2 ^ 53 : Int) : ℚ) * 2 ^ grain q :=
        mul_le_mul_of_nonneg_right (by exact_mod_cast hle) (two_zpow_pos _).le
    _ = 2 ^ (53 + grain q) := by
        rw [two_zpow_add]
        norm_num

/-- Rounding keeps the order. -/
theorem rounded_mono (hx : 0 < x) (h : x ≤ y) : rounded x ≤ rounded y := by
  have hy : 0 < y := hx.trans_le h
  have hbinade : binade x.num.natAbs x.den < binade y.num.natAbs y.den + 1 :=
    lt_of_two_zpow_lt ((binade_spec hx).1.trans_lt (h.trans_lt (binade_spec hy).2))
  have hgrain : grain x ≤ grain y := by
    rw [grain, grain]
    omega
  obtain hlt | heq := hgrain.lt_or_eq
  · -- a greater grain leaves a power of two between them
    have hnormal : binade y.num.natAbs y.den = grain y + 52 := by
      rw [grain] at hlt ⊢
      rw [grain] at hlt
      omega
    have hlow : ((2 ^ 52 : Int) : ℚ) ≤ y / 2 ^ grain y := by
      rw [le_div_iff₀ (two_zpow_pos _)]
      calc ((2 ^ 52 : Int) : ℚ) * 2 ^ grain y = 2 ^ binade y.num.natAbs y.den := by
            rw [hnormal, add_comm, two_zpow_add]
            norm_num
        _ ≤ y := (binade_spec hy).1
    have hround : (2 ^ 52 : Int) ≤ roundEven (y / 2 ^ grain y) := by
      rw [← roundEven_intCast (2 ^ 52)]
      exact roundEven_mono hlow
    calc rounded x ≤ 2 ^ (53 + grain x) := rounded_le_top hx
      _ ≤ 2 ^ (52 + grain y) := two_zpow_mono (by omega)
      _ = ((2 ^ 52 : Int) : ℚ) * 2 ^ grain y := by
        rw [two_zpow_add]
        norm_num
      _ ≤ rounded y := mul_le_mul_of_nonneg_right (by exact_mod_cast hround) (two_zpow_pos _).le
  · have hscaled : x / 2 ^ grain x ≤ y / 2 ^ grain y := by
      rw [heq]
      exact div_le_div_of_nonneg_right h (two_zpow_pos _).le
    have hround := roundEven_mono hscaled
    rw [rounded, rounded, heq] at *
    exact mul_le_mul_of_nonneg_right (by exact_mod_cast hround) (two_zpow_pos _).le

/-! ### The doubles -/

theorem isDouble_of_rounded (hq : 0 < q) (h : rounded q = q) (hsmall : q < 2 ^ (1024 : Int)) :
    IsDouble q := by
  rw [IsDouble, ofRat_eq hq, h, if_neg (not_le.mpr hsmall)]

/-- A multiple of the grain rounds to itself. -/
theorem rounded_of_grain {m : Nat} {e : Int} (h : grain (m * 2 ^ e) ≤ e) :
    rounded (m * 2 ^ e) = m * 2 ^ e := by
  generalize hgrain : grain (m * (2 : ℚ) ^ e) = g at h
  obtain ⟨k, rfl⟩ : ∃ k : Nat, e = k + g := ⟨(e - g).toNat, by omega⟩
  have hz : (m : ℚ) * 2 ^ ((k : Int) + g) / 2 ^ g = ((m * 2 ^ k : Nat) : Int) := by
    rw [two_zpow_add, ← mul_assoc, mul_div_cancel_right₀ _ (two_zpow_pos g).ne', zpow_natCast]
    push_cast
    rfl
  rw [rounded, hgrain, hz, roundEven_intCast, two_zpow_add, ← mul_assoc, zpow_natCast]
  push_cast
  rfl

/-- A number of 53 binary digits rounds to itself. -/
theorem rounded_scaled {m : Nat} {e : Int} (hpos : 0 < m) (hm : m ≤ 2 ^ 53) (he : -1074 ≤ e) :
    rounded (m * 2 ^ e) = m * 2 ^ e := by
  have hq : (0 : ℚ) < m * 2 ^ e := mul_pos (by exact_mod_cast hpos) (two_zpow_pos e)
  have htop : (2 : ℚ) ^ (53 + e) = ((2 ^ 53 : Nat) : ℚ) * 2 ^ e := by
    rw [two_zpow_add]
    norm_num
  obtain hlt | rfl := hm.lt_or_eq
  · have hbinade : binade ((m : ℚ) * 2 ^ e).num.natAbs ((m : ℚ) * 2 ^ e).den < 53 + e := by
      refine lt_of_two_zpow_lt ((binade_spec hq).1.trans_lt ?_)
      rw [htop]
      exact mul_lt_mul_of_pos_right (by exact_mod_cast hlt) (two_zpow_pos e)
    exact rounded_of_grain (by rw [grain]; omega)
  · -- the top of a binade is the bottom of the next
    have hhalf : ((2 ^ 53 : Nat) : ℚ) * 2 ^ e = ((2 ^ 52 : Nat) : ℚ) * 2 ^ (1 + e) := by
      rw [two_zpow_add]
      norm_num
      ring
    rw [hhalf] at hq ⊢
    have hbinade : binade (((2 ^ 52 : Nat) : ℚ) * 2 ^ (1 + e)).num.natAbs
        (((2 ^ 52 : Nat) : ℚ) * 2 ^ (1 + e)).den < 54 + e := by
      refine lt_of_two_zpow_lt ((binade_spec hq).1.trans_lt ?_)
      rw [← hhalf, ← htop]
      exact zpow_lt_zpow_right₀ (by norm_num) (by omega)
    exact rounded_of_grain (by rw [grain]; omega)

theorem isDouble_scaled {m : Nat} {e : Int} (hm : m ≤ 2 ^ 53) (he : -1074 ≤ e)
    (hsmall : (m : ℚ) * 2 ^ e < 2 ^ (1024 : Int)) : IsDouble (m * 2 ^ e) := by
  obtain rfl | hpos := Nat.eq_zero_or_pos m
  · rw [Nat.cast_zero, zero_mul]
    rfl
  · exact isDouble_of_rounded (mul_pos (by exact_mod_cast hpos) (two_zpow_pos e))
      (rounded_scaled hpos hm he) hsmall

/-- What rounding gives is a double, and a multiple of a power of two by 53 digits at most. -/
theorem exists_scaled_rounded (hq : 0 < q) :
    ∃ (m : Nat) (e : Int), m ≤ 2 ^ 53 ∧ -1074 ≤ e ∧ rounded q = m * 2 ^ e := by
  have hnonneg := roundEven_nonneg (div_nonneg hq.le (two_zpow_pos (grain q)).le)
  have hle := roundEven_le hq
  obtain ⟨m, hm⟩ := Int.eq_ofNat_of_zero_le hnonneg
  refine ⟨m, grain q, by omega, le_max_right _ _, ?_⟩
  rw [rounded, hm, Int.cast_natCast]

theorem isDouble_ofRat (hq : 0 ≤ q) (h : ofRat q = .fin r) : IsDouble r := by
  obtain rfl | hpos := hq.eq_or_lt
  · cases h
    rfl
  · rw [ofRat_eq hpos] at h
    split_ifs at h with hbig
    injection h with h
    obtain ⟨m, e, hm, he, heq⟩ := exists_scaled_rounded hpos
    rw [← h, heq]
    exact isDouble_scaled hm he (by rw [← heq]; exact not_le.mp hbig)

theorem IsDouble.rounded_eq (h : IsDouble q) (hq : 0 < q) : rounded q = q ∧ q < 2 ^ (1024 : Int) := by
  rw [IsDouble, ofRat_eq hq] at h
  split_ifs at h with hbig
  injection h with h
  exact ⟨h, by rw [← h]; exact not_le.mp hbig⟩

theorem IsDouble.exists_scaled (h : IsDouble q) (hq : 0 < q) :
    ∃ (m : Nat) (e : Int), m ≤ 2 ^ 53 ∧ -1074 ≤ e ∧ q = m * 2 ^ e := by
  obtain ⟨m, e, hm, he, heq⟩ := exists_scaled_rounded hq
  exact ⟨m, e, hm, he, (h.rounded_eq hq).1 ▸ heq⟩

/-- Twice a double is exact, short of infinity. -/
theorem IsDouble.ofRat_twice (h : IsDouble q) (hq : 0 < q) :
    ofRat (2 * q) = if (2 : ℚ) ^ (1024 : Int) ≤ 2 * q then .inf false else .fin (2 * q) := by
  obtain ⟨m, e, hm, he, heq⟩ := h.exists_scaled hq
  have hpos : 0 < m := by
    refine Nat.pos_of_ne_zero fun hzero => ?_
    rw [hzero, Nat.cast_zero, zero_mul] at heq
    exact hq.ne' heq
  have htwice : 2 * q = m * 2 ^ (e + 1) := by
    rw [heq, two_zpow_add, zpow_one]
    ring
  rw [ofRat_eq (by linarith), htwice, rounded_scaled hpos hm (by omega)]

/-- A double from 1 on can be divided by a small power of two. -/
theorem IsDouble.div_two_pow (h : IsDouble q) (hq : 1 ≤ q) {k : Nat} (hk : k ≤ 1021) :
    IsDouble (q / 2 ^ k) := by
  have hpos : 0 < q := one_pos.trans_le hq
  obtain ⟨m, e, hm, he, rfl⟩ := h.exists_scaled hpos
  have hlarge : (2 : ℚ) ^ (0 : Int) < 2 ^ (54 + e) := by
    calc (2 : ℚ) ^ (0 : Int) = 1 := zpow_zero 2
      _ ≤ m * 2 ^ e := hq
      _ ≤ ((2 ^ 53 : Nat) : ℚ) * 2 ^ e :=
        mul_le_mul_of_nonneg_right (by exact_mod_cast hm) (two_zpow_pos e).le
      _ = 2 ^ (53 + e) := by
        rw [two_zpow_add]
        norm_num
      _ < 2 ^ (54 + e) := zpow_lt_zpow_right₀ (by norm_num) (by omega)
  have hexponent := lt_of_two_zpow_lt hlarge
  have hdiv : (m : ℚ) * 2 ^ e / 2 ^ k = m * 2 ^ (e - k) := by
    rw [zpow_sub₀ two_ne_zero, zpow_natCast, mul_div_assoc]
  have hsmall := (h.rounded_eq hpos).2
  rw [hdiv]
  refine isDouble_scaled hm (by omega) (lt_of_le_of_lt ?_ hsmall)
  exact mul_le_mul_of_nonneg_left (two_zpow_mono (by omega)) (Nat.cast_nonneg m)

/-- The whole part of a double is a double. -/
theorem IsDouble.floor (h : IsDouble q) (hq : 0 ≤ q) : IsDouble (⌊q⌋ : ℚ) := by
  obtain rfl | hpos := hq.eq_or_lt
  · rw [Int.floor_zero, Int.cast_zero]
    rfl
  obtain ⟨m, e, hm, he, rfl⟩ := h.exists_scaled hpos
  obtain hneg | hnonneg := lt_or_ge e 0
  · -- below the point nothing is left but a small number
    have hsmall : (m : ℚ) * 2 ^ e < 2 ^ 53 := by
      calc (m : ℚ) * 2 ^ e ≤ ((2 ^ 53 : Nat) : ℚ) * 2 ^ e :=
            mul_le_mul_of_nonneg_right (by exact_mod_cast hm) (two_zpow_pos e).le
        _ = 2 ^ (53 + e) := by
            rw [two_zpow_add]
            norm_num
        _ < 2 ^ (53 : Int) := zpow_lt_zpow_right₀ (by norm_num) (by omega)
        _ = 2 ^ 53 := by norm_num
    obtain ⟨n, hn⟩ := Int.eq_ofNat_of_zero_le (Int.floor_nonneg.mpr hq)
    have hlt : n < 2 ^ 53 := by
      have hfloor := (Int.floor_le ((m : ℚ) * 2 ^ e)).trans_lt hsmall
      rw [hn] at hfloor
      exact_mod_cast hfloor
    rw [hn, Int.cast_natCast]
    exact ofRat_nat hlt
  · lift e to Nat using hnonneg
    have hwhole : (m : ℚ) * 2 ^ (e : Int) = ((m * 2 ^ e : Nat) : Int) := by
      rw [zpow_natCast]
      push_cast
      rfl
    rw [hwhole, Int.floor_intCast, ← hwhole]
    exact h

/-- Rounding does not carry a fraction from above a whole number down to it. -/
theorem ceil_double {m : Nat} (hm : m < 2 ^ 40) (hlow : (m : ℚ) + 1 / 128 ≤ q) (hhigh : q ≤ m + 1) :
    ⌈double q⌉ = (m : Int) + 1 := by
  have hpos : (0 : ℚ) < m + 1 / 128 := by positivity
  have hq : 0 < q := hpos.trans_le hlow
  have hlowest : rounded ((m : ℚ) + 1 / 128) = m + 1 / 128 := by
    have hscaled := rounded_scaled (m := 128 * m + 1) (e := -7) (by omega) (by omega) (by omega)
    have heq : ((128 * m + 1 : Nat) : ℚ) * 2 ^ (-7 : Int) = m + 1 / 128 := by
      push_cast
      norm_num
      ring
    rwa [heq] at hscaled
  have hhighest : rounded ((m : ℚ) + 1) = m + 1 := by
    have hscaled := rounded_scaled (m := m + 1) (e := 0) (by omega) (by omega) (by omega)
    simpa using hscaled
  have hge := rounded_mono hpos hlow
  have hle := rounded_mono hq hhigh
  rw [hlowest] at hge
  rw [hhighest] at hle
  have hfin : double q = rounded q := by
    have hm' : (m : ℚ) < 2 ^ 40 := by exact_mod_cast hm
    have hsmall : rounded q < 2 ^ (1024 : Int) := by
      calc rounded q ≤ (m : ℚ) + 1 := hle
        _ < 2 ^ (41 : Int) := by
          norm_num
          linarith
        _ ≤ 2 ^ (1024 : Int) := two_zpow_mono (by omega)
    rw [double, ofRat_eq hq, if_neg (not_le.mpr hsmall)]
    rfl
  rw [hfin, Int.ceil_eq_iff]
  push_cast
  constructor
  · linarith
  · exact hle

theorem isDouble_two_pow {k : Nat} (hk : k < 1024) : IsDouble ((2 : ℚ) ^ k) := by
  have hscaled := isDouble_scaled (m := 1) (e := k) (by norm_num) (by omega)
    (by rw [Nat.cast_one, one_mul]; exact zpow_lt_zpow_right₀ (by norm_num) (by omega))
  rwa [Nat.cast_one, one_mul, zpow_natCast] at hscaled

end BoredManager.Js.Number
