import BoredManager.Js.Radix
import Mathlib.Data.Nat.Prime.Basic
import Mathlib.Tactic.FieldSimp
import Mathlib.Tactic.Ring

/-! `String(x)` of a finite number: the fewest digits that read back as the number,
laid out with a point or an exponent. The text of a double reads back as the double. -/
namespace BoredManager.Js
namespace Number

/-- The place `n` of the point: `10 ^ (n - 1) ≤ q < 10 ^ n` for a positive `q`. -/
def pointPlace (q : ℚ) : Int :=
  let n : Int := (Nat.log 10 q.num.natAbs : Int) - Nat.log 10 q.den
  if q < (10 : ℚ) ^ n then n else n + 1

/-- The digits of a place that read back as `q`: the nearest ones, or those on its other side. -/
def digitsAt (q : ℚ) (e : Int) : Option Nat :=
  let x := q / (10 : ℚ) ^ e
  let near := (roundEven x).toNat
  let far := if near = ⌊x⌋.toNat then near + 1 else ⌊x⌋.toNat
  if ofRat (near * (10 : ℚ) ^ e) = .fin q then some near
  else if ofRat (far * (10 : ℚ) ^ e) = .fin q then some far
  else none

/-- The first count of digits, from `k` on, that is enough. -/
def shortestFrom (q : ℚ) (n : Int) : Nat → Nat → Nat × Int
  | 0, k => (⌊q / (10 : ℚ) ^ (n - k)⌋.toNat, n - k)
  | fuel+1, k =>
    match digitsAt q (n - k) with
    | some s => (s, n - k)
    | none => shortestFrom q n fuel (k + 1)

def shortest (q : ℚ) : Nat × Int :=
  let n := pointPlace q
  shortestFrom q n (n + q.den.log2).toNat 1

def exponentText (z : Int) : Text :=
  101 :: (if z < 0 then 45 else 43) :: decimal z.natAbs

/-- The layout of the digits `s` at the exponent `e`. -/
def layoutDigits (s : Nat) (e : Int) : Text :=
  let ds := decimal s
  let n := e + ds.length
  if -5 ≤ n ∧ n ≤ 21 then
    if ds.length ≤ n then ds ++ List.replicate (n - ds.length).toNat 48
    else if 0 < n then ds.take n.toNat ++ 46 :: ds.drop n.toNat
    else 48 :: 46 :: List.replicate (-n).toNat 48 ++ ds
  else match ds with
    | [d] => d :: exponentText (n - 1)
    | d :: ds => d :: 46 :: ds ++ exponentText (n - 1)
    | [] => []

def positiveText (q : ℚ) : Text :=
  let (s, e) := shortest q
  if s = 10 then layoutDigits 1 (e + 1) else layoutDigits s e

end Number

/-- `String(x)` of the finite number `q`. -/
def numberText (q : ℚ) : Text :=
  if q = 0 then js "0"
  else if q < 0 then 45 :: Number.positiveText (-q)
  else Number.positiveText q

namespace Number

/-- A rational that is a double. -/
def IsDouble (q : ℚ) : Prop := ofRat q = .fin q

instance (q : ℚ) : Decidable (IsDouble q) := inferInstanceAs (Decidable (_ = _))

theorem digitsAt_spec {q : ℚ} {e : Int} {s : Nat} (h : digitsAt q e = some s) :
    ofRat (s * (10 : ℚ) ^ e) = .fin q := by
  have hpick : ∀ near far : Nat,
      (if ofRat (near * (10 : ℚ) ^ e) = .fin q then some near
        else if ofRat (far * (10 : ℚ) ^ e) = .fin q then some far else none) = some s →
      ofRat (s * (10 : ℚ) ^ e) = .fin q := by
    intro near far h
    split at h
    · rename_i hnear
      cases h
      exact hnear
    · split at h
      · rename_i hfar
        cases h
        exact hfar
      · cases h
  exact hpick _ _ h

theorem shortestFrom_spec {q : ℚ} {n : Int} {fuel k : Nat}
    (hexact : ofRat (⌊q / (10 : ℚ) ^ (n - (k + fuel : Nat))⌋.toNat * (10 : ℚ) ^ (n - (k + fuel : Nat))) =
      .fin q) :
    ofRat ((shortestFrom q n fuel k).1 * (10 : ℚ) ^ (shortestFrom q n fuel k).2) = .fin q := by
  induction fuel generalizing k with
  | zero => simpa [shortestFrom] using hexact
  | succ fuel ih =>
    rw [shortestFrom]
    cases hdigits : digitsAt q (n - k) with
    | some s => exact digitsAt_spec hdigits
    | none =>
      apply ih
      rwa [show k + 1 + fuel = k + (fuel + 1) by omega]

/-- The denominator of a double is a power of two. -/
theorem IsDouble.den_eq {q : ℚ} (h : IsDouble q) : ∃ j, q.den = 2 ^ j := by
  have hform : ∃ (z e : Int), q = z * (2 : ℚ) ^ e := by
    unfold IsDouble ofRat at h
    split at h
    · injection h with h
      exact ⟨0, 0, by simp [← h]⟩
    · dsimp only at h
      split at h
      · cases h
      · injection h with h
        exact ⟨_, _, h.symm⟩
  obtain ⟨z, e, rfl⟩ := hform
  rcases le_or_gt 0 e with he | he
  · lift e to Nat using he
    refine ⟨0, ?_⟩
    rw [zpow_natCast, show (z : ℚ) * 2 ^ e = ((z * 2 ^ e : Int) : ℚ) by push_cast; rfl,
      Rat.den_intCast, pow_zero]
  · obtain ⟨m, rfl⟩ := Int.exists_eq_neg_ofNat he.le
    have hdvd : ((z : ℚ) * 2 ^ (-(m : Int))).den ∣ 2 ^ m := by
      have h := Rat.den_dvd z ((2 ^ m : Nat) : Int)
      rw [zpow_neg, zpow_natCast, ← div_eq_mul_inv]
      rw [Rat.divInt_eq_div] at h
      exact_mod_cast h
    obtain ⟨j, -, hj⟩ := (Nat.dvd_prime_pow Nat.prime_two).mp hdvd
    exact ⟨j, hj⟩

/-- With a place for each binary place of the fraction, the digits are the number. -/
theorem exact_digits {q : ℚ} (hq : 0 ≤ q) {j : Nat} (hden : q.den = 2 ^ j) {e : Int}
    (he : e ≤ -j) : (⌊q / (10 : ℚ) ^ e⌋.toNat : ℚ) * (10 : ℚ) ^ e = q := by
  obtain ⟨m, rfl⟩ : ∃ m : Nat, e = -(j + m : Nat) := ⟨(-e - j).toNat, by omega⟩
  have hpow : (10 : ℚ) ^ (-((j + m : Nat) : Int)) ≠ 0 := zpow_ne_zero _ (by norm_num)
  have hz : q / (10 : ℚ) ^ (-((j + m : Nat) : Int)) = ((q.num * (5 ^ j * 10 ^ m) : Int) : ℚ) := by
    have hq' : q = q.num / (2 : ℚ) ^ j := by
      conv_lhs => rw [← Rat.num_div_den q, hden]
      push_cast
      rfl
    have h10 : (10 : ℚ) ^ (j + m) = 2 ^ j * (5 ^ j * 10 ^ m) := by
      rw [pow_add, ← mul_assoc, ← mul_pow]
      norm_num
    rw [zpow_neg, zpow_natCast, div_inv_eq_mul, h10]
    conv_lhs => rw [hq']
    field_simp
    push_cast
    ring
  have hnonneg : 0 ≤ q.num * (5 ^ j * 10 ^ m) :=
    mul_nonneg (Rat.num_nonneg.mpr hq) (by positivity)
  have hfloor : (⌊q / (10 : ℚ) ^ (-((j + m : Nat) : Int))⌋.toNat : ℚ) =
      q / (10 : ℚ) ^ (-((j + m : Nat) : Int)) := by
    rw [hz, Int.floor_intCast]
    exact_mod_cast Int.toNat_of_nonneg hnonneg
  rw [hfloor, div_mul_cancel₀ _ hpow]

/-- The shortest digits of a double read back as the double. -/
theorem shortest_spec {q : ℚ} (hq : 0 ≤ q) (h : IsDouble q) :
    ofRat ((shortest q).1 * (10 : ℚ) ^ (shortest q).2) = .fin q := by
  obtain ⟨j, hj⟩ := h.den_eq
  refine shortestFrom_spec ?_
  rw [exact_digits hq hj]
  · exact h
  · rw [hj, Nat.log2_two_pow]
    omega

theorem isDigit_of_mem_zeros {n u : Nat} (h : u ∈ List.replicate n 48) : isDigit u = true := by
  rw [List.eq_of_mem_replicate h]
  rfl

theorem isRadixText_of_digits {s : Text} (h : ∀ u ∈ s, isDigit u = true) : IsRadixText 10 s := by
  intro u hu
  have hd := h u hu
  refine ⟨u - 48, ?_, by rw [digitValue, if_pos hd]⟩
  simp only [isDigit, Bool.and_eq_true, decide_eq_true_eq] at hd
  omega

theorem continueValue_zeros (n a : Nat) :
    continueValue 10 (List.replicate n 48) a = a * 10 ^ n := by
  induction n generalizing a with
  | zero => simp [continueValue]
  | succ n ih =>
    have hzero : continueValue 10 (List.replicate (n + 1) 48) a =
        continueValue 10 (List.replicate n 48) (a * 10) := rfl
    rw [hzero, ih]
    ring

theorem takeWhile_digits {ds r : Text} (h : ∀ u ∈ ds, isDigit u = true)
    (hrest : ∀ u ∈ r.head?, isDigit u = false) :
    (ds ++ r).takeWhile isDigit = ds ∧ (ds ++ r).dropWhile isDigit = r := by
  have hstop : r.takeWhile isDigit = [] ∧ r.dropWhile isDigit = r := by
    cases r with
    | nil => exact ⟨rfl, rfl⟩
    | cons u r => simp [hrest u rfl]
  rw [List.takeWhile_append_of_pos h, List.dropWhile_append_of_pos h, hstop.1, hstop.2]
  exact ⟨List.append_nil _, rfl⟩

/-- What may follow the digits and the fraction: nothing, or an exponent. -/
inductive IsTail : Text → Int → Prop
  | none : IsTail [] 0
  | exponent (z : Int) : IsTail (exponentText z) z

theorem IsTail.head {rest : Text} {z : Int} (h : IsTail rest z) :
    ∀ u ∈ rest.head?, isDigit u = false ∧ u ≠ 46 := by
  cases h with
  | none => intro u hu; cases hu
  | exponent z =>
    intro u hu
    cases hu
    exact ⟨rfl, by decide⟩

theorem splitSign_exponent (z : Int) :
    splitSign ((if z < 0 then 45 else 43) :: decimal z.natAbs) =
      (decide (z < 0), decimal z.natAbs) := by
  by_cases hz : z < 0 <;> simp [hz, splitSign]

theorem all_isDigit_decimal (n : Nat) : (decimal n).all isDigit = true :=
  List.all_eq_true.mpr fun _ hu => isDigit_of_mem_decimal hu

theorem radixValue_decimal (n : Nat) : radixValue 10 (decimal n) = some n :=
  radixValue_radixText (by omega) (by omega) n

theorem signed_natAbs (z : Int) : (if decide (z < 0) = true then -(z.natAbs : Int) else z.natAbs) = z := by
  by_cases hz : z < 0
  · rw [if_pos (by simpa using hz)]
    omega
  · rw [if_neg (by simpa using hz)]
    omega

theorem ne_infinity {w r : Text} (hwhole : ∀ u ∈ w, isDigit u = true)
    (hne : w ≠ []) : w ++ r ≠ js "Infinity" := by
  cases w with
  | nil => exact absurd rfl hne
  | cons u w =>
    intro h
    have hu := hwhole u List.mem_cons_self
    injection h with h
    rw [h] at hu
    exact absurd hu (by decide)

/-- A literal of digits, a fraction after a point, and an exponent. -/
theorem decimalLiteral_fraction {w f r : Text} {z : Int}
    (hwhole : ∀ u ∈ w, isDigit u = true) (hfrac : ∀ u ∈ f, isDigit u = true)
    (hne : w ≠ []) (htail : IsTail r z) :
    decimalLiteral (w ++ 46 :: (f ++ r)) =
      some (ofRat (continueValue 10 (w ++ f) 0 * (10 : ℚ) ^ (z - f.length))) := by
  obtain ⟨hw, hr⟩ := takeWhile_digits (r := 46 :: (f ++ r)) hwhole
    (fun u hu => by cases hu; rfl)
  obtain ⟨hf, ht⟩ := takeWhile_digits hfrac fun u hu => (htail.head u hu).1
  have hvalue : radixValue 10 (w ++ f) = some (continueValue 10 (w ++ f) 0) :=
    radixValue_eq (by simp [hne]) (isRadixText_of_digits fun u hu =>
      (List.mem_append.mp hu).elim (hwhole u) (hfrac u))
  rw [decimalLiteral, if_neg (ne_infinity hwhole hne), hw, hr]
  simp only [hf, ht, hvalue]
  cases htail with
  | none => rfl
  | exponent z =>
    simp only [exponentText, true_or, if_true, splitSign_exponent, all_isDigit_decimal,
      radixValue_decimal]
    change some (ofRat (_ * (10 : ℚ) ^ ((if decide (z < 0) = true then -(z.natAbs : Int)
      else z.natAbs) - f.length))) = _
    rw [signed_natAbs]

/-- The same without a fraction. -/
theorem decimalLiteral_whole {w r : Text} {z : Int}
    (hwhole : ∀ u ∈ w, isDigit u = true) (hne : w ≠ []) (htail : IsTail r z) :
    decimalLiteral (w ++ r) =
      some (ofRat (continueValue 10 w 0 * (10 : ℚ) ^ z)) := by
  obtain ⟨hw, hr⟩ := takeWhile_digits hwhole fun u hu => (htail.head u hu).1
  have hvalue : radixValue 10 w = some (continueValue 10 w 0) :=
    radixValue_eq hne (isRadixText_of_digits hwhole)
  rw [decimalLiteral, if_neg (ne_infinity hwhole hne), hw, hr]
  cases htail with
  | none => simp [hvalue]
  | exponent z =>
    simp only [exponentText, List.append_nil, hvalue, true_or, if_true, splitSign_exponent,
      all_isDigit_decimal, radixValue_decimal]
    change some (ofRat (_ * (10 : ℚ) ^ ((if decide (z < 0) = true then -(z.natAbs : Int)
      else z.natAbs) - (0 : Nat)))) = _
    rw [signed_natAbs, Nat.cast_zero, sub_zero]

theorem continueValue_decimal (n : Nat) : continueValue 10 (decimal n) 0 = n :=
  continueValue_radixText (by omega) (by omega) n

theorem isDigit_decimal (n : Nat) : ∀ u ∈ decimal n, isDigit u = true := fun _ hu =>
  isDigit_of_mem_decimal hu

theorem decimal_ne_nil (n : Nat) : decimal n ≠ [] := radixText_ne_nil 10 n

/-- Every layout of the digits reads as their value. -/
theorem decimalLiteral_layoutDigits (s : Nat) (e : Int) :
    decimalLiteral (layoutDigits s e) = some (ofRat (s * (10 : ℚ) ^ e)) := by
  have hdig := isDigit_decimal s
  have hne := decimal_ne_nil s
  have hval := continueValue_decimal s
  rw [layoutDigits]
  generalize decimal s = ds at hdig hne hval
  have hlen : 0 < ds.length := List.length_pos_iff.mpr hne
  split
  · split
    · -- zeros stand behind the digits
      have h := decimalLiteral_whole (w := ds ++ List.replicate (e + ds.length - ds.length).toNat 48)
        (r := []) (fun u hu => (List.mem_append.mp hu).elim (hdig u) isDigit_of_mem_zeros)
        (by simp [hne]) .none
      rw [List.append_nil] at h
      rw [h, continueValue_append, hval, continueValue_zeros]
      obtain ⟨m, rfl⟩ : ∃ m : Nat, e = m := ⟨e.toNat, by omega⟩
      simp
    · split
      · -- the point stands inside the digits
        have h := decimalLiteral_fraction (w := ds.take (e + ds.length).toNat)
          (f := ds.drop (e + ds.length).toNat) (r := [])
          (fun u hu => hdig u (List.mem_of_mem_take hu))
          (fun u hu => hdig u (List.mem_of_mem_drop hu))
          (by
            rw [ne_eq, List.take_eq_nil_iff, not_or]
            exact ⟨by omega, hne⟩) .none
        rw [List.append_nil] at h
        rw [h, List.take_append_drop, hval, List.length_drop]
        congr 4
        omega
      · -- zeros stand between the point and the digits
        have h := decimalLiteral_fraction (w := [48])
          (f := List.replicate (-(e + ds.length)).toNat 48 ++ ds) (r := [])
          (fun u hu => by rw [List.mem_singleton.mp hu]; rfl)
          (fun u hu => (List.mem_append.mp hu).elim isDigit_of_mem_zeros (hdig u))
          (by simp) .none
        rw [List.append_nil] at h
        have hzero : continueValue 10 ([48] ++ (List.replicate (-(e + ds.length)).toNat 48 ++ ds)) 0 =
            s := by
          rw [continueValue_append, continueValue_append, continueValue_zeros]
          simpa [continueValue, digitValue, isDigit] using hval
        rw [show (48 : Nat) :: 46 :: List.replicate (-(e + ds.length)).toNat 48 ++ ds =
          [48] ++ 46 :: (List.replicate (-(e + ds.length)).toNat 48 ++ ds) from rfl, h, hzero]
        congr 4
        simp only [List.length_append, List.length_replicate]
        omega
  · cases ds with
    | nil => exact absurd rfl hne
    | cons d ds =>
      have hd : ∀ u ∈ [d], isDigit u = true := fun u hu => by
        rw [List.mem_singleton.mp hu]
        exact hdig d List.mem_cons_self
      cases ds with
      | nil =>
        have h := decimalLiteral_whole hd (by simp) (.exponent (e + ([d] : Text).length - 1))
        rw [hval] at h
        refine Eq.trans rfl (h.trans ?_)
        congr 4
        simp
      | cons c ds =>
        have h := decimalLiteral_fraction hd
          (fun u hu => hdig u (List.mem_cons_of_mem _ hu)) (by simp)
          (.exponent (e + (d :: c :: ds).length - 1))
        rw [show [d] ++ c :: ds = d :: c :: ds from rfl, hval] at h
        refine Eq.trans rfl (h.trans ?_)
        congr 4
        simp only [List.length_cons]
        omega

theorem decimalLiteral_positiveText {q : ℚ} (hq : 0 ≤ q) (h : IsDouble q) :
    decimalLiteral (positiveText q) = some (.fin q) := by
  have hspec := shortest_spec hq h
  rw [positiveText]
  generalize shortest q = digits at hspec
  obtain ⟨s, e⟩ := digits
  dsimp only at hspec ⊢
  split
  · rename_i hten
    rw [hten] at hspec
    rw [decimalLiteral_layoutDigits, ← hspec, zpow_add₀ (by norm_num)]
    congr 2
    push_cast
    ring
  · rw [decimalLiteral_layoutDigits, hspec]

/-- The units of a number's text. -/
def isNumberUnit (u : Nat) : Bool := isDigit u || u == 46 || u == 101 || u == 43 || u == 45

theorem isNumberUnit_of_isDigit {u : Nat} (h : isDigit u = true) : isNumberUnit u = true := by
  simp [isNumberUnit, h]

theorem isNumberUnit_exponentText {z : Int} {u : Nat} (h : u ∈ exponentText z) :
    isNumberUnit u = true := by
  rcases List.mem_cons.mp h with rfl | h
  · rfl
  rcases List.mem_cons.mp h with h | h
  · rw [h]
    split <;> rfl
  · exact isNumberUnit_of_isDigit (isDigit_decimal _ u h)

theorem isNumberUnit_layoutDigits {s : Nat} {e : Int} {u : Nat} (h : u ∈ layoutDigits s e) :
    isNumberUnit u = true := by
  have hdig := isDigit_decimal s
  rw [layoutDigits] at h
  generalize decimal s = ds at hdig h
  split at h
  · split at h
    · exact isNumberUnit_of_isDigit ((List.mem_append.mp h).elim (hdig u) isDigit_of_mem_zeros)
    · split at h
      · rcases List.mem_append.mp h with h | h
        · exact isNumberUnit_of_isDigit (hdig u (List.mem_of_mem_take h))
        rcases List.mem_cons.mp h with rfl | h
        · rfl
        · exact isNumberUnit_of_isDigit (hdig u (List.mem_of_mem_drop h))
      · rcases List.mem_cons.mp h with rfl | h
        · rfl
        rcases List.mem_cons.mp h with rfl | h
        · rfl
        · exact isNumberUnit_of_isDigit ((List.mem_append.mp h).elim isDigit_of_mem_zeros (hdig u))
  · split at h
    · rcases List.mem_cons.mp h with rfl | h
      · exact isNumberUnit_of_isDigit (hdig _ List.mem_cons_self)
      · exact isNumberUnit_exponentText h
    · rcases List.mem_cons.mp h with rfl | h
      · exact isNumberUnit_of_isDigit (hdig _ List.mem_cons_self)
      rcases List.mem_cons.mp h with rfl | h
      · rfl
      rcases List.mem_append.mp h with h | h
      · exact isNumberUnit_of_isDigit (hdig _ (List.mem_cons_of_mem _ h))
      · exact isNumberUnit_exponentText h
    · cases h

theorem isNumberUnit_positiveText {q : ℚ} {u : Nat} (h : u ∈ positiveText q) :
    isNumberUnit u = true := by
  rw [positiveText] at h
  dsimp only at h
  split at h <;> exact isNumberUnit_layoutDigits h

theorem head_layoutDigits (s : Nat) (e : Int) :
    ∃ d t, layoutDigits s e = d :: t ∧ isDigit d = true := by
  have hdig := isDigit_decimal s
  have hne := decimal_ne_nil s
  rw [layoutDigits]
  generalize decimal s = ds at hdig hne
  cases ds with
  | nil => exact absurd rfl hne
  | cons d ds =>
    have hd := hdig d List.mem_cons_self
    split
    · split
      · exact ⟨d, _, rfl, hd⟩
      · split
        · rename_i hpos
          obtain ⟨m, hm⟩ : ∃ m, (e + (d :: ds).length).toNat = m + 1 :=
            ⟨(e + (d :: ds).length).toNat - 1, by omega⟩
          rw [hm]
          exact ⟨d, _, rfl, hd⟩
        · exact ⟨48, _, rfl, rfl⟩
    · cases ds with
      | nil => exact ⟨d, _, rfl, hd⟩
      | cons c ds => exact ⟨d, _, rfl, hd⟩

theorem head_positiveText (q : ℚ) : ∃ d t, positiveText q = d :: t ∧ isDigit d = true := by
  rw [positiveText]
  dsimp only
  split <;> exact head_layoutDigits _ _

theorem roundEven_neg (x : ℚ) : roundEven (-x) = -roundEven x := by
  have hx : x - ⌊x⌋ = Int.fract x := rfl
  have hfract := Int.fract_nonneg x
  have hlt := Int.fract_lt_one x
  rcases eq_or_ne (Int.fract x) 0 with h0 | h0
  · have hneg : -x - ⌊-x⌋ = 0 := by
      rw [show -x - ⌊-x⌋ = Int.fract (-x) from rfl, Int.fract_neg_eq_zero.mpr h0]
    have hfloor : ⌊-x⌋ = -⌊x⌋ := by
      have : (⌊-x⌋ : ℚ) = -⌊x⌋ := by linarith
      exact_mod_cast this
    simp only [roundEven]
    rw [hneg, hx, h0, hfloor]
    norm_num
  · have hneg : -x - ⌊-x⌋ = 1 - Int.fract x := Int.fract_neg h0
    have hfloor : ⌊-x⌋ = -⌊x⌋ - 1 := by
      have : (⌊-x⌋ : ℚ) = -⌊x⌋ - 1 := by linarith
      exact_mod_cast this
    simp only [roundEven]
    rw [hneg, hx, hfloor]
    rcases lt_trichotomy (Int.fract x) (1/2) with hlo | hmid | hhi
    · rw [if_neg (by linarith), if_pos (by linarith), if_pos hlo]
      ring
    · have hless : ¬(1 : ℚ) - 1/2 < 1/2 := by norm_num
      have hmore : ¬(1/2 : ℚ) < 1 - 1/2 := by norm_num
      simp only [hmid, hless, hmore, lt_irrefl, if_false]
      split <;> split <;> omega
    · rw [if_pos (by linarith), if_neg (by linarith), if_pos hhi]
      ring

theorem IsDouble.neg {q : ℚ} (h : IsDouble q) : IsDouble (-q) := by
  unfold IsDouble ofRat at h ⊢
  split at h
  · rename_i hq
    rw [if_pos (by rw [hq, neg_zero]), hq, neg_zero]
  · rename_i hq
    rw [if_neg (by simpa using hq), Rat.num_neg_eq_neg_num, Rat.den_neg_eq_den, Int.natAbs_neg]
    dsimp only at h ⊢
    rw [neg_div, roundEven_neg]
    split at h
    · cases h
    · rename_i hbig
      injection h with h
      rw [Int.cast_neg, neg_mul, abs_neg, if_neg hbig, h]

end Number

open Number

theorem isNumberUnit_numberText {q : ℚ} {u : Nat} (h : u ∈ numberText q) :
    isNumberUnit u = true := by
  rw [numberText] at h
  split at h
  · rw [List.mem_singleton.mp h]
    rfl
  · split at h
    · rcases List.mem_cons.mp h with rfl | h
      · rfl
      · exact isNumberUnit_positiveText h
    · exact isNumberUnit_positiveText h

theorem trim_numberUnits {s : Text} (h : ∀ u ∈ s, isNumberUnit u = true) : trim s = s := by
  refine trim_eq_self fun u hu => ?_
  have hu := h u hu
  simp only [isNumberUnit, isDigit, Bool.or_eq_true, Bool.and_eq_true, decide_eq_true_eq,
    beq_iff_eq] at hu
  simp only [isSpace, Bool.or_eq_false_iff, Bool.and_eq_false_iff, decide_eq_false_iff_not,
    beq_eq_false_iff_ne]
  omega

theorem ofText_positiveText {q : ℚ} (hq : 0 ≤ q) (h : IsDouble q) :
    ofText (positiveText q) = .fin q := by
  have hlit := decimalLiteral_positiveText hq h
  have hunit : ∀ u ∈ positiveText q, isNumberUnit u = true := fun u hu =>
    isNumberUnit_positiveText hu
  obtain ⟨d, t, htext, hd⟩ := head_positiveText q
  rw [ofText, trim_numberUnits hunit]
  rw [htext] at hlit hunit ⊢
  have hsign : splitSign (d :: t) = (false, d :: t) := by
    have h45 : d ≠ 45 := fun h => by rw [h] at hd; cases hd
    have h43 : d ≠ 43 := fun h => by rw [h] at hd; cases hd
    rw [splitSign]
    · intro s h
      injection h with h
      exact h45 h
    · intro s h
      injection h with h
      exact h43 h
  split
  · rename_i hnil
    cases hnil
  · rename_i x ds hcons
    injection hcons with hd0 ht
    subst hd0 ht
    have hx := hunit x (by simp)
    have hradix : (if x = 120 ∨ x = 88 then 16 else if x = 111 ∨ x = 79 then 8
        else if x = 98 ∨ x = 66 then 2 else 0) = 0 := by
      simp only [isNumberUnit, isDigit, Bool.or_eq_true, Bool.and_eq_true, decide_eq_true_eq,
        beq_iff_eq] at hx
      rw [if_neg (by omega), if_neg (by omega), if_neg (by omega)]
    rw [hradix, if_pos rfl, hlit]
    rfl
  · rw [hsign]
    dsimp only
    rw [hlit]
    rfl

/-- The text of a double reads back as the double. -/
theorem ofText_numberText {q : ℚ} (h : IsDouble q) : ofText (numberText q) = .fin q := by
  have hunit : ∀ u ∈ numberText q, isNumberUnit u = true := fun u hu => isNumberUnit_numberText hu
  rw [numberText] at hunit ⊢
  split
  · rename_i hq
    rw [hq]
    decide +kernel
  · split
    · rename_i hneg
      have hlit := decimalLiteral_positiveText (neg_nonneg.mpr hneg.le) h.neg
      rw [if_neg hneg.ne, if_pos hneg] at hunit
      rw [ofText, trim_numberUnits hunit]
      simp [splitSign, hlit, Number.neg]
    · rename_i hpos
      exact ofText_positiveText (not_lt.mp hpos) h

theorem numberText_injective {p q : ℚ} (hp : IsDouble p) (hq : IsDouble q)
    (h : numberText p = numberText q) : p = q := by
  have hread := ofText_numberText hp
  rw [h, ofText_numberText hq] at hread
  exact (Number.fin.inj hread).symm

example : numberText (double (10 ^ 23)) = js "1e+23" := by decide +kernel


end BoredManager.Js
