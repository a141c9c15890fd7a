import BoredManager.Network.Plan
import BoredManager.Network.ProbeTruth

/-! A plan of the kernel limits: what it proposes, and when it really only raises. -/
namespace BoredManager.Network
open BoredManager.Js BoredManager.Js.Number

variable {a b v : Number} {x y q : ℚ} {t : TargetCount} {current : OrderedMap Text Nat}

/-! ### Counts -/

/-- A nonnegative double, or infinity. -/
def IsCount : Number → Prop
  | .fin q => 0 ≤ q ∧ IsDouble q
  | .inf negative => negative = false
  | .nan => False

theorem isCount_ofRat (h : 0 ≤ q) : IsCount (ofRat q) := by
  obtain rfl | hpos := h.eq_or_lt
  · exact ⟨le_rfl, rfl⟩
  cases hround : ofRat q with
  | fin r =>
    refine ⟨?_, isDouble_ofRat h hround⟩
    have hdef := ofRat_eq hpos
    rw [hround] at hdef
    split_ifs at hdef
    injection hdef with hdef
    rw [hdef]
    exact rounded_nonneg hpos
  | inf negative =>
    have hdef := ofRat_eq hpos
    rw [hround] at hdef
    split_ifs at hdef
    injection hdef
  | nan =>
    have hdef := ofRat_eq hpos
    rw [hround] at hdef
    split_ifs at hdef

theorem IsCount.times (h : IsCount v) (hx : 0 < x) : IsCount (times x v) := by
  cases v with
  | fin q => exact isCount_ofRat (mul_nonneg hx.le h.1)
  | inf negative => exact h
  | nan => exact h

theorem IsCount.add (ha : IsCount a) (hb : IsCount b) : IsCount (a.add b) := by
  cases a with
  | fin p =>
    cases b with
    | fin q => exact isCount_ofRat (add_nonneg ha.1 hb.1)
    | inf negative => exact hb
    | nan => exact hb
  | inf negative =>
    cases b with
    | fin q => exact ha
    | inf other =>
      cases ha
      cases hb
      rfl
    | nan => exact hb
  | nan => exact ha

theorem IsCount.maximum (ha : IsCount a) (hb : IsCount b) : IsCount (maximum a b) := by
  rw [Number.maximum]
  split
  · exact hb
  · exact ha

/-- The greater of two is at least what one of them is. -/
theorem atLeast_maximum (ha : IsCount a) (hb : IsCount b) :
    AtLeast x (maximum a b) ↔ AtLeast x a ∨ AtLeast x b := by
  cases a with
  | fin p =>
    cases b with
    | fin q =>
      by_cases h : p < q
      · rw [maximum, if_pos (by simpa [lt] using h)]
        exact ⟨.inr, fun hx => hx.elim (fun hx => le_trans hx h.le) id⟩
      · rw [maximum, if_neg (by simpa [lt] using h)]
        exact ⟨.inl, fun hx => hx.elim id fun hx => le_trans hx (not_lt.mp h)⟩
    | inf negative =>
      cases hb
      exact ⟨.inr, fun _ => rfl⟩
    | nan => exact hb.elim
  | inf negative =>
    cases ha
    have hmax : maximum (.inf false) b = .inf false := by
      rw [maximum]
      cases b with
      | fin q => rfl
      | inf other => cases hb; rfl
      | nan => exact hb.elim
    rw [hmax]
    exact ⟨.inl, fun _ => rfl⟩
  | nan => exact ha.elim

/-- Numbers are compared by what they are at least. -/
theorem lt_eq_false_of_atLeast (ha : IsCount a) (hb : IsCount b) (h : ∀ x, AtLeast x a → AtLeast x b) :
    b.lt a = false := by
  cases a with
  | fin p =>
    have hp := h p le_rfl
    cases b with
    | fin q => exact decide_eq_false (not_lt.mpr hp)
    | inf negative => exact hb
    | nan => exact hb.elim
  | inf negative =>
    cases ha
    cases b with
    | fin q =>
      have hq : q + 1 ≤ q := h (q + 1) rfl
      linarith
    | inf other => cases hb; rfl
    | nan => exact hb.elim
  | nan => exact ha.elim

theorem atLeast_ofRat_mono (hx : 0 < q) (hle : q ≤ y) (h : AtLeast x (ofRat q)) : AtLeast x (ofRat y) := by
  have hmono := rounded_mono hx hle
  rw [ofRat_eq hx] at h
  rw [ofRat_eq (hx.trans_le hle)]
  split_ifs with hbig
  · rfl
  · rw [if_neg fun hq => hbig (hq.trans hmono)] at h
    exact le_trans h hmono

theorem ofText_valueText (h : IsCount v) : ofText (valueText v) = v := by
  cases v with
  | fin q => exact ofText_numberText h.2
  | inf negative =>
    cases h
    rfl
  | nan => exact h.elim

/-- What the page makes of a value that a plan wrote: nothing of an infinite one. -/
theorem toNumber_valueText (h : IsCount v) : toNumber (some (valueText v)) = (v.finite?).getD 0 := by
  rw [toNumber_some, numeral, ofText_valueText h]

/-! ### The next power of two -/

theorem times_two_pow {i : Nat} (hi : i ≤ 1023) :
    times 2 (.fin ((2 : ℚ) ^ i)) = if i = 1023 then .inf false else .fin (2 ^ (i + 1)) := by
  have hnext : (2 : ℚ) * 2 ^ i = 2 ^ (i + 1) := by rw [pow_succ, mul_comm]
  rw [times, hnext]
  split_ifs with htop
  · subst htop
    decide +kernel
  · exact isDouble_two_pow (by omega)

/-- The loop, from a power that every smaller one was too small before. -/
theorem nextPow2From_spec (q : ℚ) (fuel i : Nat) (hfuel : fuel + i = 1024) (hi : i ≤ 1023)
    (hsmall : ∀ j < i, (2 : ℚ) ^ j < q) :
    IsCount (nextPow2From (.fin q) fuel (.fin (2 ^ i))) ∧
      ∀ x, AtLeast x (nextPow2From (.fin q) fuel (.fin (2 ^ i))) ↔
        ∀ j : Nat, j ≤ 1023 → q ≤ 2 ^ j → x ≤ 2 ^ j := by
  induction fuel generalizing i with
  | zero => omega
  | succ fuel ih =>
    rw [nextPow2From]
    by_cases hlt : (2 : ℚ) ^ i < q
    · rw [if_pos (by simpa [lt] using hlt), times_two_pow hi]
      have hsmaller : ∀ j < i + 1, (2 : ℚ) ^ j < q := by
        intro j hj
        obtain hj | rfl := Nat.lt_succ_iff_lt_or_eq.mp hj
        · exact hsmall j hj
        · exact hlt
      split_ifs with htop
      · have hfuel0 : fuel = 0 := by omega
        subst hfuel0
        refine ⟨rfl, fun x => ⟨fun _ j hj hq => ?_, fun _ => rfl⟩⟩
        exact absurd (hsmaller j (by omega)) (not_lt.mpr hq)
      · exact ih (i + 1) (by omega) (by omega) hsmaller
    · rw [if_neg (by simpa [lt] using hlt)]
      refine ⟨⟨(pow_pos (by norm_num) i).le, isDouble_two_pow (by omega)⟩, fun x => ?_⟩
      refine ⟨fun hx j _ hj => le_trans hx ?_, fun hx => hx i hi (not_lt.mp hlt)⟩
      refine pow_le_pow_right₀ (by norm_num) ?_
      by_contra hji
      exact absurd (hsmall j (by omega)) (not_lt.mpr hj)

theorem nextPow2_spec (q : ℚ) : IsCount (nextPow2 (.fin q)) ∧
    ∀ x, AtLeast x (nextPow2 (.fin q)) ↔ ∀ j : Nat, j ≤ 1023 → q ≤ 2 ^ j → x ≤ 2 ^ j := by
  have hspec := nextPow2From_spec q 1024 0 rfl (by omega) (by omega)
  rw [pow_zero] at hspec
  exact hspec

theorem nextPow2From_inf (fuel i : Nat) (hfuel : fuel + i = 1024) (hi : i ≤ 1023) :
    nextPow2From (.inf false) fuel (.fin (2 ^ i)) = .inf false := by
  induction fuel generalizing i with
  | zero => omega
  | succ fuel ih =>
    have hless : (Number.fin (2 ^ i)).lt (.inf false) = true := rfl
    rw [nextPow2From, if_pos hless, times_two_pow hi]
    split_ifs with htop
    · cases fuel <;> rfl
    · exact ih (i + 1) (by omega) (by omega)

theorem nextPow2_twice (t : TargetCount) : IsCount (nextPow2 (times 2 (.fin t.count))) ∧
    ∀ x, AtLeast x (nextPow2 (times 2 (.fin t.count))) ↔
      ∀ j : Nat, j ≤ 1023 → ((2 * t.count : Nat) : ℚ) ≤ 2 ^ j → x ≤ 2 ^ j := by
  have hpos : (0 : ℚ) < t.count := by exact_mod_cast t.pos
  rw [times, t.isDouble.ofRat_twice hpos]
  split_ifs with hbig
  · have hinf : nextPow2 (.inf false) = .inf false := by
      have hloop := nextPow2From_inf 1024 0 rfl (by omega)
      rwa [pow_zero] at hloop
    rw [hinf]
    refine ⟨rfl, fun x => ⟨fun _ j hj hq => ?_, fun _ => rfl⟩⟩
    have hpow : (2 : ℚ) ^ j < 2 ^ (1024 : Int) := by
      rw [← zpow_natCast]
      exact zpow_lt_zpow_right₀ (by norm_num) (by omega)
    push_cast at hq
    linarith
  · push_cast
    exact nextPow2_spec _

/-! ### The threshold -/

theorem isCount_room : IsCount (.fin 16384) := ⟨by norm_num, by decide +kernel⟩

theorem isCount_neighbourRoom (t : TargetCount) : IsCount (neighbourRoom t.count) := by
  refine (nextPow2_twice t).1.maximum ?_
  split_ifs
  · exact isCount_room
  · exact ⟨le_rfl, rfl⟩

theorem atLeast_neighbourRoom (t : TargetCount) (x : ℚ) : AtLeast x (neighbourRoom t.count) ↔
    (∀ j : Nat, j ≤ 1023 → ((2 * t.count : Nat) : ℚ) ≤ 2 ^ j → x ≤ 2 ^ j) ∨
      (1000 ≤ t.count ∧ x ≤ 16384) := by
  have hfloor : IsCount (.fin (if 1000 ≤ (t.count : ℚ) then 16384 else 0)) := by
    split_ifs
    · exact isCount_room
    · exact ⟨le_rfl, rfl⟩
  rw [neighbourRoom, atLeast_maximum (nextPow2_twice t).1 hfloor, (nextPow2_twice t).2 x]
  by_cases hlarge : 1000 ≤ t.count
  · have hcast : (1000 : ℚ) ≤ t.count := by exact_mod_cast hlarge
    rw [if_pos hcast]
    simp only [AtLeast, hlarge, true_and]
  · have hcast : ¬(1000 : ℚ) ≤ t.count := by exact_mod_cast hlarge
    rw [if_neg hcast]
    simp only [AtLeast, hlarge, false_and, or_false]
    exact ⟨fun h => h.elim id fun h j _ _ => le_trans h (pow_pos (by norm_num) j).le, .inl⟩

theorem isCount_double (n : Nat) : IsCount (.fin (double n)) := by
  have hcount := isCount_ofRat (Nat.cast_nonneg (α := ℚ) n)
  rw [double]
  cases hround : ofRat (n : ℚ) with
  | fin q => rw [hround] at hcount; exact hcount
  | inf negative => exact ⟨le_rfl, rfl⟩
  | nan => exact ⟨le_rfl, rfl⟩

theorem get?_texts (current : OrderedMap Text Nat) (key : Text) :
    (texts current).get? key = (current.get? key).map decimal := by
  simp only [texts, OrderedMap.get?, List.find?_map, Option.map_map]
  rfl

theorem now_texts (current : OrderedMap Text Nat) (key : Text) :
    now (texts current) key = .fin (double ((current.get? key).getD 0 : Nat)) := by
  rw [now, get?_texts]
  cases current.get? key with
  | none => rfl
  | some n => rw [Option.map_some, toNumber_some, numeral_decimal, Option.getD_some]

theorem isCount_thresh3 (t : TargetCount) (current : OrderedMap Text Nat) :
    IsCount (thresh3 t.count (texts current)) := by
  rw [thresh3, now_texts]
  exact (isCount_double _).maximum (isCount_neighbourRoom t)

/-- What a multiple of a value fits under. -/
theorem atLeast_thresh3 (t : TargetCount) (current : OrderedMap Text Nat) (share n : Nat) :
    AtLeast (share * n : Nat) (thresh3 t.count (texts current)) ↔ FitsUnder t current share n := by
  rw [thresh3, now_texts, atLeast_maximum (isCount_double _) (isCount_neighbourRoom t),
    atLeast_neighbourRoom, FitsUnder]
  simp only [AtLeast]
  norm_cast

theorem two_le_thresh3 (t : TargetCount) (current : OrderedMap Text Nat) :
    AtLeast 2 (thresh3 t.count (texts current)) := by
  rw [thresh3, now_texts, atLeast_maximum (isCount_double _) (isCount_neighbourRoom t),
    atLeast_neighbourRoom]
  refine .inr (.inl fun j _ hj => le_trans ?_ hj)
  have hpos := t.pos
  exact_mod_cast (by omega : 2 ≤ 2 * t.count)

theorem two_mul_le_two_pow_succ {n k : Nat} : 2 * n ≤ 2 ^ (k + 1) ↔ n ≤ 2 ^ k := by
  rw [pow_succ]
  omega

theorem twice_le_two_pow_succ {n k : Nat} (h : n ≤ 2 ^ k) : ((2 * n : Nat) : ℚ) ≤ 2 ^ (k + 1) := by
  exact_mod_cast two_mul_le_two_pow_succ.mpr h

/-- The threshold is finite as long as a power of two covers twice the target. -/
theorem thresh3_eq_fin (t : TargetCount) (current : OrderedMap Text Nat) :
    (∃ q, thresh3 t.count (texts current) = .fin q) ↔ t.count ≤ 2 ^ 1022 := by
  obtain ⟨k, hk⟩ : ∃ k, k = 1022 := ⟨_, rfl⟩
  rw [← hk]
  constructor
  · rintro ⟨q, hq⟩
    by_contra hlarge
    have hnone : AtLeast (q + 1) (thresh3 t.count (texts current)) := by
      rw [thresh3, now_texts, atLeast_maximum (isCount_double _) (isCount_neighbourRoom t),
        atLeast_neighbourRoom]
      refine .inr (.inl fun j hj hcover => ?_)
      have hcover : 2 * t.count ≤ 2 ^ j := by exact_mod_cast hcover
      have hpow : 2 ^ j ≤ 2 ^ (k + 1) := Nat.pow_le_pow_right (by omega) (by omega)
      exact absurd (two_mul_le_two_pow_succ.mp (hcover.trans hpow)) hlarge
    rw [hq] at hnone
    have hle : q + 1 ≤ q := hnone
    linarith
  · intro hsmall
    cases hthresh : thresh3 t.count (texts current) with
    | fin q => exact ⟨q, rfl⟩
    | inf negative =>
      exfalso
      have hall : ∀ x, AtLeast x (thresh3 t.count (texts current)) := by
        have hcount := isCount_thresh3 t current
        rw [hthresh] at hcount ⊢
        exact fun _ => hcount
      have hcover := twice_le_two_pow_succ hsmall
      have hpow : (0 : ℚ) < 2 ^ (k + 1) := pow_pos (by norm_num) _
      have hdouble := (isCount_double ((current.get? GC_THRESH3).getD 0)).1
      generalize hnow : double ((current.get? GC_THRESH3).getD 0 : Nat) = d at hdouble
      have hbig := hall (d + 2 ^ (k + 1) + 16385)
      rw [thresh3, now_texts, atLeast_maximum (isCount_double _) (isCount_neighbourRoom t),
        atLeast_neighbourRoom, hnow] at hbig
      have hfalse : d + (2 : ℚ) ^ (k + 1) + 16385 ≤ d ∨ d + (2 : ℚ) ^ (k + 1) + 16385 ≤ 2 ^ (k + 1) ∨
          d + (2 : ℚ) ^ (k + 1) + 16385 ≤ 16384 :=
        hbig.imp id fun h => h.imp (fun h => h (k + 1) (by omega) hcover) And.right
      generalize (2 : ℚ) ^ (k + 1) = top at hfalse hpow
      obtain h | h | h := hfalse <;> linarith
    | nan =>
      have hcount := isCount_thresh3 t current
      rw [hthresh] at hcount
      exact hcount.elim

/-! ### The quotients -/

/-- The whole part of a threshold's half or quarter. -/
theorem floorQuotient_spec {i : Nat} (hi : i ≤ 1021) (h : IsCount v) (hone : AtLeast 1 v) :
    IsCount (floorQuotient v (2 ^ i)) ∧
      ∀ x, AtLeast x (floorQuotient v (2 ^ i)) ↔ AtLeast (2 ^ i * ⌈x⌉) v := by
  cases v with
  | fin q =>
    have hone : 1 ≤ q := hone
    have hhalf : IsDouble (q / 2 ^ i) := h.2.div_two_pow hone hi
    have hpow : (0 : ℚ) < 2 ^ i := pow_pos (by norm_num) i
    have hvalue : floorQuotient (.fin q) (2 ^ i) = .fin (⌊q / 2 ^ i⌋ : ℚ) := by
      rw [floorQuotient, times, inv_mul_eq_div, hhalf]
    have hnonneg : 0 ≤ q / 2 ^ i := div_nonneg h.1 hpow.le
    rw [hvalue]
    refine ⟨⟨by exact_mod_cast Int.floor_nonneg.mpr hnonneg, hhalf.floor hnonneg⟩, fun x => ?_⟩
    calc x ≤ ⌊q / 2 ^ i⌋ ↔ ⌈x⌉ ≤ ⌊q / 2 ^ i⌋ := Int.ceil_le.symm
      _ ↔ (⌈x⌉ : ℚ) ≤ q / 2 ^ i := Int.le_floor
      _ ↔ 2 ^ i * (⌈x⌉ : ℚ) ≤ q := by rw [le_div_iff₀ hpow, mul_comm]
  | inf negative => exact ⟨h, fun x => Iff.rfl⟩
  | nan => exact h.elim

theorem atLeast_floorQuotient {i : Nat} (hi : i ≤ 1021) (h : IsCount v) (hone : AtLeast 1 v) (n : Nat) :
    AtLeast n (floorQuotient v (2 ^ i)) ↔ AtLeast (2 ^ i * n : Nat) v := by
  rw [(floorQuotient_spec hi h hone).2, Int.ceil_natCast]
  push_cast
  exact Iff.rfl

theorem AtLeast.mono (h : AtLeast x v) (hyx : y ≤ x) : AtLeast y v := by
  cases v with
  | fin q => exact hyx.trans h
  | inf negative => exact h
  | nan => exact h

/-- A quarter is below a half, and a half below the whole, of a finite threshold. -/
theorem floorQuotient_lt (hq : 2 ≤ q) (hdouble : IsDouble q) :
    (floorQuotient (.fin q) 4).lt (floorQuotient (.fin q) 2) = true ∧
      (floorQuotient (.fin q) 2).lt (.fin q) = true := by
  have hone : 1 ≤ q := by linarith
  have hvalue : ∀ i : Nat, i ≤ 1021 → floorQuotient (.fin q) (2 ^ i) = .fin (⌊q / 2 ^ i⌋ : ℚ) := by
    intro i hi
    rw [floorQuotient, times, inv_mul_eq_div, hdouble.div_two_pow hone hi]
  have h2 := hvalue 1 (by omega)
  have h4 := hvalue 2 (by omega)
  norm_num at h2 h4
  rw [h2, h4]
  constructor
  · refine decide_eq_true ?_
    have hstep : ⌊q / 4⌋ + 1 ≤ ⌊q / 2⌋ := by
      by_cases hsmall : q < 4
      · have hzero : ⌊q / 4⌋ = 0 := Int.floor_eq_zero_iff.mpr ⟨by linarith, by linarith⟩
        rw [hzero, Int.le_floor]
        push_cast
        linarith
      · rw [Int.le_floor]
        have hfloor := Int.floor_le (q / 4)
        push_cast
        linarith
    exact_mod_cast hstep
  · refine decide_eq_true ?_
    have hfloor := Int.floor_le (q / 2)
    linarith

/-! ### The proposals -/

/-- The thresholds that are proposed. -/
def thresholds (t : TargetCount) (current : OrderedMap Text Nat) : List (Text × Number) :=
  [(GC_THRESH3, thresh3 t.count (texts current)),
    (GC_THRESH2, floorQuotient (thresh3 t.count (texts current)) 2),
    (GC_THRESH1, floorQuotient (thresh3 t.count (texts current)) 4)]

/-- A proposal: one of the thresholds, or the greater of what is and what is needed. -/
def Proposed (t : TargetCount) (current : OrderedMap Text Nat) (key : Text) (v : Number) : Prop :=
  (key, v) ∈ thresholds t current ∨
    ∃ need ∈ allNeeds t.count, need.1 = key ∧ v = maximum (now (texts current) key) need.2

theorem mem_keys_texts {current : OrderedMap Text Nat} {key : Text} :
    key ∈ (texts current).keys ↔ key ∈ current.keys := by
  rw [OrderedMap.keys, texts, List.map_map]
  exact Iff.rfl

theorem conntrack_present (current : OrderedMap Text Nat) :
    ((texts current).get? CONNTRACK_MAX).getD [] ≠ [] ↔ CONNTRACK_MAX ∈ current.keys := by
  rw [get?_texts, ← OrderedMap.has_iff, OrderedMap.has]
  cases current.get? CONNTRACK_MAX with
  | none => simp
  | some n => simp [Number.decimal_ne_nil n]

theorem mem_proposals {key : Text} (hkey : key ∈ current.keys) :
    (key, v) ∈ proposals t.count (texts current) ↔ Proposed t current key v := by
  simp only [proposals, Proposed, thresholds, allNeeds, List.mem_append, List.mem_map, or_assoc, or_and_right,
    exists_or]
  refine or_congr Iff.rfl (or_congr ⟨?_, ?_⟩ ⟨?_, ?_⟩)
  · rintro ⟨need, hneed, heq⟩
    cases heq
    exact ⟨need, hneed, rfl, rfl⟩
  · rintro ⟨need, hneed, rfl, rfl⟩
    exact ⟨need, hneed, rfl⟩
  · intro h
    split_ifs at h with hwanted
    · cases List.mem_singleton.mp h
      exact ⟨_, by rw [if_pos hwanted.1]; exact List.mem_cons_self, rfl, rfl⟩
    · cases h
  · rintro ⟨need, hneed, rfl, rfl⟩
    split_ifs at hneed with hlarge
    · cases List.mem_singleton.mp hneed
      rw [if_pos ⟨hlarge, (conntrack_present current).mpr hkey⟩]
      exact List.mem_cons_self
    · cases hneed

theorem nodup_proposals (targetIps : ℚ) (record : OrderedMap Text Text) :
    ((proposals targetIps record).map Prod.fst).Nodup := by
  have hall : ([GC_THRESH3, GC_THRESH2, GC_THRESH1, js "fs.file-max", js "fs.nr_open",
      js "fs.inotify.max_user_watches", js "fs.inotify.max_user_instances", js "net.core.somaxconn",
      CONNTRACK_MAX] : List Text).Nodup := by decide +kernel
  refine hall.sublist ?_
  rw [proposals]
  split_ifs
  · exact List.Sublist.refl _
  · exact List.sublist_append_left [GC_THRESH3, GC_THRESH2, GC_THRESH1, js "fs.file-max", js "fs.nr_open",
      js "fs.inotify.max_user_watches", js "fs.inotify.max_user_instances", js "net.core.somaxconn"]
      [CONNTRACK_MAX]

theorem get?_planFor {targetIps : ℚ} {record : OrderedMap Text Text} {key value : Text} :
    (planFor targetIps record).get? key = some value ↔
      ∃ v, (key, v) ∈ proposals targetIps record ∧ key ∈ record.keys ∧ valueText v = value := by
  have hkeys : ((((proposals targetIps record).filter fun p => record.has p.1).map fun p =>
      (p.1, valueText p.2)).map Prod.fst).Nodup := by
    rw [List.map_map]
    exact (nodup_proposals targetIps record).sublist (List.filter_sublist.map Prod.fst)
  rw [planFor, OrderedMap.get?_ofList_of_nodup hkeys, List.mem_map]
  constructor
  · rintro ⟨p, hp, heq⟩
    cases heq
    obtain ⟨hmem, hhas⟩ := List.mem_filter.mp hp
    exact ⟨p.2, hmem, OrderedMap.has_iff.mp hhas, rfl⟩
  · rintro ⟨v, hmem, hhas, rfl⟩
    exact ⟨(key, v), List.mem_filter.mpr ⟨hmem, OrderedMap.has_iff.mpr hhas⟩, rfl⟩

theorem get?_planOf {key value : Text} : (planOf t current).get? key = some value ↔
    key ∈ current.keys ∧ ∃ v, Proposed t current key v ∧ valueText v = value := by
  rw [planOf, get?_planFor]
  constructor
  · rintro ⟨v, hmem, hkey, rfl⟩
    rw [mem_keys_texts] at hkey
    exact ⟨hkey, v, (mem_proposals hkey).mp hmem, rfl⟩
  · rintro ⟨hkey, v, hproposed, rfl⟩
    exact ⟨v, (mem_proposals hkey).mpr hproposed, mem_keys_texts.mpr hkey, rfl⟩

theorem isCount_fin_nat {n : Nat} (hn : n < 2 ^ 53) : IsCount (.fin n) :=
  ⟨Nat.cast_nonneg n, ofRat_nat hn⟩

theorem isCount_needs (t : TargetCount) : ∀ need ∈ allNeeds t.count, IsCount need.2 := by
  have htarget : IsCount (.fin t.count) := ⟨Nat.cast_nonneg _, t.isDouble⟩
  have h65536 : IsCount (.fin 65536) := isCount_fin_nat (n := 65536) (by norm_num)
  simp only [allNeeds, needs, List.forall_mem_append, List.forall_mem_cons, List.not_mem_nil,
    false_implies, implies_true, and_true]
  refine ⟨⟨(htarget.times (by norm_num)).add h65536, isCount_fin_nat (n := 1048576) (by norm_num),
    h65536.add (htarget.times (by norm_num)), isCount_fin_nat (n := 1024) (by norm_num),
    isCount_fin_nat (n := 4096) (by norm_num)⟩, fun need hneed => ?_⟩
  split_ifs at hneed
  · cases List.mem_singleton.mp hneed
    exact isCount_fin_nat (n := 262144) (by norm_num)
  · cases hneed

theorem isCount_now (current : OrderedMap Text Nat) (key : Text) : IsCount (now (texts current) key) := by
  rw [now_texts]
  exact isCount_double _

/-- The thresholds as shares of the third. -/
theorem atLeast_thresholds (t : TargetCount) (current : OrderedMap Text Nat) (n : Nat) :
    (AtLeast n (thresh3 t.count (texts current)) ↔ FitsUnder t current 1 n) ∧
    (AtLeast n (floorQuotient (thresh3 t.count (texts current)) 2) ↔ FitsUnder t current 2 n) ∧
    (AtLeast n (floorQuotient (thresh3 t.count (texts current)) 4) ↔ FitsUnder t current 4 n) := by
  have hcount := isCount_thresh3 t current
  have hone := (two_le_thresh3 t current).mono (by norm_num : (1 : ℚ) ≤ 2)
  have h2 := atLeast_floorQuotient (i := 1) (by omega) hcount hone n
  have h4 := atLeast_floorQuotient (i := 2) (by omega) hcount hone n
  rw [atLeast_thresh3] at h2 h4
  norm_num at h2 h4
  refine ⟨?_, h2, h4⟩
  rw [← atLeast_thresh3, one_mul]

theorem isCount_thresholds (t : TargetCount) (current : OrderedMap Text Nat) :
    ∀ p ∈ thresholds t current, IsCount p.2 := by
  have hcount := isCount_thresh3 t current
  have hone := (two_le_thresh3 t current).mono (by norm_num : (1 : ℚ) ≤ 2)
  have h2 := (floorQuotient_spec (i := 1) (by omega) hcount hone).1
  have h4 := (floorQuotient_spec (i := 2) (by omega) hcount hone).1
  norm_num at h2 h4
  simp only [thresholds, List.forall_mem_cons, List.not_mem_nil, false_implies, implies_true, and_true]
  exact ⟨hcount, h2, h4⟩

theorem Proposed.isCount {key : Text} (h : Proposed t current key v) : IsCount v := by
  obtain hmem | ⟨need, hneed, rfl, rfl⟩ := h
  · exact isCount_thresholds t current _ hmem
  · exact (isCount_now current _).maximum (isCount_needs t need hneed)

/-! ### The parts of the promise -/

/-- Nothing is lowered exactly when nothing stands above its bound. -/
theorem raises_iff (t : TargetCount) (current : OrderedMap Text Nat) :
    (∀ key value n, (planOf t current).get? key = some value → current.get? key = some n →
      AtLeast n (ofText value)) ↔
    (∀ p ∈ [(GC_THRESH3, 1), (GC_THRESH2, 2), (GC_THRESH1, 4)], ∀ n, current.get? p.1 = some n →
      FitsUnder t current p.2 n) ∧
    ∀ need ∈ allNeeds t.count, ∀ n, current.get? need.1 = some n →
      (n : ℚ) ≤ double n ∨ AtLeast n need.2 := by
  have hneed : ∀ need ∈ allNeeds t.count, ∀ n, current.get? need.1 = some n →
      (AtLeast n (maximum (now (texts current) need.1) need.2) ↔
        (n : ℚ) ≤ double n ∨ AtLeast n need.2) := by
    intro need hneed n hn
    rw [atLeast_maximum (isCount_now current _) (isCount_needs t need hneed), now_texts, hn]
    exact Iff.rfl
  have hplanned : (∀ key value n, (planOf t current).get? key = some value → current.get? key = some n →
      AtLeast n (ofText value)) ↔
      ∀ key v n, Proposed t current key v → current.get? key = some n → AtLeast n v := by
    constructor
    · intro h key v n hv hn
      have hkey : key ∈ current.keys := OrderedMap.has_iff.mp (OrderedMap.has_iff_get.mpr ⟨n, hn⟩)
      have hraised := h key (valueText v) n (get?_planOf.mpr ⟨hkey, v, hv, rfl⟩) hn
      rwa [ofText_valueText hv.isCount] at hraised
    · intro h key value n hvalue hn
      obtain ⟨-, v, hv, rfl⟩ := get?_planOf.mp hvalue
      rw [ofText_valueText hv.isCount]
      exact h key v n hv hn
  rw [hplanned]
  have hthresholds := atLeast_thresholds t current
  simp only [List.forall_mem_cons, List.not_mem_nil, false_implies, implies_true, and_true]
  constructor
  · intro h
    refine ⟨⟨fun n hn => (hthresholds n).1.mp (h _ _ n (.inl ?_) hn),
      fun n hn => (hthresholds n).2.1.mp (h _ _ n (.inl ?_) hn),
      fun n hn => (hthresholds n).2.2.mp (h _ _ n (.inl ?_) hn)⟩,
      fun need hmem n hn => (hneed need hmem n hn).mp (h _ _ n (.inr ⟨need, hmem, rfl, rfl⟩) hn)⟩
    all_goals simp [thresholds]
  · rintro ⟨⟨h3, h2, h1⟩, hothers⟩ key v n hv hn
    obtain hmem | ⟨need, hmem, rfl, rfl⟩ := hv
    · simp only [thresholds, List.mem_cons, Prod.mk.injEq, List.not_mem_nil, or_false] at hmem
      obtain ⟨rfl, rfl⟩ | ⟨rfl, rfl⟩ | ⟨rfl, rfl⟩ := hmem
      · exact (hthresholds n).1.mpr (h3 n hn)
      · exact (hthresholds n).2.1.mpr (h2 n hn)
      · exact (hthresholds n).2.2.mpr (h1 n hn)
    · exact (hneed need hmem n hn).mpr (hothers need hmem n hn)

theorem neighbourRoom_mono {t' : TargetCount} (h : t.count ≤ t'.count)
    (hx : AtLeast x (neighbourRoom t.count)) : AtLeast x (neighbourRoom t'.count) := by
  rw [atLeast_neighbourRoom] at hx ⊢
  refine hx.imp (fun hx j hj hcover => hx j hj (le_trans ?_ hcover)) fun hx => ⟨hx.1.trans h, hx.2⟩
  exact_mod_cast (by omega : 2 * t.count ≤ 2 * t'.count)

theorem thresh3_mono {t' : TargetCount} (h : t.count ≤ t'.count)
    (hx : AtLeast x (thresh3 t.count (texts current))) : AtLeast x (thresh3 t'.count (texts current)) := by
  rw [thresh3, atLeast_maximum (isCount_now _ _) (isCount_neighbourRoom _)] at hx ⊢
  exact hx.imp id (neighbourRoom_mono h)

theorem times_mono {t' : TargetCount} (h : t.count ≤ t'.count) (hy : 0 < y)
    (hx : AtLeast x (times y (.fin t.count))) : AtLeast x (times y (.fin t'.count)) := by
  have hpos : (0 : ℚ) < t.count := by exact_mod_cast t.pos
  exact atLeast_ofRat_mono (mul_pos hy hpos)
    (mul_le_mul_of_nonneg_left (by exact_mod_cast h) hy.le) hx

theorem add_mono (ha : IsCount a) (hb : IsCount b) (hab : ∀ x, AtLeast x a → AtLeast x b) (hq : 0 < q)
    (hx : AtLeast x (a.add (.fin q))) : AtLeast x (b.add (.fin q)) := by
  cases a with
  | fin p =>
    have hp := hab p le_rfl
    cases b with
    | fin r => exact atLeast_ofRat_mono (by linarith [ha.1]) (by linarith [show p ≤ r from hp]) hx
    | inf negative => exact hb
    | nan => exact hb.elim
  | inf negative =>
    cases b with
    | fin r =>
      have hr : r + 1 ≤ r := hab (r + 1) ha
      linarith
    | inf other => exact hb
    | nan => exact hb.elim
  | nan => exact ha.elim

theorem add_comm_number (a b : Number) : a.add b = b.add a := by
  cases a <;> cases b <;> simp only [Number.add, add_comm]
  rename_i negative other
  cases negative <;> cases other <;> rfl

/-- More addresses need no less. -/
theorem allNeeds_mono {t' : TargetCount} (h : t.count ≤ t'.count) : ∀ need ∈ allNeeds t.count,
    ∃ need' ∈ allNeeds t'.count, need'.1 = need.1 ∧ ∀ x, AtLeast x need.2 → AtLeast x need'.2 := by
  have htarget : ∀ s : TargetCount, ∀ y : ℚ, 0 < y → IsCount (times y (.fin s.count)) := fun s y hy =>
    IsCount.times ⟨Nat.cast_nonneg _, s.isDouble⟩ hy
  have hfile : ∀ x, AtLeast x ((times 100 (.fin t.count)).add (.fin 65536)) →
      AtLeast x ((times 100 (.fin t'.count)).add (.fin 65536)) := fun x hx =>
    add_mono (htarget t 100 (by norm_num)) (htarget t' 100 (by norm_num))
      (fun z hz => times_mono h (by norm_num) hz) (by norm_num) hx
  have hwatches : ∀ x, AtLeast x ((Number.fin 65536).add (times 128 (.fin t.count))) →
      AtLeast x ((Number.fin 65536).add (times 128 (.fin t'.count))) := by
    intro x hx
    rw [add_comm_number] at hx ⊢
    exact add_mono (htarget t 128 (by norm_num)) (htarget t' 128 (by norm_num))
      (fun z hz => times_mono h (by norm_num) hz) (by norm_num) hx
  intro need hneed
  simp only [allNeeds, needs, List.mem_append, List.mem_cons, List.not_mem_nil, or_false] at hneed ⊢
  obtain (rfl | rfl | rfl | rfl | rfl) | hneed := hneed
  · exact ⟨_, .inl (.inl rfl), rfl, hfile⟩
  · exact ⟨_, .inl (.inr (.inl rfl)), rfl, fun _ hx => hx⟩
  · exact ⟨_, .inl (.inr (.inr (.inl rfl))), rfl, hwatches⟩
  · exact ⟨_, .inl (.inr (.inr (.inr (.inl rfl)))), rfl, fun _ hx => hx⟩
  · exact ⟨_, .inl (.inr (.inr (.inr (.inr rfl)))), rfl, fun _ hx => hx⟩
  · split_ifs at hneed with hlarge
    · cases List.mem_singleton.mp hneed
      have hlarge' : (1000 : ℚ) ≤ t'.count := hlarge.trans (by exact_mod_cast h)
      exact ⟨_, .inr (by rw [if_pos hlarge']; exact List.mem_cons_self), rfl, fun _ hx => hx⟩
    · cases hneed

theorem Proposed.mono {t' : TargetCount} {key : Text} (h : t.count ≤ t'.count)
    (hv : Proposed t current key v) :
    ∃ v', Proposed t' current key v' ∧ ∀ x, AtLeast x v → AtLeast x v' := by
  have hquotient : ∀ i : Nat, i ≤ 1021 → ∀ x,
      AtLeast x (floorQuotient (thresh3 t.count (texts current)) (2 ^ i)) →
      AtLeast x (floorQuotient (thresh3 t'.count (texts current)) (2 ^ i)) := by
    intro i hi x hx
    have hone : ∀ s : TargetCount, AtLeast 1 (thresh3 s.count (texts current)) := fun s =>
      (two_le_thresh3 s current).mono (by norm_num)
    rw [(floorQuotient_spec hi (isCount_thresh3 t current) (hone t)).2] at hx
    rw [(floorQuotient_spec hi (isCount_thresh3 t' current) (hone t')).2]
    exact thresh3_mono h hx
  obtain hmem | ⟨need, hneed, rfl, rfl⟩ := hv
  · simp only [thresholds, List.mem_cons, Prod.mk.injEq, List.not_mem_nil, or_false] at hmem
    obtain ⟨rfl, rfl⟩ | ⟨rfl, rfl⟩ | ⟨rfl, rfl⟩ := hmem
    · exact ⟨_, .inl List.mem_cons_self, fun x hx => thresh3_mono h hx⟩
    · have hhalf := hquotient 1 (by omega)
      rw [pow_one] at hhalf
      exact ⟨_, .inl (List.mem_cons_of_mem _ List.mem_cons_self), hhalf⟩
    · have hquarter := hquotient 2 (by omega)
      norm_num at hquarter
      exact ⟨_, .inl (List.mem_cons_of_mem _ (List.mem_cons_of_mem _ List.mem_cons_self)), hquarter⟩
  · obtain ⟨need', hneed', hkey, hmono⟩ := allNeeds_mono h need hneed
    refine ⟨_, .inr ⟨need', hneed', hkey, rfl⟩, fun x hx => ?_⟩
    rw [atLeast_maximum (isCount_now _ _) (isCount_needs t need hneed)] at hx
    rw [atLeast_maximum (isCount_now _ _) (isCount_needs t' need' hneed')]
    exact hx.imp id (hmono x)

/-! ### Planning again -/

theorem get?_planned (t : TargetCount) (current : OrderedMap Text Nat) (key : Text) :
    (planned t current).get? key = ((planOf t current).get? key).or ((texts current).get? key) := by
  cases hplan : (planOf t current).get? key with
  | none =>
    rw [planned, get?_merged_of_not_mem (OrderedMap.get?_eq_none.mp hplan), Option.none_or]
  | some value =>
    rw [planned, get?_merged_of_mem (OrderedMap.get?_eq_some.mp hplan) (planOf t current).nodup,
      Option.some_or]

theorem mem_keys_planned {key : Text} : key ∈ (planned t current).keys ↔ key ∈ current.keys := by
  rw [← OrderedMap.has_iff, OrderedMap.has, get?_planned, Option.isSome_or, ← OrderedMap.has, ← OrderedMap.has,
    Bool.or_eq_true, OrderedMap.has_iff, OrderedMap.has_iff, mem_keys_texts, or_iff_right_iff_imp]
  intro hkey
  obtain ⟨value, hvalue⟩ := OrderedMap.has_iff_get.mp (OrderedMap.has_iff.mpr hkey)
  exact (get?_planOf.mp hvalue).1

theorem maximum_again (hb : IsCount b) :
    maximum (.fin (((maximum (.fin q) b).finite?).getD 0)) b = maximum (.fin q) b := by
  cases b with
  | fin r =>
    by_cases hlt : q < r
    · have hmax : maximum (.fin q) (.fin r) = .fin r := if_pos (by simpa [lt] using hlt)
      rw [hmax]
      exact ite_self _
    · have hmax : maximum (.fin q) (.fin r) = .fin q := if_neg (by simpa [lt] using hlt)
      rw [hmax]
      exact hmax
  | inf negative =>
    cases hb
    rfl
  | nan => exact hb.elim

/-- What was raised to a bound is raised to it again. -/
theorem now_planned {key : Text} (hb : IsCount b)
    (h : key ∈ current.keys → Proposed t current key (maximum (now (texts current) key) b)) :
    maximum (now (planned t current) key) b = maximum (now (texts current) key) b := by
  by_cases hkey : key ∈ current.keys
  · have hproposed := h hkey
    have hplan := get?_planOf.mpr ⟨hkey, _, hproposed, rfl⟩
    rw [now, get?_planned, hplan, Option.some_or, toNumber_valueText hproposed.isCount, now_texts]
    exact maximum_again hb
  · have hplan : (planOf t current).get? key = none := by
      refine OrderedMap.get?_eq_none.mpr fun hmem => hkey ?_
      obtain ⟨value, hvalue⟩ := OrderedMap.has_iff_get.mp (OrderedMap.has_iff.mpr hmem)
      exact (get?_planOf.mp hvalue).1
    rw [now, get?_planned, hplan, Option.none_or, now]

/-- The same proposals again, once they are applied. -/
theorem proposals_planned (t : TargetCount) (current : OrderedMap Text Nat) :
    proposals t.count (planned t current) = proposals t.count (texts current) := by
  have hthresh : thresh3 t.count (planned t current) = thresh3 t.count (texts current) := by
    rw [thresh3, now_planned (isCount_neighbourRoom t) fun _ => .inl List.mem_cons_self, thresh3]
  have hneed : ∀ need ∈ allNeeds t.count, maximum (now (planned t current) need.1) need.2 =
      maximum (now (texts current) need.1) need.2 := fun need hmem =>
    now_planned (isCount_needs t need hmem) fun _ => .inr ⟨need, hmem, rfl, rfl⟩
  have hneeds : (needs t.count).map (fun need => (need.1, maximum (now (planned t current) need.1) need.2)) =
      (needs t.count).map fun need => (need.1, maximum (now (texts current) need.1) need.2) := by
    refine List.map_congr_left fun need hmem => ?_
    rw [hneed need (List.mem_append_left _ hmem)]
  rw [proposals, proposals, hthresh, hneeds]
  congr 1
  by_cases hlarge : (1000 : ℚ) ≤ t.count
  · have hmem : (CONNTRACK_MAX, Number.fin 262144) ∈ allNeeds t.count :=
      List.mem_append_right _ (by rw [if_pos hlarge]; exact List.mem_cons_self)
    have hpresent : ((planned t current).get? CONNTRACK_MAX).getD [] ≠ [] ↔
        ((texts current).get? CONNTRACK_MAX).getD [] ≠ [] := by
      rw [conntrack_present]
      constructor
      · intro h
        refine (mem_keys_planned (t := t)).mp (OrderedMap.has_iff.mp ?_)
        cases hget : (planned t current).get? CONNTRACK_MAX with
        | none => rw [hget] at h; exact absurd rfl h
        | some value => rw [OrderedMap.has, hget]; rfl
      · intro hkey
        have hproposed : Proposed t current CONNTRACK_MAX
            (maximum (now (texts current) CONNTRACK_MAX) (.fin 262144)) := .inr ⟨_, hmem, rfl, rfl⟩
        rw [get?_planned, get?_planOf.mpr ⟨hkey, _, hproposed, rfl⟩, Option.some_or, Option.getD_some]
        intro hnil
        have hread := ofText_valueText hproposed.isCount
        rw [hnil, now_texts] at hread
        have hzero : maximum (.fin (double ((current.get? CONNTRACK_MAX).getD 0 : Nat))) (.fin 262144) =
            .fin 0 := hread.symm
        have hleast : AtLeast 262144 (maximum (.fin (double ((current.get? CONNTRACK_MAX).getD 0 : Nat)))
            (.fin 262144)) := (atLeast_maximum (isCount_double _) (isCount_needs t _ hmem)).mpr (.inr le_rfl)
        rw [hzero] at hleast
        have hfalse : (262144 : ℚ) ≤ 0 := hleast
        norm_num at hfalse
    have hvalue := hneed _ hmem
    dsimp only at hvalue
    simp only [hpresent, hvalue]
  · rw [if_neg fun h => hlarge h.1, if_neg fun h => hlarge h.1]

theorem planFor_planned {key value : Text}
    (h : (planFor t.count (planned t current)).get? key = some value) :
    (planned t current).get? key = some value := by
  obtain ⟨v, hmem, hkey, rfl⟩ := get?_planFor.mp h
  rw [proposals_planned] at hmem
  rw [mem_keys_planned] at hkey
  rw [get?_planned, get?_planOf.mpr ⟨hkey, v, (mem_proposals hkey).mp hmem, rfl⟩, Option.some_or]

/-! ### The promise -/

/-- The thresholds come out in order as long as the third one is finite. -/
theorem ordered_iff (t : TargetCount) (current : OrderedMap Text Nat) :
    (∀ v1 v2 v3, (planned t current).get? GC_THRESH1 = some v1 →
      (planned t current).get? GC_THRESH2 = some v2 → (planned t current).get? GC_THRESH3 = some v3 →
      (Ordered current ∨ ∀ key ∈ [GC_THRESH1, GC_THRESH2, GC_THRESH3], key ∈ (planOf t current).keys) →
      (ofText v1).lt (ofText v2) = true ∧ (ofText v2).lt (ofText v3) = true) ↔
    ((∀ key ∈ [GC_THRESH1, GC_THRESH2, GC_THRESH3], key ∈ current.keys) → t.count ≤ 2 ^ 1022) := by
  have hproposed : ∀ p ∈ thresholds t current, Proposed t current p.1 p.2 := fun p hp => .inl hp
  have hget : ∀ p ∈ thresholds t current, p.1 ∈ current.keys →
      (planOf t current).get? p.1 = some (valueText p.2) ∧
      (planned t current).get? p.1 = some (valueText p.2) := by
    intro p hp hkey
    have hplan := get?_planOf.mpr ⟨hkey, p.2, hproposed p hp, rfl⟩
    exact ⟨hplan, by rw [get?_planned, hplan, Option.some_or]⟩
  have hread : ∀ p ∈ thresholds t current, ofText (valueText p.2) = p.2 := fun p hp =>
    ofText_valueText (hproposed p hp).isCount
  simp only [thresholds, List.forall_mem_cons, List.not_mem_nil, false_implies, implies_true,
    and_true] at hget hread
  obtain ⟨hget3, hget2, hget1⟩ := hget
  obtain ⟨hread3, hread2, hread1⟩ := hread
  rw [← thresh3_eq_fin t current]
  constructor
  · intro h hkeys
    simp only [List.forall_mem_cons, List.not_mem_nil, false_implies, implies_true, and_true] at hkeys
    obtain ⟨hk1, hk2, hk3⟩ := hkeys
    have hall : ∀ key ∈ [GC_THRESH1, GC_THRESH2, GC_THRESH3], key ∈ (planOf t current).keys := by
      simp only [List.forall_mem_cons, List.not_mem_nil, false_implies, implies_true, and_true]
      have hmem : ∀ {key value : Text}, (planOf t current).get? key = some value →
          key ∈ (planOf t current).keys := fun hv => OrderedMap.has_iff.mp (OrderedMap.has_iff_get.mpr ⟨_, hv⟩)
      exact ⟨hmem (hget1 hk1).1, hmem (hget2 hk2).1, hmem (hget3 hk3).1⟩
    have hless := (h _ _ _ (hget1 hk1).2 (hget2 hk2).2 (hget3 hk3).2 (.inr hall)).2
    rw [hread2, hread3] at hless
    cases hthresh : thresh3 t.count (texts current) with
    | fin q => exact ⟨q, rfl⟩
    | inf negative =>
      have hcount := isCount_thresh3 t current
      rw [hthresh] at hcount hless
      cases hcount
      cases hless
    | nan =>
      have hcount := isCount_thresh3 t current
      rw [hthresh] at hcount
      exact hcount.elim
  · intro h v1 v2 v3 hv1 hv2 hv3 _
    have hkey : ∀ {key value : Text}, (planned t current).get? key = some value → key ∈ current.keys :=
      fun hv => mem_keys_planned.mp (OrderedMap.has_iff.mp (OrderedMap.has_iff_get.mpr ⟨_, hv⟩))
    obtain ⟨q, hq⟩ := h (by
      simp only [List.forall_mem_cons, List.not_mem_nil, false_implies, implies_true, and_true]
      exact ⟨hkey hv1, hkey hv2, hkey hv3⟩)
    rw [(hget1 (hkey hv1)).2] at hv1
    rw [(hget2 (hkey hv2)).2] at hv2
    rw [(hget3 (hkey hv3)).2] at hv3
    cases hv1
    cases hv2
    cases hv3
    rw [hread1, hread2, hread3, hq]
    have hcount := isCount_thresh3 t current
    have htwo := two_le_thresh3 t current
    rw [hq] at hcount htwo
    exact floorQuotient_lt htwo hcount.2

/-- A plan only raises, keeps the thresholds in order, grows with the target and settles at once,
exactly when nothing that is set stands above its bound. -/
theorem planFor_only_raises_iff (t : TargetCount) (current : OrderedMap Text Nat) :
    OnlyRaises t current ↔ NothingAbove t current := by
  constructor
  · intro h
    obtain ⟨hthresholds, hothers⟩ := (raises_iff t current).mp h.raises
    exact ⟨hthresholds, hothers, (ordered_iff t current).mp h.ordered⟩
  · intro h
    refine ⟨fun key hkey => ?_, (raises_iff t current).mpr ⟨h.thresholds, h.others⟩,
      (ordered_iff t current).mpr h.covered, fun t' hle key value hvalue => ?_,
      fun key value hvalue => planFor_planned hvalue⟩
    · obtain ⟨value, hvalue⟩ := OrderedMap.has_iff_get.mp (OrderedMap.has_iff.mpr hkey)
      exact (get?_planOf.mp hvalue).1
    · obtain ⟨hkey, v, hv, rfl⟩ := get?_planOf.mp hvalue
      obtain ⟨v', hv', hmono⟩ := hv.mono hle
      refine ⟨_, get?_planOf.mpr ⟨hkey, v', hv', rfl⟩, ?_⟩
      rw [ofText_valueText hv.isCount, ofText_valueText hv'.isCount]
      exact lt_eq_false_of_atLeast hv.isCount hv'.isCount hmono

/-- Thresholds of a machine whose second one was raised by hand. -/
def tunedByHand : OrderedMap Text Nat :=
  ⟨[(GC_THRESH1, 1024), (GC_THRESH2, 4000), (GC_THRESH3, 4096)], by decide +kernel⟩

def hundredAddresses : TargetCount := ⟨100, by decide, by decide +kernel⟩

theorem second_threshold_lowered : ¬OnlyRaises hundredAddresses tunedByHand := by
  intro h
  have hplan : (planOf hundredAddresses tunedByHand).get? GC_THRESH2 = some (js "2048") := by
    decide +kernel
  have hraised := h.raises GC_THRESH2 (js "2048") 4000 hplan (by decide +kernel)
  have hread : ofText (js "2048") = .fin 2048 := by decide +kernel
  rw [hread] at hraised
  have hle : (4000 : ℚ) ≤ 2048 := hraised
  norm_num at hle

end BoredManager.Network
