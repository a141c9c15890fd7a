import BoredManager.Js.Stringify

/-! The UTF-8 bytes of a text. On well-formed texts, those without lone surrogates, no two
texts have the same bytes. -/
namespace BoredManager.Js

/-- The bytes of a code point. -/
def utf8Point (c : Nat) : List Nat :=
  if c < 128 then [c]
  else if c < 2048 then [192 + c / 64, 128 + c % 64]
  else if c < 65536 then [224 + c / 4096, 128 + c / 64 % 64, 128 + c % 64]
  else [240 + c / 262144, 128 + c / 4096 % 64, 128 + c / 64 % 64, 128 + c % 64]

/-- A unit that stands alone; a lone surrogate is written as U+FFFD. -/
def utf8Unit (u : Nat) : List Nat :=
  utf8Point (if isHighSurrogate u || isLowSurrogate u then 65533 else u)

def pairPoint (u v : Nat) : Nat := 65536 + (u - 55296) * 1024 + (v - 56320)

/-- `Buffer.from(text, 'utf8')`. -/
def utf8 : Text → List Nat
  | [] => []
  | u :: s =>
    match s with
    | [] => utf8Unit u
    | v :: rest =>
      if isHighSurrogate u && isLowSurrogate v then utf8Point (pairPoint u v) ++ utf8 rest
      else utf8Unit u ++ utf8 (v :: rest)

/-- Texts in which every surrogate is half of a pair. -/
inductive Scalars : Text → Prop
  | nil : Scalars []
  | unit {u : Nat} {s : Text} (range : u < 55296 ∨ (57344 ≤ u ∧ u < 65536)) (rest : Scalars s) :
      Scalars (u :: s)
  | pair {u v : Nat} {s : Text} (high : 55296 ≤ u ∧ u ≤ 56319) (low : 56320 ≤ v ∧ v ≤ 57343)
      (rest : Scalars s) : Scalars (u :: v :: s)

theorem utf8_unit {u : Nat} (h : u < 55296 ∨ (57344 ≤ u ∧ u < 65536)) (s : Text) :
    utf8 (u :: s) = utf8Point u ++ utf8 s := by
  have hhigh : isHighSurrogate u = false := by simp [isHighSurrogate]; omega
  have hlow : isLowSurrogate u = false := by simp [isLowSurrogate]; omega
  cases s with
  | nil => simp [utf8, utf8Unit, hhigh, hlow]
  | cons v s => simp [utf8, utf8Unit, hhigh, hlow]

theorem utf8_pair {u v : Nat} (hu : 55296 ≤ u ∧ u ≤ 56319) (hv : 56320 ≤ v ∧ v ≤ 57343)
    (s : Text) : utf8 (u :: v :: s) = utf8Point (pairPoint u v) ++ utf8 s := by
  have hpair : (isHighSurrogate u && isLowSurrogate v) = true := by
    simp [isHighSurrogate, isLowSurrogate]
    omega
  rw [utf8]
  simp only [hpair, if_true]

theorem utf8Point_cases (c : Nat) :
    (c < 128 ∧ utf8Point c = [c]) ∨
    (128 ≤ c ∧ c < 2048 ∧ utf8Point c = [192 + c / 64, 128 + c % 64]) ∨
    (2048 ≤ c ∧ c < 65536 ∧
      utf8Point c = [224 + c / 4096, 128 + c / 64 % 64, 128 + c % 64]) ∨
    (65536 ≤ c ∧
      utf8Point c = [240 + c / 262144, 128 + c / 4096 % 64, 128 + c / 64 % 64, 128 + c % 64]) := by
  unfold utf8Point
  by_cases h1 : c < 128
  · exact .inl ⟨h1, if_pos h1⟩
  by_cases h2 : c < 2048
  · exact .inr (.inl ⟨by omega, h2, by rw [if_neg h1, if_pos h2]⟩)
  by_cases h3 : c < 65536
  · exact .inr (.inr (.inl ⟨by omega, h3, by rw [if_neg h1, if_neg h2, if_pos h3]⟩))
  · exact .inr (.inr (.inr ⟨by omega, by rw [if_neg h1, if_neg h2, if_neg h3]⟩))

/-- The first byte tells how many bytes a code point has. -/
theorem utf8Point_cancel {c d : Nat} (hc : c < 1114112) (hd : d < 1114112) {x y : List Nat}
    (h : utf8Point c ++ x = utf8Point d ++ y) : c = d ∧ x = y := by
  rcases utf8Point_cases c with ⟨h1, hcs⟩ | ⟨h1, h2, hcs⟩ | ⟨h1, h2, hcs⟩ | ⟨h1, hcs⟩ <;>
    rcases utf8Point_cases d with ⟨h3, hds⟩ | ⟨h3, h4, hds⟩ | ⟨h3, h4, hds⟩ | ⟨h3, hds⟩ <;>
    rw [hcs, hds] at h <;>
    simp only [List.cons_append, List.nil_append, List.cons.injEq] at h <;>
    first | omega | exact ⟨by omega, by tauto⟩

theorem mem_utf8Point {c b : Nat} (hc : c < 1114112) (hb : b ∈ utf8Point c) :
    b < 256 ∧ (b = 0 → c = 0) := by
  rcases utf8Point_cases c with ⟨h1, hcs⟩ | ⟨h1, h2, hcs⟩ | ⟨h1, h2, hcs⟩ | ⟨h1, hcs⟩ <;>
    rw [hcs] at hb <;> simp only [List.mem_cons, List.not_mem_nil, or_false] at hb <;> omega

theorem utf8Point_ne_nil (c : Nat) : utf8Point c ≠ [] := by
  rcases utf8Point_cases c with ⟨-, hcs⟩ | ⟨-, -, hcs⟩ | ⟨-, -, hcs⟩ | ⟨-, hcs⟩ <;>
    rw [hcs] <;> exact List.cons_ne_nil _ _

theorem utf8_eq_nil {s : Text} (h : utf8 s = []) (hs : Scalars s) : s = [] := by
  cases hs with
  | nil => rfl
  | unit range =>
    rw [utf8_unit range] at h
    exact absurd (List.append_eq_nil_iff.mp h).1 (utf8Point_ne_nil _)
  | pair high low =>
    rw [utf8_pair high low] at h
    exact absurd (List.append_eq_nil_iff.mp h).1 (utf8Point_ne_nil _)

theorem pairPoint_range {u v : Nat} (hu : 55296 ≤ u ∧ u ≤ 56319) (hv : 56320 ≤ v ∧ v ≤ 57343) :
    65536 ≤ pairPoint u v ∧ pairPoint u v < 1114112 := by
  unfold pairPoint
  omega

/-- Well-formed texts with the same bytes are the same. -/
theorem utf8_injective {s t : Text} (hs : Scalars s) (ht : Scalars t) (h : utf8 s = utf8 t) :
    s = t := by
  induction hs generalizing t with
  | nil => exact (utf8_eq_nil h.symm ht).symm
  | @unit u s hu hs ih =>
    rw [utf8_unit hu] at h
    cases ht with
    | nil => exact absurd (List.append_eq_nil_iff.mp h).1 (utf8Point_ne_nil _)
    | unit hv ht =>
      rw [utf8_unit hv] at h
      obtain ⟨rfl, hrest⟩ := utf8Point_cancel (by omega) (by omega) h
      rw [ih ht hrest]
    | pair hv hw ht =>
      rw [utf8_pair hv hw] at h
      have hrange := pairPoint_range hv hw
      have := (utf8Point_cancel (by omega) (by omega) h).1
      omega
  | @pair u v s hu hv hs ih =>
    rw [utf8_pair hu hv] at h
    have hrange := pairPoint_range hu hv
    cases ht with
    | nil => exact absurd (List.append_eq_nil_iff.mp h).1 (utf8Point_ne_nil _)
    | unit hw ht =>
      rw [utf8_unit hw] at h
      have := (utf8Point_cancel (by omega) (by omega) h).1
      omega
    | @pair w x t hw hx ht =>
      rw [utf8_pair hw hx] at h
      have hrange' := pairPoint_range hw hx
      obtain ⟨hpoint, hrest⟩ := utf8Point_cancel (by omega) (by omega) h
      unfold pairPoint at hpoint
      have huw : u = w := by omega
      have hvx : v = x := by omega
      rw [ih ht hrest, huw, hvx]

theorem mem_utf8 {s : Text} (hs : Scalars s) {b : Nat} (hb : b ∈ utf8 s) :
    b < 256 ∧ (b = 0 → 0 ∈ s) := by
  induction hs with
  | nil => cases hb
  | unit hu _ ih =>
    rw [utf8_unit hu] at hb
    rcases List.mem_append.mp hb with hb | hb
    · have := mem_utf8Point (by omega) hb
      exact ⟨this.1, fun h => by simp [this.2 h]⟩
    · exact ⟨(ih hb).1, fun h => List.mem_cons_of_mem _ ((ih hb).2 h)⟩
  | pair hu hv _ ih =>
    rw [utf8_pair hu hv] at hb
    have hrange := pairPoint_range hu hv
    rcases List.mem_append.mp hb with hb | hb
    · have := mem_utf8Point hrange.2 hb
      exact ⟨this.1, fun h => absurd (this.2 h) (by omega)⟩
    · exact ⟨(ih hb).1, fun h => by simp [(ih hb).2 h]⟩

theorem Scalars.append {s t : Text} (hs : Scalars s) (ht : Scalars t) : Scalars (s ++ t) := by
  induction hs with
  | nil => exact ht
  | unit hu _ ih => exact .unit hu ih
  | pair hu hv _ ih => exact .pair hu hv ih

end BoredManager.Js
