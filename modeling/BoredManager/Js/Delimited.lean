import BoredManager.Js.Stringify

/-! JSON texts that end where they end: a string up to its closing quote, and the parts
of a list between commas. Two equal texts have the same parts and the same rest. -/
namespace BoredManager.Js

def hexValue (u : Nat) : Nat := if u < 58 then u - 48 else u - 87

/-- The unit that a letter after a backslash stands for. -/
def unescaped (e : Nat) : Nat :=
  if e = 98 then 8 else if e = 116 then 9 else if e = 110 then 10
  else if e = 102 then 12 else if e = 114 then 13 else e

/-- One unit of a JSON string; `none` at its closing quote. -/
def readUnit : Text → Option (Nat × Text)
  | [] => none
  | u :: s =>
    if u = 34 then none
    else if u = 92 then
      match s with
      | [] => none
      | e :: s =>
        if e = 117 then
          match s with
          | a :: b :: c :: d :: s =>
            some (hexValue a * 4096 + hexValue b * 256 + hexValue c * 16 + hexValue d, s)
          | _ => none
        else some (unescaped e, s)
    else some (u, s)

/-- The units up to the closing quote, and what follows it. -/
def readString : Nat → Text → Option (Text × Text)
  | 0, _ => none
  | n+1, s =>
    match readUnit s with
    | some (u, s) => (readString n s).map fun p => (u :: p.1, p.2)
    | none => some ([], s.tail)

theorem hexValue_hexDigit {d : Nat} (h : d < 16) : hexValue (hexDigit d) = d :=
  (by decide : ∀ d < 16, hexValue (hexDigit d) = d) d h

theorem readUnit_raw {u : Nat} (h34 : u ≠ 34) (h92 : u ≠ 92) (s : Text) :
    readUnit (u :: s) = some (u, s) := by
  simp [readUnit, h34, h92]

theorem readUnit_escapeUnit (u : Nat) (s : Text) : readUnit (escapeUnit u ++ s) = some (u, s) := by
  unfold escapeUnit
  iterate 7
    split
    · rename_i h
      rw [h]
      rfl
  split
  · rename_i h
    have hlt : u < 65536 := by
      simp only [isHighSurrogate, isLowSurrogate, Bool.or_eq_true, Bool.and_eq_true,
        decide_eq_true_eq] at h
      omega
    have hread : readUnit (js "\\u" ++ [hexDigit (u / 4096 % 16), hexDigit (u / 256 % 16),
        hexDigit (u / 16 % 16), hexDigit (u % 16)] ++ s) =
        some (hexValue (hexDigit (u / 4096 % 16)) * 4096 + hexValue (hexDigit (u / 256 % 16)) * 256 +
          hexValue (hexDigit (u / 16 % 16)) * 16 + hexValue (hexDigit (u % 16)), s) := rfl
    rw [hread]
    simp only [hexValue_hexDigit (Nat.mod_lt _ (by omega : 16 > 0)), Option.some.injEq,
      Prod.mk.injEq, and_true]
    omega
  · rename_i h34 h92 _ _ _ _ _ _
    exact readUnit_raw h34 h92 s

theorem readString_cons {n u : Nat} {s t rest text : Text} (hunit : readUnit text = some (u, t))
    (h : readString n t = some (s, rest)) : readString (n + 1) text = some (u :: s, rest) := by
  rw [readString, hunit]
  dsimp only
  rw [h]
  rfl

/-- A string is read back from its escaped units, whatever follows the closing quote. -/
theorem readString_escapeText {s : Text} {n : Nat} (h : s.length < n) (rest : Text) :
    readString n (escapeText s ++ 34 :: rest) = some (s, rest) := by
  obtain ⟨m, rfl⟩ : ∃ m, n = m + 1 := ⟨n - 1, by omega⟩
  induction s using escapeText.induct generalizing m with
  | case1 => rfl
  | case2 u =>
    obtain ⟨m, rfl⟩ : ∃ k, m = k + 1 := ⟨m - 1, by rw [List.length_singleton] at h; omega⟩
    exact readString_cons (readUnit_escapeUnit u _) rfl
  | case3 u v s hpair ih =>
    simp only [List.length_cons] at h
    obtain ⟨m, rfl⟩ : ∃ k, m = k + 2 := ⟨m - 2, by omega⟩
    rw [escapeText, if_pos hpair]
    simp only [isHighSurrogate, isLowSurrogate, Bool.and_eq_true, decide_eq_true_eq] at hpair
    exact readString_cons (readUnit_raw (by omega) (by omega) _)
      (readString_cons (readUnit_raw (by omega) (by omega) _) (ih m (by omega)))
  | case4 u v s hpair ih =>
    simp only [List.length_cons] at h ih
    obtain ⟨m, rfl⟩ : ∃ k, m = k + 1 := ⟨m - 1, by omega⟩
    rw [escapeText, if_neg hpair, List.append_assoc]
    exact readString_cons (readUnit_escapeUnit u _) (ih m (by omega))

/-- A quoted string ends at its closing quote. -/
theorem quote_cancel {s t x y : Text} (h : quote s ++ x = quote t ++ y) : s = t ∧ x = y := by
  simp only [quote, List.cons_append, List.append_assoc, List.nil_append, List.cons.injEq,
    true_and] at h
  have hs := readString_escapeText (s := s) (n := s.length + t.length + 1) (by omega) x
  rw [h, readString_escapeText (by omega) y] at hs
  injection hs with hs
  injection hs with hs hx
  exact ⟨hs.symm, hx.symm⟩

/-- What may follow a value: a comma or a closing bracket. -/
def IsClosed (s : Text) : Prop := ∃ u r, s = u :: r ∧ (u = 44 ∨ u = 93 ∨ u = 125)

variable {α : Type*} {enc : α → Text} {R : α → α → Prop} {close : Nat}

/-- The parts behind the first one, each with its comma, and the closing bracket. -/
def closeParts (enc : α → Text) (close : Nat) (xs : List α) (rest : Text) : Text :=
  xs.flatMap (fun x => 44 :: enc x) ++ close :: rest

theorem join_cons (enc : α → Text) (x : α) (xs : List α) :
    join [44] ((x :: xs).map enc) = enc x ++ xs.flatMap fun x => 44 :: enc x := by
  induction xs generalizing x with
  | nil => simp [join]
  | cons y xs ih =>
    rw [List.map_cons, List.map_cons, join, List.intercalate_cons_cons, ← List.map_cons]
    change enc x ++ [44] ++ join [44] ((y :: xs).map enc) = _
    rw [ih]
    simp

theorem isClosed_closeParts (hclose : close = 93 ∨ close = 125) (xs : List α) (rest : Text) :
    IsClosed (closeParts enc close xs rest) := by
  cases xs with
  | nil => exact ⟨close, rest, rfl, .inr hclose⟩
  | cons x xs => exact ⟨44, _, rfl, .inl rfl⟩

theorem closeParts_cancel (hclose : close = 93 ∨ close = 125) {xs ys : List α} {s t : Text}
    (hcancel : ∀ x ∈ xs, ∀ y ∈ ys, ∀ s t, IsClosed s → IsClosed t → enc x ++ s = enc y ++ t →
      R x y ∧ s = t)
    (h : closeParts enc close xs s = closeParts enc close ys t) : List.Forall₂ R xs ys ∧ s = t := by
  induction xs generalizing ys with
  | nil =>
    cases ys with
    | nil =>
      injection h with _ h
      exact ⟨.nil, h⟩
    | cons y ys =>
      injection h with h _
      omega
  | cons x xs ih =>
    cases ys with
    | nil =>
      injection h with h _
      omega
    | cons y ys =>
      simp only [closeParts, List.flatMap_cons, List.cons_append, List.append_assoc,
        List.cons.injEq, true_and] at h
      obtain ⟨hxy, h⟩ := hcancel x List.mem_cons_self y List.mem_cons_self _ _
        (isClosed_closeParts hclose xs s) (isClosed_closeParts hclose ys t) h
      obtain ⟨hrest, hst⟩ := ih (fun x hx y hy =>
        hcancel x (List.mem_cons_of_mem _ hx) y (List.mem_cons_of_mem _ hy)) h
      exact ⟨.cons hxy hrest, hst⟩

/-- Lists of parts with one text are lists of the same parts. -/
theorem joined_cancel (hclose : close = 93 ∨ close = 125) {xs ys : List α} {s t : Text}
    (hxs : ∀ x ∈ xs, ∃ u r, enc x = u :: r ∧ u ≠ close)
    (hys : ∀ y ∈ ys, ∃ u r, enc y = u :: r ∧ u ≠ close)
    (hcancel : ∀ x ∈ xs, ∀ y ∈ ys, ∀ s t, IsClosed s → IsClosed t → enc x ++ s = enc y ++ t →
      R x y ∧ s = t)
    (h : join [44] (xs.map enc) ++ close :: s = join [44] (ys.map enc) ++ close :: t) :
    List.Forall₂ R xs ys ∧ s = t := by
  cases xs with
  | nil =>
    cases ys with
    | nil =>
      injection h with _ h
      exact ⟨.nil, h⟩
    | cons y ys =>
      obtain ⟨u, r, henc, hu⟩ := hys y List.mem_cons_self
      rw [join_cons, henc] at h
      injection h with h _
      exact absurd h.symm hu
  | cons x xs =>
    cases ys with
    | nil =>
      obtain ⟨u, r, henc, hu⟩ := hxs x List.mem_cons_self
      rw [join_cons, henc] at h
      injection h with h _
      exact absurd h hu
    | cons y ys =>
      rw [join_cons, join_cons, List.append_assoc, List.append_assoc] at h
      obtain ⟨hxy, h⟩ := hcancel x List.mem_cons_self y List.mem_cons_self _ _
        (isClosed_closeParts hclose xs s) (isClosed_closeParts hclose ys t) h
      obtain ⟨hrest, hst⟩ := closeParts_cancel hclose (fun x hx y hy =>
        hcancel x (List.mem_cons_of_mem _ hx) y (List.mem_cons_of_mem _ hy)) h
      exact ⟨.cons hxy hrest, hst⟩

end BoredManager.Js
