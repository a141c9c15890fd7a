import BoredManager.Js.Json
import Mathlib.Algebra.BigOperators.Group.List.Basic

/-! `JSON.stringify(value, null, 2)` and the length of its text in UTF-8. `numberText`
is how a finite number prints. -/
namespace BoredManager.Js

def isHighSurrogate (u : Nat) : Bool := 55296 ≤ u && u ≤ 56319
def isLowSurrogate (u : Nat) : Bool := 56320 ≤ u && u ≤ 57343

/-- `Buffer.byteLength(text, 'utf8')`. -/
def utf8Length : Text → Nat
  | [] => 0
  | u :: s =>
    let bytes := if u < 128 then 1 else if u < 2048 then 2 else 3
    match s with
    | [] => bytes
    | v :: rest =>
      if isHighSurrogate u && isLowSurrogate v then 4 + utf8Length rest
      else bytes + utf8Length (v :: rest)

def hexDigit (d : Nat) : Nat := if d < 10 then 48 + d else 87 + d

/-- A unit inside a JSON string, a lone surrogate escaped as well. -/
def escapeUnit (u : Nat) : Text :=
  if u = 34 then js "\\\"" else if u = 92 then js "\\\\"
  else if u = 8 then js "\\b" else if u = 9 then js "\\t" else if u = 10 then js "\\n"
  else if u = 12 then js "\\f" else if u = 13 then js "\\r"
  else if u < 32 || isHighSurrogate u || isLowSurrogate u then
    js "\\u" ++ [hexDigit (u / 4096 % 16), hexDigit (u / 256 % 16), hexDigit (u / 16 % 16),
      hexDigit (u % 16)]
  else [u]

def escapeText : Text → Text
  | [] => []
  | u :: s =>
    match s with
    | [] => escapeUnit u
    | v :: rest =>
      if isHighSurrogate u && isLowSurrogate v then u :: v :: escapeText rest
      else escapeUnit u ++ escapeText (v :: rest)

def quote (s : Text) : Text := 34 :: escapeText s ++ [34]

def indent (depth : Nat) : Text := List.replicate (2 * depth) 32

/-- The parts between two brackets, one a line. -/
def bracketed (opening closing depth : Nat) (parts : List Text) : Text :=
  if parts = [] then [opening, closing]
  else
    opening :: 10 :: indent (depth + 1) ++ join (44 :: 10 :: indent (depth + 1)) parts ++
      10 :: indent depth ++ [closing]

mutual

def pretty (numberText : ℚ → Text) (depth : Nat) : Json → Text
  | .null => js "null"
  | .bool b => if b then js "true" else js "false"
  | .num v => (v.finite?.map numberText).getD (js "null")
  | .str s => quote s
  | .arr items => bracketed 91 93 depth (prettyItems numberText (depth + 1) items)
  | .obj fields => bracketed 123 125 depth (prettyFields numberText (depth + 1) fields)

def prettyItems (numberText : ℚ → Text) (depth : Nat) : List Json → List Text
  | [] => []
  | item :: items => pretty numberText depth item :: prettyItems numberText depth items

def prettyFields (numberText : ℚ → Text) (depth : Nat) : List (Text × Json) → List Text
  | [] => []
  | (key, value) :: fields =>
    (quote key ++ js ": " ++ pretty numberText depth value) ::
      prettyFields numberText depth fields

end

/-- `JSON.stringify(value, null, 2)`. -/
def stringify (numberText : ℚ → Text) (value : Json) : Text := pretty numberText 0 value

theorem prettyItems_eq_map (numberText : ℚ → Text) (depth : Nat) (items : List Json) :
    prettyItems numberText depth items = items.map (pretty numberText depth) := by
  induction items with
  | nil => simp [prettyItems]
  | cons item items ih => simp [prettyItems, ih]

theorem pretty_arr (numberText : ℚ → Text) (depth : Nat) (items : List Json) :
    pretty numberText depth (.arr items) =
      bracketed 91 93 depth (items.map (pretty numberText (depth + 1))) := by
  rw [pretty, prettyItems_eq_map]

theorem pretty_obj (numberText : ℚ → Text) (depth : Nat) (fields : List (Text × Json)) :
    pretty numberText depth (.obj fields) =
      bracketed 123 125 depth (prettyFields numberText (depth + 1) fields) := by
  rw [pretty]

theorem prettyFields_append (numberText : ℚ → Text) (depth : Nat)
    (fields more : List (Text × Json)) :
    prettyFields numberText depth (fields ++ more) =
      prettyFields numberText depth fields ++ prettyFields numberText depth more := by
  induction fields with
  | nil => rfl
  | cons field fields ih => simp [prettyFields, ih]

/-- Printable ASCII that a JSON string holds as it is. -/
def IsPlain (s : Text) : Prop := ∀ u ∈ s, 32 ≤ u ∧ u < 127 ∧ u ≠ 34 ∧ u ≠ 92

instance (s : Text) : Decidable (IsPlain s) := List.decidableBAll _ s

def IsAscii (s : Text) : Prop := ∀ u ∈ s, u < 128

instance (s : Text) : Decidable (IsAscii s) := List.decidableBAll _ s

theorem IsPlain.ascii {s : Text} (h : IsPlain s) : IsAscii s := fun u hu => by
  have := h u hu
  omega

theorem IsPlain.append {s t : Text} (hs : IsPlain s) (ht : IsPlain t) : IsPlain (s ++ t) :=
  fun u hu => (List.mem_append.mp hu).elim (hs u) (ht u)

theorem IsAscii.append {s t : Text} (hs : IsAscii s) (ht : IsAscii t) : IsAscii (s ++ t) :=
  fun u hu => (List.mem_append.mp hu).elim (hs u) (ht u)

theorem utf8Length_of_ascii {s : Text} (h : IsAscii s) : utf8Length s = s.length := by
  induction s with
  | nil => rfl
  | cons u s ih =>
    have hu : u < 128 := h u List.mem_cons_self
    have hs := ih fun v hv => h v (List.mem_cons_of_mem _ hv)
    have hhigh : isHighSurrogate u = false := by simp [isHighSurrogate]; omega
    cases s with
    | nil => simp [utf8Length, hu]
    | cons v s =>
      rw [utf8Length]
      simp only [hhigh, Bool.false_and, Bool.false_eq_true, if_false, hu, if_true, hs,
        List.length_cons]
      omega

theorem escapeUnit_of_plain {u : Nat} (h : 32 ≤ u ∧ u < 127 ∧ u ≠ 34 ∧ u ≠ 92) :
    escapeUnit u = [u] := by
  have hsur : (decide (u < 32) || isHighSurrogate u || isLowSurrogate u) = false := by
    simp [isHighSurrogate, isLowSurrogate]; omega
  unfold escapeUnit
  rw [if_neg (by omega), if_neg (by omega), if_neg (by omega), if_neg (by omega),
    if_neg (by omega), if_neg (by omega), if_neg (by omega), hsur]
  rfl

theorem escapeText_of_plain {s : Text} (h : IsPlain s) : escapeText s = s := by
  induction s with
  | nil => rfl
  | cons u s ih =>
    have hu := h u List.mem_cons_self
    have hs := ih fun v hv => h v (List.mem_cons_of_mem _ hv)
    have hhigh : isHighSurrogate u = false := by simp [isHighSurrogate]; omega
    cases s with
    | nil => simp [escapeText, escapeUnit_of_plain hu]
    | cons v s =>
      rw [escapeText]
      simp [hhigh, escapeUnit_of_plain hu, hs]

theorem quote_of_plain {s : Text} (h : IsPlain s) : quote s = 34 :: s ++ [34] := by
  rw [quote, escapeText_of_plain h]

theorem ascii_quote {s : Text} (h : IsPlain s) : IsAscii (quote s) := by
  rw [quote_of_plain h]
  exact IsAscii.append (fun u hu => by
    rcases List.mem_cons.mp hu with rfl | hu
    · omega
    · exact h.ascii u hu) (by decide)

theorem length_quote {s : Text} (h : IsPlain s) : (quote s).length = s.length + 2 := by
  simp [quote_of_plain h]

theorem length_join (sep : Text) (parts : List Text) :
    (join sep parts).length =
      (parts.map List.length).sum + sep.length * (parts.length - 1) := by
  induction parts with
  | nil => simp [join]
  | cons part parts ih =>
    cases parts with
    | nil => simp [join]
    | cons next parts =>
      simp only [join, List.intercalate_cons_cons, List.length_append, List.map_cons,
        List.sum_cons, List.length_cons, Nat.add_sub_cancel] at ih ⊢
      rw [ih]
      ring

theorem ascii_join {sep : Text} {parts : List Text} (hsep : IsAscii sep)
    (hparts : ∀ part ∈ parts, IsAscii part) : IsAscii (join sep parts) := by
  induction parts with
  | nil => intro u hu; simp [join] at hu
  | cons part parts ih =>
    have htail := ih fun p hp => hparts p (List.mem_cons_of_mem _ hp)
    cases parts with
    | nil => simpa [join] using hparts part List.mem_cons_self
    | cons next parts =>
      rw [join, List.intercalate_cons_cons]
      exact ((hparts part List.mem_cons_self).append hsep).append htail

theorem ascii_indent (depth : Nat) : IsAscii (indent depth) := fun u hu => by
  rw [List.eq_of_mem_replicate hu]
  omega

/-- The length of a bracketed list: its parts, a comma, a line feed and an indent for
each, and the closing line. -/
theorem length_bracketed (opening closing depth : Nat) {parts : List Text} (h : parts ≠ []) :
    (bracketed opening closing depth parts).length =
      (parts.map List.length).sum + (2 * depth + 4) * parts.length + 2 * depth + 2 := by
  obtain ⟨n, hn⟩ := Nat.exists_eq_succ_of_ne_zero (fun h0 => h (List.length_eq_zero_iff.mp h0))
  rw [bracketed, if_neg h]
  simp only [List.cons_append, List.length_cons, List.length_append, length_join, indent,
    List.length_replicate, List.length_nil, hn, Nat.succ_eq_add_one, Nat.add_sub_cancel]
  ring

theorem ascii_bracketed {opening closing depth : Nat} {parts : List Text} (ho : opening < 128)
    (hc : closing < 128) (hparts : ∀ part ∈ parts, IsAscii part) :
    IsAscii (bracketed opening closing depth parts) := by
  have hone : ∀ {u : Nat}, u < 128 → IsAscii [u] := fun hu v hv => by
    rw [List.mem_singleton.mp hv]
    exact hu
  unfold bracketed
  split
  · exact (hone ho).append (hone hc)
  · have hsep : IsAscii (44 :: 10 :: indent (depth + 1)) :=
      ((hone (by omega : (44 : Nat) < 128)).append (hone (by omega))).append (ascii_indent _)
    have hopen : IsAscii (opening :: 10 :: indent (depth + 1)) :=
      ((hone ho).append (hone (by omega))).append (ascii_indent _)
    have hclose : IsAscii (10 :: indent depth ++ [closing]) :=
      ((hone (by omega : (10 : Nat) < 128)).append (ascii_indent _)).append (hone hc)
    simpa [List.append_assoc] using (hopen.append (ascii_join hsep hparts)).append hclose

example : stringify (fun _ => js "7") (.arr [.num (.fin 7), .obj []]) = js "[\n  7,\n  \x7b\x7d\n]" := by
  decide +kernel

end BoredManager.Js
