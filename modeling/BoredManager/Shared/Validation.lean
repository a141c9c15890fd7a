import BoredManager.Js.Json
import BoredManager.Js.OrderedMap

/-! The runtime guards that settings and protocol values go through. A field that is
absent is `undefined`, here `none`. -/
namespace BoredManager.Shared
open BoredManager.Js

def asRecord (value : Option Json) : Json :=
  match value with
  | some (.obj fields) => .obj fields
  | _ => .obj []

/-- `Object.entries(asRecord(value))` -/
def entriesOf (value : Option Json) : List (Text × Json) :=
  match value with
  | some (.obj fields) => fields
  | _ => []

/-- `Math.trunc` of a finite number. -/
def truncated (value : Option Json) : Option Int :=
  match value with
  | some (.num v) => v.finite?.map Number.truncRat
  | _ => none

def boundedInteger (value : Option Json) (lo hi : Int) : Option Int :=
  (truncated value).filter fun z => decide (lo ≤ z) && decide (z ≤ hi)

def finiteInteger (value : Option Json) (fallback lo hi : Int) : Int :=
  (boundedInteger value lo hi).getD fallback

/-- A finite whole number within a range. -/
def isIntegerIn (value : Option Json) (lo hi : Int) : Bool :=
  match value with
  | some (.num v) =>
    match v.integer? with
    | some z => decide (lo ≤ z) && decide (z ≤ hi)
    | none => false
  | _ => false

def booleanOr (value : Option Json) (fallback : Bool) : Bool :=
  match value with
  | some (.bool b) => b
  | _ => fallback

def oneOf (value : Option Json) (choices : List Text) (fallback : Text) : Text :=
  match value with
  | some (.str s) => if s ∈ choices then s else fallback
  | _ => fallback

def stringValue (value : Option Json) (fallback : Text) (trims allowEmpty : Bool)
    (maxLength : Nat) : Text :=
  match value with
  | some (.str s) =>
    let text := if trims then trim s else s
    if !allowEmpty && text.isEmpty then fallback
    else if maxLength < text.length then fallback
    else text
  | _ => fallback

def jsonInt (z : Int) : Json := .num (.ofInt z)

@[simp] theorem truncated_jsonInt (z : Int) : truncated (some (jsonInt z)) = some z := by
  simp [truncated, jsonInt, Number.ofInt, Number.finite?, Number.truncRat]

theorem boundedInteger_jsonInt {z lo hi : Int} (hlo : lo ≤ z) (hhi : z ≤ hi) :
    boundedInteger (some (jsonInt z)) lo hi = some z := by
  simp [boundedInteger, hlo, hhi]

theorem boundedInteger_mem {value : Option Json} {z lo hi : Int}
    (h : boundedInteger value lo hi = some z) : lo ≤ z ∧ z ≤ hi := by
  have := (Option.filter_eq_some_iff.mp h).2
  simpa using this

theorem finiteInteger_jsonInt {z lo hi : Int} (fallback : Int) (h : lo ≤ z ∧ z ≤ hi) :
    finiteInteger (some (jsonInt z)) fallback lo hi = z := by
  rw [finiteInteger, boundedInteger_jsonInt h.1 h.2, Option.getD_some]

/-- A default within its own range keeps the result there. -/
theorem finiteInteger_mem (value : Option Json) {fallback lo hi : Int}
    (h : lo ≤ fallback ∧ fallback ≤ hi) :
    lo ≤ finiteInteger value fallback lo hi ∧ finiteInteger value fallback lo hi ≤ hi := by
  unfold finiteInteger
  cases hb : boundedInteger value lo hi with
  | none => exact h
  | some z => exact boundedInteger_mem hb

theorem isIntegerIn_jsonInt {z lo hi : Int} (h : lo ≤ z ∧ z ≤ hi) :
    isIntegerIn (some (jsonInt z)) lo hi = true := by
  simp [isIntegerIn, jsonInt, h.1, h.2]

theorem oneOf_str {choices : List Text} {s : Text} (fallback : Text) (h : s ∈ choices) :
    oneOf (some (.str s)) choices fallback = s := by
  simp [oneOf, h]

theorem oneOf_mem (value : Option Json) {choices : List Text} {fallback : Text}
    (h : fallback ∈ choices) : oneOf value choices fallback ∈ choices := by
  unfold oneOf
  split
  · split
    · assumption
    · exact h
  · exact h

/-- What a text that `stringValue` returned looks like. -/
def IsStringValue (trims allowEmpty : Bool) (maxLength : Nat) (text : Text) : Prop :=
  (trims = true → trim text = text) ∧ (allowEmpty = false → text ≠ []) ∧ text.length ≤ maxLength

theorem stringValue_of_isStringValue {trims allowEmpty : Bool} {maxLength : Nat} {text : Text}
    (fallback : Text) (h : IsStringValue trims allowEmpty maxLength text) :
    stringValue (some (.str text)) fallback trims allowEmpty maxLength = text := by
  obtain ⟨htrim, hempty, hlength⟩ := h
  have htext : (if trims then trim text else text) = text := by
    cases trims
    · rfl
    · exact htrim rfl
  have hne : (!allowEmpty && text.isEmpty) = false := by
    cases allowEmpty
    · simpa using hempty rfl
    · rfl
  simp only [stringValue, htext, hne, Bool.false_eq_true, if_false, if_neg (Nat.not_lt.mpr hlength)]

theorem isStringValue_stringValue (value : Option Json) {fallback : Text} {trims allowEmpty : Bool}
    {maxLength : Nat} (h : IsStringValue trims allowEmpty maxLength fallback) :
    IsStringValue trims allowEmpty maxLength
      (stringValue value fallback trims allowEmpty maxLength) := by
  cases value with
  | none => exact h
  | some v =>
    cases v with
    | str s =>
      have htrim : trims = true → trim (if trims then trim s else s) = if trims then trim s else s := by
        rintro rfl
        exact trim_trim s
      simp only [stringValue]
      generalize (if trims then trim s else s) = text at htrim ⊢
      split
      · exact h
      · rename_i hne
        split
        · exact h
        · rename_i hlen
          exact ⟨htrim, fun ha => by simpa [ha] using hne, Nat.le_of_not_lt hlen⟩
    | _ => exact h

theorem length_stringValue_le (value : Option Json) {fallback : Text} {trims allowEmpty : Bool}
    {maxLength : Nat} (h : fallback.length ≤ maxLength) :
    (stringValue value fallback trims allowEmpty maxLength).length ≤ maxLength := by
  cases value with
  | none => exact h
  | some v =>
    cases v with
    | str s =>
      simp only [stringValue]
      generalize (if trims then trim s else s) = text
      split
      · exact h
      · split
        · exact h
        · rename_i hlen
          exact Nat.le_of_not_lt hlen
    | _ => exact h

end BoredManager.Shared
