import BoredManager.Js.Number

/-! The values that `JSON.parse` returns, and the readings of a field that the
code makes: an absent field is `undefined`, here `none`. -/
namespace BoredManager.Js

inductive Json where
  | null
  | bool (b : Bool)
  | num (v : Number)
  | str (s : Text)
  | arr (items : List Json)
  | obj (fields : List (Text × Json))

namespace Json

/-- `typeof value === 'object' && value !== null && !Array.isArray(value)`. -/
def isRecord : Json → Bool
  | .obj _ => true
  | _ => false

/-- A property of a record; any other value has none of those the code reads. -/
def field? (key : Text) : Json → Option Json
  | .obj fields => (fields.find? fun f => decide (f.1 = key)).map Prod.snd
  | _ => none

/-- The items of an array; `none` for any other value. -/
def items? : Json → Option (List Json)
  | .arr items => some items
  | _ => none

end Json

def maxSafeNat : Nat := 9007199254740991

/-- `Number.isSafeInteger`, with the integer. -/
def Number.safeInteger? (v : Number) : Option Int :=
  v.integer?.filter fun z => decide (z.natAbs ≤ maxSafeNat)

end BoredManager.Js
