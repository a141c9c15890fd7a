import BoredManager.Js.Text
import Mathlib.Algebra.Order.Floor.Ring
import Mathlib.Data.Rat.Floor

/-! JavaScript numbers: finite doubles as the rationals they are (the two zeros
are one value), the infinities and `NaN`; and the `Number(text)` conversion. -/
namespace BoredManager.Js

inductive Number where
  | fin (q : ℚ)
  | inf (negative : Bool)
  | nan
deriving DecidableEq

namespace Number

def ofInt (z : Int) : Number := .fin z

/-- `Number.isFinite`. -/
def finite? : Number → Option ℚ
  | .fin q => some q
  | _ => none

/-- `Number.isInteger`, with the integer. -/
def integer? : Number → Option Int
  | .fin q => if q.den = 1 then some q.num else none
  | _ => none

/-- `Math.trunc` of a finite number. -/
def truncRat (q : ℚ) : Int := q.num.tdiv q.den

@[simp] theorem integer?_ofInt (z : Int) : (ofInt z).integer? = some z := by simp [ofInt, integer?]

theorem integer?_eq_some {v : Number} {z : Int} : v.integer? = some z ↔ v = ofInt z := by
  refine ⟨fun h => ?_, fun h => h ▸ integer?_ofInt z⟩
  cases v with
  | fin q =>
    simp only [integer?] at h
    split at h
    · rename_i hd
      cases h
      rw [ofInt, Rat.coe_int_num_of_den_eq_one hd]
    · cases h
  | inf b => cases h
  | nan => cases h

/-- The exponent of the binade of a positive fraction `n / d`. -/
def binade (n d : Nat) : Int :=
  let e : Int := n.log2 - d.log2
  if n * 2 ^ (-e).toNat < d * 2 ^ e.toNat then e - 1 else e

/-- The nearest integer, a tie going to the even one. -/
def roundEven (q : ℚ) : Int :=
  let f := ⌊q⌋
  let r := q - f
  if r < 1/2 then f else if 1/2 < r then f + 1 else if f % 2 = 0 then f else f + 1

/-- The double nearest to a rational. -/
def ofRat (q : ℚ) : Number :=
  if q = 0 then .fin 0
  else
    let e := max (binade q.num.natAbs q.den - 52) (-1074)
    let r : ℚ := roundEven (q / (2 : ℚ) ^ e) * (2 : ℚ) ^ e
    if (2 : ℚ) ^ (1024 : Int) ≤ |r| then .inf (decide (r < 0)) else .fin r

/-- The double nearest to a rational within the range of doubles. -/
def double (q : ℚ) : ℚ := ((ofRat q).finite?).getD 0

/-- `Math.round`. -/
def roundInt (q : ℚ) : Int := ⌊q + 1/2⌋

def digitValue (u : Nat) : Option Nat :=
  if isDigit u then some (u - 48)
  else if isLower u then some (u - 87)
  else if isUpper u then some (u - 55)
  else none

/-- The value of a nonempty run of digits of a radix. -/
def radixValue (r : Nat) (s : Text) : Option Nat :=
  if s = [] then none
  else s.foldl (fun acc u => do
    let d ← digitValue u
    let a ← acc
    if d < r then some (a * r + d) else none) (some 0)

def splitSign : Text → Bool × Text
  | 45 :: s => (true, s)
  | 43 :: s => (false, s)
  | s => (false, s)

/-- An unsigned decimal literal, or `none`. -/
def decimalLiteral (s : Text) : Option Number :=
  if s = js "Infinity" then some (.inf false)
  else
    let whole := s.takeWhile isDigit
    let rest := s.dropWhile isDigit
    let frac := match rest with
      | 46 :: r => r.takeWhile isDigit
      | _ => []
    let rest := match rest with
      | 46 :: r => r.dropWhile isDigit
      | r => r
    let exponent : Option Int := match rest with
      | [] => some 0
      | e :: r =>
        if e = 101 ∨ e = 69 then
          let (negative, ds) := splitSign r
          if ds.all isDigit then
            (radixValue 10 ds).map fun n => if negative then -(n : Int) else n
          else none
        else none
    match radixValue 10 (whole ++ frac), exponent with
    | some m, some x => some (ofRat (m * (10 : ℚ) ^ (x - frac.length)))
    | _, _ => none

def neg : Number → Number
  | .fin q => .fin (-q)
  | .inf b => .inf !b
  | .nan => .nan

/-- `Number(text)`. -/
def ofText (text : Text) : Number :=
  let s := trim text
  match s with
  | [] => .fin 0
  | 48 :: x :: ds =>
    let radix := if x = 120 ∨ x = 88 then 16 else if x = 111 ∨ x = 79 then 8
      else if x = 98 ∨ x = 66 then 2 else 0
    if radix = 0 then (decimalLiteral s).getD .nan
    else match radixValue radix ds with
      | some n => ofRat n
      | none => .nan
  | _ =>
    let (negative, ds) := splitSign s
    match decimalLiteral ds with
    | some v => if negative then neg v else v
    | none => .nan

/-- A literal with its sign, when it is the whole text. -/
def signedLiteral (s : Text) : Option Number :=
  let (negative, rest) := splitSign s
  (decimalLiteral rest).map fun v => if negative then v.neg else v

/-- `Number.parseFloat(text)`: the longest beginning that is a literal. -/
def parseFloat (text : Text) : Number :=
  ((text.dropWhile isSpace).inits.reverse.findSome? signedLiteral).getD .nan

/-- `a + b`. -/
def add : Number → Number → Number
  | .fin p, .fin q => ofRat (p + q)
  | .inf a, .inf b => if a = b then .inf a else .nan
  | .inf a, .fin _ => .inf a
  | .fin _, .inf b => .inf b
  | _, _ => .nan

/-- `a < b`; a comparison with `NaN` is false. -/
def lt : Number → Number → Bool
  | .fin p, .fin q => decide (p < q)
  | .inf a, .inf b => a && !b
  | .inf a, .fin _ => a
  | .fin _, .inf b => !b
  | _, _ => false

/-- `Math.max` of two numbers that are none of them `NaN`. -/
def maximum (a b : Number) : Number := if a.lt b then b else a

end Number
end BoredManager.Js
