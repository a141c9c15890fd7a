import BoredManager.Js.Bytes

/-! Base64: three bytes as four digits, the end padded, and back. -/
namespace BoredManager.Js

def base64Digit (n : Nat) : Nat :=
  if n < 26 then 65 + n
  else if n < 52 then 71 + n
  else if n < 62 then n - 4
  else if n = 62 then 43
  else 47

/-- Both alphabets are read. -/
def base64Value (u : Nat) : Option Nat :=
  if isUpper u then some (u - 65)
  else if isLower u then some (u - 71)
  else if isDigit u then some (u + 4)
  else if u = 43 ∨ u = 45 then some 62
  else if u = 47 ∨ u = 95 then some 63
  else none

/-- `buffer.toString('base64')`. -/
def toBase64 : Bytes → Text
  | a :: b :: c :: rest =>
    base64Digit (a / 4) :: base64Digit (a % 4 * 16 + b / 16) :: base64Digit (b % 16 * 4 + c / 64) ::
      base64Digit (c % 64) :: toBase64 rest
  | [a, b] => [base64Digit (a / 4), base64Digit (a % 4 * 16 + b / 16), base64Digit (b % 16 * 4), 61]
  | [a] => [base64Digit (a / 4), base64Digit (a % 4 * 16), 61, 61]
  | [] => []

/-- The bytes of digit values, four to three; what is left at the end gives whole bytes only. -/
def sextetBytes : List Nat → Bytes
  | x :: y :: z :: t :: rest =>
    (x * 4 + y / 16) :: (y % 16 * 16 + z / 4) :: (z % 4 * 64 + t) :: sextetBytes rest
  | [x, y, z] => [x * 4 + y / 16, y % 16 * 16 + z / 4]
  | [x, y] => [x * 4 + y / 16]
  | _ => []

/-- `Buffer.from(text, 'base64')`: up to the padding, and units that are no digits are passed over. -/
def ofBase64 (text : Text) : Bytes :=
  sextetBytes ((text.takeWhile fun u => u ≠ 61).filterMap base64Value)

theorem base64Value_digit {n : Nat} (h : n < 64) : base64Value (base64Digit n) = some n := by
  exact (by decide : ∀ n < 64, base64Value (base64Digit n) = some n) n h

theorem base64Digit_ne_pad {n : Nat} (h : n < 64) : base64Digit n ≠ 61 := by
  exact (by decide : ∀ n < 64, base64Digit n ≠ 61) n h

/-- The digit values that `toBase64` writes. -/
def sextets : Bytes → List Nat
  | a :: b :: c :: rest =>
    (a / 4) :: (a % 4 * 16 + b / 16) :: (b % 16 * 4 + c / 64) :: (c % 64) :: sextets rest
  | [a, b] => [a / 4, a % 4 * 16 + b / 16, b % 16 * 4]
  | [a] => [a / 4, a % 4 * 16]
  | [] => []

/-- The digits of a text up to its padding. -/
def base64Values (text : Text) : List Nat := (text.takeWhile fun u => u ≠ 61).filterMap base64Value

theorem base64Values_digit {n : Nat} (h : n < 64) (text : Text) :
    base64Values (base64Digit n :: text) = n :: base64Values text := by
  rw [base64Values, List.takeWhile_cons_of_pos (by simpa using base64Digit_ne_pad h),
    List.filterMap_cons, base64Value_digit h]
  rfl

theorem base64Values_toBase64 {bytes : Bytes} (h : ∀ b ∈ bytes, b < 256) :
    base64Values (toBase64 bytes) = sextets bytes := by
  induction bytes using toBase64.induct with
  | case1 a b c rest ih =>
    have ha := h a (by simp)
    have hb := h b (by simp)
    have hc := h c (by simp)
    rw [toBase64, base64Values_digit (by omega), base64Values_digit (by omega),
      base64Values_digit (by omega), base64Values_digit (by omega), ih fun x hx => h x (by simp [hx])]
    rfl
  | case2 a b =>
    have ha := h a (by simp)
    have hb := h b (by simp)
    rw [toBase64, base64Values_digit (by omega), base64Values_digit (by omega),
      base64Values_digit (by omega)]
    rfl
  | case3 a =>
    have ha := h a (by simp)
    rw [toBase64, base64Values_digit (by omega), base64Values_digit (by omega)]
    rfl
  | case4 => rfl

theorem sextetBytes_sextets {bytes : Bytes} (h : ∀ b ∈ bytes, b < 256) :
    sextetBytes (sextets bytes) = bytes := by
  induction bytes using sextets.induct with
  | case1 a b c rest ih =>
    have ha := h a (by simp)
    have hb := h b (by simp)
    have hc := h c (by simp)
    rw [sextets, sextetBytes, ih fun x hx => h x (by simp [hx])]
    congr 1
    · omega
    · congr 1
      · omega
      · congr 1
        omega
  | case2 a b =>
    have ha := h a (by simp)
    have hb := h b (by simp)
    rw [sextets, sextetBytes]
    congr 1
    · omega
    · congr 1
      omega
  | case3 a =>
    have ha := h a (by simp)
    rw [sextets, sextetBytes]
    congr 1
    omega
  | case4 => rfl

/-- Bytes are read back from their base64 text. -/
theorem ofBase64_toBase64 {bytes : Bytes} (h : ∀ b ∈ bytes, b < 256) :
    ofBase64 (toBase64 bytes) = bytes :=
  (congrArg sextetBytes (base64Values_toBase64 h)).trans (sextetBytes_sextets h)

end BoredManager.Js
