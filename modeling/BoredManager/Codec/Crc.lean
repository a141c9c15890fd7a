import Mathlib.Algebra.Ring.Nat
import Mathlib.Data.List.GetD
import Mathlib.Tactic.Common

/-! Cyclic redundancy checks with the low bit first: a register that is shifted bit by bit,
and the table that shifts a whole byte at once. -/
namespace BoredManager.Crc
variable {w : Nat} (poly : BitVec w)

/-- One bit out of the register. -/
def shift (x : BitVec w) : BitVec w :=
  if x.getLsbD 0 then poly ^^^ (x >>> 1) else x >>> 1

def shifts : Nat → BitVec w → BitVec w
  | 0, x => x
  | n+1, x => shifts n (shift poly x)

/-- A byte that enters the register and is shifted out bit by bit. -/
def serialByte (crc : BitVec w) (byte : Nat) : BitVec w := shifts poly 8 (crc ^^^ BitVec.ofNat w byte)

/-- What each value of the low byte becomes. -/
def table : List (BitVec w) := (List.range 256).map fun n => shifts poly 8 (BitVec.ofNat w n)

def tableByte (crc : BitVec w) (byte : Nat) : BitVec w :=
  (table poly).getD ((crc ^^^ BitVec.ofNat w byte) &&& 255#w).toNat 0#w ^^^ (crc >>> 8)

variable {poly}

theorem shift_xor (a b : BitVec w) : shift poly (a ^^^ b) = shift poly a ^^^ shift poly b := by
  have hcancel : ∀ p q r : BitVec w, p ^^^ q ^^^ (p ^^^ r) = q ^^^ r := fun p q r => by
    rw [BitVec.xor_assoc, ← BitVec.xor_assoc q p r, BitVec.xor_comm q p, BitVec.xor_assoc p q r,
      ← BitVec.xor_assoc p p, BitVec.xor_self, BitVec.zero_xor]
  simp only [shift, BitVec.getLsbD_xor, BitVec.ushiftRight_xor_distrib]
  cases ha : a.getLsbD 0 <;> cases hb : b.getLsbD 0
  · simp
  · simp only [Bool.bne_true, Bool.not_false, if_true, Bool.false_eq_true, if_false]
    rw [← BitVec.xor_assoc, BitVec.xor_comm poly, BitVec.xor_assoc]
  · simp only [Bool.bne_false, if_true, Bool.false_eq_true, if_false, BitVec.xor_assoc]
  · simp only [Bool.bne_true, Bool.not_true, if_true, Bool.false_eq_true, if_false]
    exact (hcancel poly _ _).symm

theorem shifts_xor (n : Nat) (a b : BitVec w) :
    shifts poly n (a ^^^ b) = shifts poly n a ^^^ shifts poly n b := by
  induction n generalizing a b with
  | zero => rfl
  | succ n ih => rw [shifts, shift_xor, ih, shifts, shifts]

/-- A register with low zeros is only shifted. -/
theorem shifts_high {n : Nat} {x : BitVec w} (h : ∀ i < n, x.getLsbD i = false) :
    shifts poly n x = x >>> n := by
  induction n generalizing x with
  | zero => simp [shifts]
  | succ n ih =>
    have hshift : shift poly x = x >>> 1 := by
      rw [shift, h 0 (Nat.succ_pos n)]
      rfl
    rw [shifts, hshift, ih fun i hi => ?_, ← BitVec.shiftRight_add, Nat.add_comm]
    rw [BitVec.getLsbD_ushiftRight]
    exact h (1 + i) (by omega)

theorem lt_pow {n k : Nat} (hn : n < 256) (hk : 8 ≤ k) : n < 2 ^ k :=
  Nat.lt_of_lt_of_le hn (Nat.pow_le_pow_right (by omega) hk : 2 ^ 8 ≤ 2 ^ k)

theorem getLsbD_255 (hw : 8 ≤ w) (i : Nat) : (255#w).getLsbD i = decide (i < 8) := by
  rw [BitVec.getLsbD_ofNat]
  by_cases hi : i < 8
  · have hlow : ∀ j < 8, (255 : Nat).testBit j = true := by decide
    simp [hi, hlow i hi]
    omega
  · have hhigh : (255 : Nat).testBit i = false :=
      Nat.testBit_lt_two_pow (lt_pow (by decide) (by omega))
    simp [hi, hhigh]

/-- The table does for a byte what eight shifts of the register do. -/
theorem tableByte_eq (hw : 8 ≤ w) (crc : BitVec w) (byte : Nat) (hbyte : byte < 256) :
    tableByte poly crc byte = serialByte poly crc byte := by
  have hlow : ∀ x : BitVec w, (x &&& 255#w).toNat < 256 := fun x => by
    have h255 : (255#w).toNat = 255 := by
      rw [BitVec.toNat_ofNat]
      exact Nat.mod_eq_of_lt (lt_pow (by decide) hw)
    have hle := Nat.and_le_right (n := x.toNat) (m := (255#w).toNat)
    rw [BitVec.toNat_and]
    omega
  have hlookup : ∀ x : BitVec w, (table poly).getD (x &&& 255#w).toNat 0#w =
      shifts poly 8 (x &&& 255#w) := fun x => by
    have hlt := hlow x
    rw [table, List.getD_eq_getElem _ _ (by simpa using hlt), List.getElem_map, List.getElem_range,
      BitVec.ofNat_toNat, BitVec.setWidth_eq]
  have hsplit : ∀ x : BitVec w, x = (x &&& 255#w) ^^^ (x &&& ~~~255#w) := fun x => by
    ext i hi
    simp only [BitVec.getElem_xor, BitVec.getElem_and, BitVec.getElem_not]
    cases x[i] <;> cases (255#w)[i] <;> rfl
  have hhigh : ∀ x : BitVec w, shifts poly 8 (x &&& ~~~255#w) = x >>> 8 := fun x => by
    rw [shifts_high fun i hi => ?_]
    · ext i hi
      simp only [BitVec.getElem_ushiftRight, BitVec.getLsbD_and, BitVec.getLsbD_not,
        getLsbD_255 hw]
      by_cases hin : 8 + i < w
      · simp [hin]
      · simp [BitVec.getLsbD_of_ge x (8 + i) (by omega)]
    · rw [BitVec.getLsbD_and, BitVec.getLsbD_not, getLsbD_255 hw]
      simp [hi]
  -- the byte does not reach the bits above the lowest eight
  have hbyteHigh : BitVec.ofNat w byte >>> 8 = 0#w := by
    ext i hi
    rw [BitVec.getElem_ushiftRight, BitVec.getLsbD_ofNat,
      Nat.testBit_lt_two_pow (lt_pow hbyte (by omega))]
    simp
  rw [tableByte, hlookup, serialByte]
  conv_rhs => rw [hsplit (crc ^^^ BitVec.ofNat w byte), shifts_xor, hhigh,
    BitVec.ushiftRight_xor_distrib, hbyteHigh, BitVec.xor_zero]

end BoredManager.Crc
