import X86Emu.Alu.Compare
import X86Emu.Alu.Shift

/-!
# Bits of shifted values

The shift and rotate functions work on 32 bit values. These are the bits of what they are made of:
the widened operand, shifts by less than 32, masks and single bits.
-/

namespace X86Emu

open Lib

theorem getLsbD_widen {w : Nat} (hw : w ≤ 32) (d : BitVec w) (i : Nat) :
    (widen d).getLsbD i = d.getLsbD i := by
  unfold widen
  rw [BitVec.getLsbD_setWidth]
  by_cases hi : i < 32
  · simp [hi]
  · simp [hi, BitVec.getLsbD_of_ge d i (by omega)]

theorem cut_widen {w : Nat} (hw : w ≤ 32) (d : BitVec w) : (widen d).setWidth w = d := by
  apply BitVec.eq_of_getLsbD_eq
  intro i hi
  rw [BitVec.getLsbD_setWidth, getLsbD_widen hw, decide_eq_true hi, Bool.true_and]

theorem getLsbD_cShl {n i : Nat} (x : U32) (hn : n < 32) (hi : i < 32) :
    (cShl x n).getLsbD i = (decide (n ≤ i) && x.getLsbD (i - n)) := by
  unfold cShl
  rw [Nat.mod_eq_of_lt hn, BitVec.getLsbD_shiftLeft]
  by_cases h : i < n
  · simp [h, hi, Nat.not_le_of_lt h]
  · simp [h, hi, Nat.le_of_not_lt h]

theorem getLsbD_cShr {n : Nat} (x : U32) (hn : n < 32) (i : Nat) :
    (cShr x n).getLsbD i = x.getLsbD (n + i) := by
  unfold cShr
  rw [Nat.mod_eq_of_lt hn, BitVec.getLsbD_ushiftRight]

theorem cShl_one {n : Nat} (hn : n < 32) : cShl 1 n = BitVec.twoPow 32 n := by
  unfold cShl
  rw [Nat.mod_eq_of_lt hn, BitVec.twoPow_eq]
  rfl

theorem getLsbD_cShl_one {n : Nat} (hn : n < 32) (i : Nat) :
    (cShl 1 n).getLsbD i = decide (i = n) := by
  rw [cShl_one hn, BitVec.getLsbD_twoPow]
  by_cases h : i = n
  · simp [h, hn]
  · simp [h, Ne.symm h]

/-- The low `n` bits. -/
theorem getLsbD_mask {n : Nat} (hn : n < 32) (i : Nat) :
    (cShl 1 n - 1).getLsbD i = decide (i < n) := by
  have hpow : 2 ^ n < 2 ^ 32 := Nat.pow_lt_pow_right (by decide) hn
  have hpos := Nat.two_pow_pos n
  have hval : (cShl 1 n - 1).toNat = 2 ^ n - 1 := by
    rw [cShl_one hn, BitVec.toNat_sub, BitVec.toNat_twoPow, Nat.mod_eq_of_lt hpow]
    show (2 ^ 32 - 1 + 2 ^ n) % 2 ^ 32 = _
    omega
  rw [BitVec.getLsbD, hval, Nat.testBit_two_pow_sub_one]

/-- The test of one bit. -/
theorem and_cShl_one {n : Nat} (x : U32) (hn : n < 32) :
    decide (x &&& cShl 1 n ≠ 0) = x.getLsbD n := by
  have htwo : (BitVec.twoPow 32 n).getLsbD n = true := by
    rw [BitVec.getLsbD_twoPow]
    simp [hn]
  have hne : BitVec.twoPow 32 n ≠ 0#32 := by
    intro hzero
    rw [hzero, BitVec.getLsbD_zero] at htwo
    cases htwo
  rw [cShl_one hn, BitVec.and_twoPow]
  cases hbit : x.getLsbD n with
  | true => simp [hne]
  | false => simp

end X86Emu
