import X86Emu.Lib.Carry
import X86Emu.Lib.Rotate

/-!
# Truncating division

Quotient and remainder of a division that rounds to zero, the operands on which the division of C
has a value, and the parts of a wide quotient and remainder that fit in fewer bits.
-/

namespace X86Emu.Lib

/-- Operands of `/` and `%` of C after the conversions; both are undefined on the same ones. -/
structure CDivision where
  signed : Bool
  width : Nat
  num : BitVec width
  den : BitVec width
  deriving DecidableEq, Repr

/-- The value of `/`, where it is defined. -/
def CDivision.quot (c : CDivision) : BitVec c.width :=
  if c.signed then c.num.sdiv c.den else c.num / c.den

/-- The value of `%`, where it is defined. -/
def CDivision.rem (c : CDivision) : BitVec c.width :=
  if c.signed then c.num.srem c.den else c.num % c.den

structure CDivision.Defined (c : CDivision) : Prop where
  den_ne : c.den ≠ 0
  fits : c.signed = true → ¬(c.num = BitVec.intMin c.width ∧ c.den = -1)

/-- The remainder is smaller than the divisor, and 0 or of the sign of the dividend. -/
structure QuotRem (d s q r : Int) : Prop where
  split : d = q * s + r
  small : r.natAbs < s.natAbs
  sign : r = 0 ∨ r.sign = d.sign

theorem quotRem_trunc (d : Int) {s : Int} (hs : s ≠ 0) : QuotRem d s (d.tdiv s) (d.tmod s) where
  split := (Int.tdiv_mul_add_tmod d s).symm
  small := by
    rw [Int.natAbs_tmod]
    exact Nat.mod_lt _ (Int.natAbs_pos.mpr hs)
  sign := by
    rw [Int.sign_tmod]
    split
    case isTrue hdvd => exact Or.inl (Int.tmod_eq_zero_of_dvd hdvd)
    case isFalse => exact Or.inr rfl

/-- Numbers without sign. -/
theorem quotRem_nat (d : Nat) {s : Nat} (hs : s ≠ 0) :
    QuotRem d s ((d / s : Nat) : Int) ((d % s : Nat) : Int) := by
  have hquot := quotRem_trunc d (s := s) (by omega)
  rw [← Int.ofNat_tdiv, ← Int.ofNat_tmod] at hquot
  exact hquot

/-- A multiple of the divisor has no remainder. -/
theorem QuotRem.of_mul {a s q r : Int} (hs : s ≠ 0) (h : QuotRem (a * s) s q r) :
    q = a ∧ r = 0 := by
  have hrem : r = (a - q) * s := by
    rw [Int.sub_mul, h.split]
    omega
  have hdvd : s ∣ r := ⟨a - q, hrem.trans (Int.mul_comm _ _)⟩
  have hzero : r = 0 := Int.eq_zero_of_dvd_of_natAbs_lt_natAbs hdvd h.small
  have hsplit := h.split
  rw [hzero, Int.add_zero] at hsplit
  exact ⟨(Int.eq_of_mul_eq_mul_right hs hsplit).symm, hzero⟩

variable {n w : Nat}

/-- The remainder by a number of `w` bits is one. -/
theorem fits_tmod (d : Int) {s : BitVec w} (hs : s.toInt ≠ 0) : FitsSigned w (d.tmod s.toInt) := by
  have hsmall := (quotRem_trunc d hs).small
  have hlow := BitVec.le_toInt s
  have hhigh := BitVec.toInt_lt (x := s)
  unfold FitsSigned
  omega

/-- A number of `w` bits is kept when it is cut to `w` bits. -/
theorem toInt_cut (hw : w ≤ n) {x : BitVec n} (hpos : 0 < w) (hx : FitsSigned w x.toInt) :
    (x.setWidth w).toInt = x.toInt := by
  obtain ⟨hlow, hhigh⟩ := hx
  have hpow : (2 : Int) ^ w = 2 * 2 ^ (w - 1) := by
    obtain ⟨k, rfl⟩ : ∃ k, w = k + 1 := ⟨w - 1, by omega⟩
    rw [Int.pow_succ, Nat.add_sub_cancel, Int.mul_comm]
  rw [← BitVec.signExtend_eq_setWidth_of_le _ hw, BitVec.toInt_signExtend_eq_toInt_bmod_of_le _ hw]
  apply Int.bmod_eq_of_le
  · push_cast
    omega
  · push_cast
    omega

theorem toInt_neg_one (hpos : 0 < w) : (-1 : BitVec w).toInt = -1 := by
  rw [show (-1 : BitVec w) = BitVec.allOnes w from BitVec.neg_one_eq_allOnes,
    BitVec.toInt_allOnes, if_pos hpos]

/-- What is left after a shift by `k` bits says whether the number is one of `k + 1` bits. -/
theorem sshiftRight_fits (hpos : 0 < w) (x : BitVec w) (k : Nat) :
    x.sshiftRight k = 0 ∨ x.sshiftRight k = -1 ↔ -2 ^ k ≤ x.toInt ∧ x.toInt < 2 ^ k := by
  have hp : (0 : Int) < 2 ^ k := Int.pow_pos (by decide)
  obtain ⟨hzero, hneg⟩ := ediv_eq_zero_or x.toInt hp
  rw [← BitVec.toInt_inj, ← BitVec.toInt_inj, toInt_neg_one hpos, BitVec.toInt_sshiftRight,
    Int.shiftRight_eq_div_pow]
  push_cast
  rw [show (0 : BitVec w).toInt = 0 from BitVec.toInt_zero, hzero, hneg]
  omega

/-! ## Double width products -/

theorem toNat_mul_wide (a s : BitVec w) :
    (a.setWidth (2 * w) * s.setWidth (2 * w)).toNat = a.toNat * s.toNat := by
  have hle : w ≤ 2 * w := by omega
  have hlt : a.toNat * s.toNat < 2 ^ (2 * w) := by
    rw [Nat.two_mul, Nat.pow_add]
    exact Nat.mul_lt_mul'' a.isLt s.isLt
  rw [BitVec.toNat_mul, BitVec.toNat_setWidth_of_le hle, BitVec.toNat_setWidth_of_le hle,
    Nat.mod_eq_of_lt hlt]

/-- The product of two numbers with sign stays away from the most negative one. -/
theorem toInt_mul_fits (a s : BitVec w) :
    -2 ^ (2 * w - 2) ≤ a.toInt * s.toInt ∧ a.toInt * s.toInt ≤ 2 ^ (2 * w - 2) := by
  rw [Nat.mul_comm 2 w]
  exact ⟨BitVec.le_toInt_mul_toInt, BitVec.toInt_mul_toInt_le⟩

theorem toInt_mul_wide (hpos : 0 < w) (a s : BitVec w) :
    (a.signExtend (2 * w) * s.signExtend (2 * w)).toInt = a.toInt * s.toInt := by
  obtain ⟨hlow, hhigh⟩ := toInt_mul_fits a s
  have hle : w ≤ 2 * w := by omega
  have hpow : (2 : Int) ^ (2 * w) = 4 * 2 ^ (2 * w - 2) := by
    obtain ⟨k, hk⟩ : ∃ k, 2 * w = k + 2 := ⟨2 * w - 2, by omega⟩
    rw [hk, Nat.add_sub_cancel, Int.pow_succ, Int.pow_succ]
    omega
  have hquarter : (0 : Int) < 2 ^ (2 * w - 2) := Int.pow_pos (by decide)
  rw [BitVec.toInt_mul, BitVec.toInt_signExtend_of_le hle, BitVec.toInt_signExtend_of_le hle]
  apply Int.bmod_eq_of_le
  · push_cast
    omega
  · push_cast
    omega

end X86Emu.Lib
