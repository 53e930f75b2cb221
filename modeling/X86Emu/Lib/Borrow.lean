import Mathlib.Data.Nat.Bitwise
import Mathlib.Tactic.Ring

/-!
# Borrows of a difference

`borrow i x y` is the borrow into bit `i` of `x - y`. It comes with the recursion over the bits of
the operands, the bits of the difference, and what the last two borrows say about the order of the
operands: the last one is the unsigned order, and they differ exactly when the signed difference
does not fit.
-/

namespace X86Emu.Lib

variable {w : Nat}

theorem toNat_fields {m n : Nat} (x : BitVec m) (y : BitVec n) :
    (x ++ y).toNat = x.toNat * 2 ^ n + y.toNat := by
  rw [BitVec.toNat_append, ← Nat.shiftLeft_add_eq_or_of_lt y.isLt, Nat.shiftLeft_eq]

/-- The borrow into bit `i` of `x - y`. -/
def borrow (i : Nat) (x y : BitVec w) : Bool := decide (x.toNat % 2 ^ i < y.toNat % 2 ^ i)

theorem toNat_mod_succ (x : BitVec w) (i : Nat) :
    x.toNat % 2 ^ (i + 1) = x.toNat % 2 ^ i + 2 ^ i * (x.getLsbD i).toNat := by
  have hbit : (x.getLsbD i).toNat = x.toNat / 2 ^ i % 2 := by
    rw [BitVec.getLsbD, Nat.testBit_eq_decide_div_mod_eq]
    have hlt := Nat.mod_lt (x.toNat / 2 ^ i) (by decide : 2 > 0)
    by_cases hone : x.toNat / 2 ^ i % 2 = 1
    · simp [hone]
    · simp [hone]
      omega
  rw [Nat.mod_pow_succ, hbit]

/-- The borrow out of a bit: the minuend is 0 and the subtrahend 1, or they are equal and there is a
borrow into it. -/
theorem borrow_succ (i : Nat) (x y : BitVec w) :
    borrow (i + 1) x y =
      (!x.getLsbD i && y.getLsbD i || (x.getLsbD i == y.getLsbD i) && borrow i x y) := by
  have hx := Nat.mod_lt x.toNat (Nat.two_pow_pos i)
  have hy := Nat.mod_lt y.toNat (Nat.two_pow_pos i)
  unfold borrow
  rw [toNat_mod_succ, toNat_mod_succ]
  cases x.getLsbD i <;> cases y.getLsbD i <;> simp <;> omega

/-- A carry of the sum of difference and subtrahend is a borrow. -/
theorem carry_sub (i : Nat) (hi : i ≤ w) (x y : BitVec w) :
    BitVec.carry i (x - y) y false = borrow i x y := by
  have hdvd : 2 ^ i ∣ 2 ^ w := Nat.pow_dvd_pow 2 hi
  have hsum : ((x - y).toNat % 2 ^ i + y.toNat % 2 ^ i) % 2 ^ i = x.toNat % 2 ^ i := by
    rw [← Nat.add_mod, ← Nat.mod_mod_of_dvd _ hdvd, ← BitVec.toNat_add, BitVec.sub_add_cancel]
  have hr := Nat.mod_lt (x - y).toNat (Nat.two_pow_pos i)
  have hy := Nat.mod_lt y.toNat (Nat.two_pow_pos i)
  unfold BitVec.carry borrow
  simp only [Bool.toNat_false, Nat.add_zero, ge_iff_le]
  rw [← hsum]
  generalize (x - y).toNat % 2 ^ i = r at hr ⊢
  generalize y.toNat % 2 ^ i = s at hy ⊢
  generalize 2 ^ i = n at hr hy ⊢
  rw [decide_eq_decide]
  by_cases hle : n ≤ r + s
  · rw [Nat.mod_eq_sub_mod hle, Nat.mod_eq_of_lt (by omega)]
    omega
  · rw [Nat.mod_eq_of_lt (by omega)]
    omega

/-- The bits of a difference. -/
theorem getLsbD_sub {i : Nat} (hi : i < w) (x y : BitVec w) :
    (x - y).getLsbD i = (x.getLsbD i ^^ (y.getLsbD i ^^ borrow i x y)) := by
  have hsum : (x - y + y).getLsbD i = x.getLsbD i := by rw [BitVec.sub_add_cancel]
  rw [BitVec.getLsbD_add hi, carry_sub i (Nat.le_of_lt hi)] at hsum
  rw [← hsum]
  cases (x - y).getLsbD i <;> cases y.getLsbD i <;> cases borrow i x y <;> rfl

/-- The majority form of the borrow out of bit `i`, from the bit of the difference. -/
theorem borrow_succ_eq_chain {i : Nat} (hi : i < w) (x y : BitVec w) :
    ((x - y).getLsbD i && (!x.getLsbD i || y.getLsbD i) || !x.getLsbD i && y.getLsbD i) =
      borrow (i + 1) x y := by
  rw [borrow_succ, getLsbD_sub hi]
  cases x.getLsbD i <;> cases y.getLsbD i <;> cases borrow i x y <;> rfl

/-- The last borrow is the unsigned order. -/
theorem borrow_width (x y : BitVec w) : borrow w x y = decide (x < y) := by
  unfold borrow
  rw [Nat.mod_eq_of_lt x.isLt, Nat.mod_eq_of_lt y.isLt]
  rfl

/-! ## The signed order -/

/-- The signed difference of `x` and `y` is one of the numbers of their width. -/
def FitsDiff (x y : BitVec w) : Prop :=
  -2 ^ (w - 1) ≤ x.toInt - y.toInt ∧ x.toInt - y.toInt < 2 ^ (w - 1)

/-- The value of the lower bits and the sign. -/
theorem toInt_eq_low (x : BitVec (w + 1)) :
    x.toInt = ((x.toNat % 2 ^ w : Nat) : Int) - ((2 ^ w * (x.getLsbD w).toNat : Nat) : Int) := by
  have hlow := toNat_mod_succ x w
  rw [Nat.mod_eq_of_lt x.isLt] at hlow
  have hlt := Nat.mod_lt x.toNat (Nat.two_pow_pos w)
  rw [BitVec.toInt_eq_toNat_cond, Nat.pow_succ']
  generalize 2 ^ w = n at *
  generalize x.getLsbD w = top at *
  cases top with
  | false =>
    simp only [Bool.toNat_false, Nat.mul_zero] at hlow ⊢
    rw [if_pos (by omega)]
    omega
  | true =>
    simp only [Bool.toNat_true, Nat.mul_one] at hlow ⊢
    rw [if_neg (by omega)]
    omega

section

variable (x y : BitVec (w + 1))

/-- The last two borrows differ when the signed difference does not fit. -/
theorem xor_borrow : (borrow w x y ^^ borrow (w + 1) x y) = true ↔ ¬FitsDiff x y := by
  have hx := Nat.mod_lt x.toNat (Nat.two_pow_pos w)
  have hy := Nat.mod_lt y.toNat (Nat.two_pow_pos w)
  have hcast : (2 : Int) ^ w = ((2 ^ w : Nat) : Int) := by norm_cast
  rw [borrow_succ]
  unfold borrow FitsDiff
  rw [toInt_eq_low, toInt_eq_low, Nat.add_sub_cancel, hcast]
  generalize 2 ^ w = n at *
  cases x.getLsbD w <;> cases y.getLsbD w <;> simp <;> omega

/-- The sign of the difference and the overflow give the signed order. -/
theorem sign_xor_overflow :
    ((x - y).getLsbD w ^^ (borrow w x y ^^ borrow (w + 1) x y)) = true ↔ x.toInt < y.toInt := by
  have hx := Nat.mod_lt x.toNat (Nat.two_pow_pos w)
  have hy := Nat.mod_lt y.toNat (Nat.two_pow_pos w)
  rw [getLsbD_sub (Nat.lt_succ_self w), borrow_succ]
  unfold borrow
  rw [toInt_eq_low, toInt_eq_low]
  generalize 2 ^ w = n at *
  cases x.getLsbD w <;> cases y.getLsbD w <;> simp <;> omega

end

end X86Emu.Lib
