import X86Emu.Lib.Borrow

/-!
# Carries of a sum

The carries of a sum with a carry in, `BitVec.carry`, in the majority form that has the bits of
the result in place of the carries in, and what three of them say about the operands as numbers:
the one out of bit 3 about their low digits, the last one about the numbers without sign and the
last two about the numbers with sign. A difference with a borrow in is the sum with the
complement.
-/

namespace X86Emu.Lib

variable {w : Nat}

/-- The numbers of `w` bits without sign. -/
def FitsUnsigned (w : Nat) (v : Int) : Prop := 0 ≤ v ∧ v < 2 ^ w

/-- The numbers of `w` bits with sign. -/
def FitsSigned (w : Nat) (v : Int) : Prop := -2 ^ (w - 1) ≤ v ∧ v < 2 ^ (w - 1)

def unsigned (x : BitVec w) : Int := x.toNat

/-- The low hexadecimal digit. -/
def nibble (x : BitVec w) : Int := (x.toNat % 16 : Nat)

/-- A carry or borrow as a word. -/
def bit (w : Nat) (c : Bool) : BitVec w := (BitVec.ofBool c).setWidth w

/-- The majority form of the carry out of bit `i`, from the bit of the sum. -/
theorem carry_succ_eq_chain {i : Nat} (hi : i < w) (x y : BitVec w) (c : Bool) :
    (y.getLsbD i && x.getLsbD i ||
        !(x + y + bit w c).getLsbD i && (y.getLsbD i || x.getLsbD i)) =
      BitVec.carry (i + 1) x y c := by
  unfold bit
  rw [BitVec.carry_succ, BitVec.getLsbD_add_add_bool hi]
  cases x.getLsbD i <;> cases y.getLsbD i <;> cases BitVec.carry i x y c <;> rfl

theorem carry_iff (i : Nat) (x y : BitVec w) (c : Bool) :
    BitVec.carry i x y c = true ↔ 2 ^ i ≤ x.toNat % 2 ^ i + y.toNat % 2 ^ i + c.toNat := by
  unfold BitVec.carry
  rw [decide_eq_true_eq]

/-! ## What the carries say -/

theorem carry_nibble (x y : BitVec w) (c : Bool) :
    BitVec.carry 4 x y c = true ↔ ¬FitsUnsigned 4 (nibble x + nibble y + c.toNat) := by
  rw [carry_iff]
  unfold FitsUnsigned nibble
  omega

theorem carry_unsigned (x y : BitVec w) (c : Bool) :
    BitVec.carry w x y c = true ↔ ¬FitsUnsigned w (unsigned x + unsigned y + c.toNat) := by
  have hcast : (2 : Int) ^ w = ((2 ^ w : Nat) : Int) := by norm_cast
  rw [carry_iff, Nat.mod_eq_of_lt x.isLt, Nat.mod_eq_of_lt y.isLt]
  unfold FitsUnsigned unsigned
  rw [hcast]
  omega

/-- The last two carries differ when the signed sum does not fit. -/
theorem carry_signed (x y : BitVec (w + 1)) (c : Bool) :
    (BitVec.carry w x y c ^^ BitVec.carry (w + 1) x y c) = true ↔
      ¬FitsSigned (w + 1) (x.toInt + y.toInt + c.toNat) := by
  have hx := Nat.mod_lt x.toNat (Nat.two_pow_pos w)
  have hy := Nat.mod_lt y.toNat (Nat.two_pow_pos w)
  have hc : c.toNat ≤ 1 := c.toNat_le
  have hcast : (2 : Int) ^ w = ((2 ^ w : Nat) : Int) := by norm_cast
  rw [BitVec.carry_succ]
  unfold BitVec.carry FitsSigned
  rw [toInt_eq_low, toInt_eq_low, Nat.add_sub_cancel, hcast]
  generalize 2 ^ w = n at *
  cases x.getLsbD w <;> cases y.getLsbD w <;> simp [Bool.atLeastTwo] <;> omega

/-! ## Differences -/

/-- The borrow into bit `i` of `x - y - b`. -/
def borrowIn (i : Nat) (x y : BitVec w) (b : Bool) : Bool :=
  decide (x.toNat % 2 ^ i < y.toNat % 2 ^ i + b.toNat)

theorem bit_true (w : Nat) : bit w true = 1 := by
  apply BitVec.eq_of_toNat_eq
  simp [bit]

theorem bit_false (w : Nat) : bit w false = 0 := by
  apply BitVec.eq_of_toNat_eq
  simp [bit]

/-- A difference is the sum with the complement. -/
theorem sub_eq_add_not (x y : BitVec w) (b : Bool) :
    x - y - bit w b = x + ~~~y + bit w (!b) := by
  have hnot : ~~~y + 1 = -y := (BitVec.neg_eq_not_add y).symm
  cases b with
  | true =>
    rw [Bool.not_true, bit_true, bit_false]
    grind
  | false =>
    rw [Bool.not_false, bit_true, bit_false]
    grind

theorem toNat_not_mod {i : Nat} (hi : i ≤ w) (y : BitVec w) :
    (~~~y).toNat % 2 ^ i = 2 ^ i - 1 - y.toNat % 2 ^ i := by
  have hy := y.isLt
  have hlt := Nat.mod_lt y.toNat (Nat.two_pow_pos i)
  obtain ⟨k, hk⟩ : 2 ^ i ∣ 2 ^ w := Nat.pow_dvd_pow 2 hi
  have hdiv := Nat.div_add_mod y.toNat (2 ^ i)
  have hquot : y.toNat / 2 ^ i < k := by
    rw [Nat.div_lt_iff_lt_mul (Nat.two_pow_pos i), Nat.mul_comm, ← hk]
    exact hy
  obtain ⟨j, rfl⟩ : ∃ j, k = y.toNat / 2 ^ i + 1 + j := ⟨k - (y.toNat / 2 ^ i + 1), by omega⟩
  have hsplit : 2 ^ w - 1 - y.toNat = 2 ^ i - 1 - y.toNat % 2 ^ i + 2 ^ i * j := by
    rw [hk, Nat.mul_add, Nat.mul_add, Nat.mul_one]
    omega
  rw [BitVec.toNat_not, hsplit, Nat.add_mul_mod_self_left]
  exact Nat.mod_eq_of_lt (by omega)

/-- The carries of the sum with the complement are the missing borrows. -/
theorem carry_not {i : Nat} (hi : i ≤ w) (x y : BitVec w) (b : Bool) :
    BitVec.carry i x (~~~y) (!b) = !borrowIn i x y b := by
  have hlt := Nat.mod_lt y.toNat (Nat.two_pow_pos i)
  unfold BitVec.carry borrowIn
  rw [toNat_not_mod hi, ← decide_not, decide_eq_decide]
  cases b <;> simp <;> omega

/-- The majority form of the borrow out of bit `i`, from the bit of the difference. -/
theorem borrowIn_succ_eq_chain {i : Nat} (hi : i < w) (x y : BitVec w) (b : Bool) :
    ((x - y - bit w b).getLsbD i && (!x.getLsbD i || y.getLsbD i) || !x.getLsbD i && y.getLsbD i) =
      borrowIn (i + 1) x y b := by
  have hchain := carry_succ_eq_chain hi x (~~~y) (!b)
  rw [carry_not hi, ← sub_eq_add_not, BitVec.getLsbD_not] at hchain
  rw [← Bool.not_not (borrowIn (i + 1) x y b), ← hchain]
  cases x.getLsbD i <;> cases y.getLsbD i <;> cases (x - y - bit w b).getLsbD i <;> simp [hi]

theorem borrow_nibble (x y : BitVec w) (b : Bool) :
    borrowIn 4 x y b = true ↔ ¬FitsUnsigned 4 (nibble x - nibble y - b.toNat) := by
  unfold borrowIn FitsUnsigned nibble
  rw [decide_eq_true_eq]
  omega

theorem borrow_unsigned (x y : BitVec w) (b : Bool) :
    borrowIn w x y b = true ↔ ¬FitsUnsigned w (unsigned x - unsigned y - b.toNat) := by
  have hcast : (2 : Int) ^ w = ((2 ^ w : Nat) : Int) := by norm_cast
  have hx := x.isLt
  have hy := y.isLt
  unfold borrowIn FitsUnsigned unsigned
  rw [decide_eq_true_eq, Nat.mod_eq_of_lt hx, Nat.mod_eq_of_lt hy, hcast]
  omega

/-- The last two borrows differ when the signed difference does not fit. -/
theorem borrow_signed (x y : BitVec (w + 1)) (b : Bool) :
    (borrowIn w x y b ^^ borrowIn (w + 1) x y b) = true ↔
      ¬FitsSigned (w + 1) (x.toInt - y.toInt - b.toNat) := by
  have hx := Nat.mod_lt x.toNat (Nat.two_pow_pos w)
  have hy := Nat.mod_lt y.toNat (Nat.two_pow_pos w)
  have hb : b.toNat ≤ 1 := b.toNat_le
  have hcast : (2 : Int) ^ w = ((2 ^ w : Nat) : Int) := by norm_cast
  unfold borrowIn FitsSigned
  rw [toNat_mod_succ, toNat_mod_succ, toInt_eq_low, toInt_eq_low, Nat.add_sub_cancel, hcast]
  generalize 2 ^ w = n at *
  cases x.getLsbD w <;> cases y.getLsbD w <;> simp <;> omega

end X86Emu.Lib
