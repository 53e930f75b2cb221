import X86Emu.Lib.Borrow
import X86Emu.Ops.Operand

/-!
# Comparison and order

After `cmp` and `sub` the conditions of `eval_condition` are the unsigned and the signed order of
the operands. The borrow chain of the source is the list of borrows of the difference, its top bit
is `CF` and the exclusive or of its two top bits is `OF`.
-/

namespace X86Emu

open Lib

/-! ## Flag programs -/

/-- `CONDITIONAL_SET_FLAG` writes one bit. -/
theorem getLsbD_condSet (b : Bool) (f : Flag) (fl : U32) (i : Nat) :
    ((condSet b f).run () fl).2.getLsbD i = if i = f.bit then b else fl.getLsbD i := by
  have hbit : f.bit < 32 := by cases f <;> decide
  cases b with
  | true =>
    show (fl ||| BitVec.twoPow 32 f.bit).getLsbD i = _
    rw [BitVec.getLsbD_or, BitVec.getLsbD_twoPow]
    by_cases hi : i = f.bit
    · simp [hi, hbit]
    · simp [hi, Ne.symm hi]
  | false =>
    show (fl &&& ~~~BitVec.twoPow 32 f.bit).getLsbD i = _
    rw [BitVec.getLsbD_and, BitVec.getLsbD_not, BitVec.getLsbD_twoPow]
    by_cases hi : i = f.bit
    · simp [hi, hbit]
    · by_cases hlt : i < 32
      · simp [hi, hlt, Ne.symm hi]
      · simp [hi, hlt, BitVec.getLsbD_of_ge fl i (Nat.le_of_not_lt hlt)]

/-- The flags after a difference. -/
theorem subFlags_flag (w : Nat) (d s res fl : U32) (f : Flag) :
    ((subFlags w d s res).run () fl).2.getLsbD f.bit =
      match f with
      | .cf => (borrowChain d s res).getLsbD (w - 1)
      | .pf => parity res
      | .af => (borrowChain d s res).getLsbD 3
      | .zf => decide (res.setWidth w = 0)
      | .sf => res.getLsbD (w - 1)
      | .of => xor2 (borrowChain d s res >>> (w - 2))
      | _ => fl.getLsbD f.bit := by
  unfold subFlags setResFlags setChainFlags
  simp only [Prog.run_bind, getLsbD_condSet]
  cases f <;> simp [Flag.bit]

/-! ## The borrow chain -/

/-- The borrow chain lists the borrows of the difference. -/
theorem getLsbD_borrowChain (d s : U32) {i : Nat} (hi : i < 32) :
    (borrowChain d s (d - s)).getLsbD i = borrow (i + 1) d s := by
  rw [← borrow_succ_eq_chain hi]
  unfold borrowChain
  simp [hi]

theorem xor2_shift (x : U32) (i : Nat) : xor2 (x >>> i) = (x.getLsbD i ^^ x.getLsbD (i + 1)) := by
  unfold xor2
  rw [BitVec.getLsbD_ushiftRight, BitVec.getLsbD_ushiftRight]
  rfl

section Widths

variable {w : Nat} (hw : w + 1 ≤ 32) (d s : BitVec (w + 1))

include hw

theorem toNat_widen : (widen d).toNat = d.toNat := by
  unfold widen
  rw [BitVec.toNat_setWidth]
  exact Nat.mod_eq_of_lt (Nat.lt_of_lt_of_le d.isLt (Nat.pow_le_pow_right (by decide) hw))

theorem borrow_widen (i : Nat) : borrow i (widen d) (widen s) = borrow i d s := by
  unfold borrow
  rw [toNat_widen hw, toNat_widen hw]

theorem setWidth_widen : (widen d).setWidth (w + 1) = d := by
  apply BitVec.eq_of_toNat_eq
  rw [BitVec.toNat_setWidth, toNat_widen hw]
  exact Nat.mod_eq_of_lt d.isLt

/-- The 32 bit difference, cut to the width of the operands. -/
theorem setWidth_widen_sub : (widen d - widen s).setWidth (w + 1) = d - s := by
  have hsum : (widen d - widen s).setWidth (w + 1) + s = d := by
    calc (widen d - widen s).setWidth (w + 1) + s
        = (widen d - widen s).setWidth (w + 1) + (widen s).setWidth (w + 1) := by
          rw [setWidth_widen hw]
      _ = (widen d - widen s + widen s).setWidth (w + 1) := (BitVec.setWidth_add _ _ hw).symm
      _ = d := by rw [BitVec.sub_add_cancel, setWidth_widen hw]
  calc (widen d - widen s).setWidth (w + 1)
      = (widen d - widen s).setWidth (w + 1) + s - s := (BitVec.add_sub_cancel _ _).symm
    _ = d - s := by rw [hsum]

theorem getLsbD_widen_sub : (widen d - widen s).getLsbD w = (d - s).getLsbD w := by
  rw [← setWidth_widen_sub hw, BitVec.getLsbD_setWidth]
  simp

end Widths

/-! ## Parity -/

/-- The number of ones in a byte is even. -/
def EvenParity (b : U8) : Prop := (List.range 8).countP b.getLsbD % 2 = 0

instance (b : U8) : Decidable (EvenParity b) := inferInstanceAs (Decidable (_ = _))

/-- The table lists the parities of all bytes. -/
theorem parity_eq (x : U32) : parity x = true ↔ EvenParity (x.setWidth 8) := by
  have htable : ∀ b : U8, parity (b.setWidth 32) = true ↔ EvenParity b := by decide +kernel
  have hlow : parity x = parity ((x.setWidth 8).setWidth 32) := by
    have hcut : ∀ i n, i + n ≤ 8 → ((x.setWidth 8).setWidth 32).extractLsb' i n =
        x.extractLsb' i n := by
      intro i n hin
      apply BitVec.eq_of_getLsbD_eq
      intro j hj
      simp only [BitVec.getLsbD_extractLsb', BitVec.getLsbD_setWidth]
      simp [show i + j < 32 by omega, show i + j < 8 by omega]
    unfold parity
    rw [hcut 5 3 (by decide), hcut 0 5 (by decide)]
  rw [hlow, htable]

/-! ## Conditions -/

/-- What the conditions say about the operands of a comparison. -/
def Compares {w : Nat} (d s : BitVec w) (type : BitVec 3) : Prop :=
  match type.toNat with
  | 0 => ¬FitsDiff d s
  | 1 => d < s
  | 2 => d = s
  | 3 => d ≤ s
  | 4 => (d - s).getLsbD (w - 1) = true
  | 5 => EvenParity ((d - s).setWidth 8)
  | 6 => d.toInt < s.toInt
  | _ => d.toInt ≤ s.toInt

/-- The registers after a flag program. -/
def Cpu.afterFlags {α : Type} (c : Cpu) (x : FlagOp α) : Cpu :=
  { c with eflg := (x.run () c.eflg).2 }

section Widths

variable {w : Nat} (hw : w + 1 ≤ 32) (h8 : 8 ≤ w + 1) (d s : BitVec (w + 1)) (c : Cpu)

include hw h8

theorem baseCondition_subFlags (type : BitVec 3) :
    baseCondition (c.afterFlags (subFlags (w + 1) (widen d) (widen s) (widen d - widen s))) type =
      true ↔ Compares d s type := by
  have hflag : ∀ f, (c.afterFlags (subFlags (w + 1) (widen d) (widen s)
      (widen d - widen s))).flag f = _ := subFlags_flag _ _ _ _ c.eflg
  have hcf : (borrowChain (widen d) (widen s) (widen d - widen s)).getLsbD w = decide (d < s) := by
    rw [getLsbD_borrowChain _ _ hw, borrow_widen hw, borrow_width]
  have hof : xor2 (borrowChain (widen d) (widen s) (widen d - widen s) >>> (w - 1)) =
      (borrow w d s ^^ borrow (w + 1) d s) := by
    rw [xor2_shift, show w - 1 + 1 = w by omega, getLsbD_borrowChain _ _ (by omega),
      getLsbD_borrowChain _ _ hw, borrow_widen hw, borrow_widen hw, show w - 1 + 1 = w by omega]
  have hlt : (c.afterFlags (subFlags (w + 1) (widen d) (widen s) (widen d - widen s))).flag .cf =
      decide (d < s) := (hflag .cf).trans hcf
  have hzero : (c.afterFlags (subFlags (w + 1) (widen d) (widen s) (widen d - widen s))).flag .zf =
      decide (d = s) := by
    refine (hflag .zf).trans ?_
    rw [setWidth_widen_sub hw]
    refine decide_eq_decide.mpr ?_
    rw [BitVec.sub_eq_iff_eq_add]
    simp
  have hsign : (c.afterFlags (subFlags (w + 1) (widen d) (widen s) (widen d - widen s))).flag .sf =
      (d - s).getLsbD w := (hflag .sf).trans (getLsbD_widen_sub hw d s)
  have hover : (c.afterFlags (subFlags (w + 1) (widen d) (widen s) (widen d - widen s))).flag .of =
      (borrow w d s ^^ borrow (w + 1) d s) := (hflag .of).trans hof
  have hparity : (c.afterFlags (subFlags (w + 1) (widen d) (widen s)
      (widen d - widen s))).flag .pf = true ↔ EvenParity ((d - s).setWidth 8) := by
    rw [show Cpu.flag _ .pf = _ from hflag .pf, parity_eq, ← setWidth_widen_sub hw,
      BitVec.setWidth_setWidth_of_le _ h8]
  generalize c.afterFlags _ = c' at *
  have hcases : ∀ t : BitVec 3,
      t = 0 ∨ t = 1 ∨ t = 2 ∨ t = 3 ∨ t = 4 ∨ t = 5 ∨ t = 6 ∨ t = 7 := by decide
  rcases hcases type with rfl | rfl | rfl | rfl | rfl | rfl | rfl | rfl
  · show c'.flag .of = true ↔ ¬FitsDiff d s
    rw [hover, xor_borrow]
  · show c'.flag .cf = true ↔ d < s
    rw [hlt, decide_eq_true_eq]
  · show c'.flag .zf = true ↔ d = s
    rw [hzero, decide_eq_true_eq]
  · show (c'.flag .cf || c'.flag .zf) = true ↔ d ≤ s
    rw [hlt, hzero, Bool.or_eq_true, decide_eq_true_eq, decide_eq_true_eq, BitVec.lt_def,
      BitVec.le_def, Nat.le_iff_lt_or_eq, BitVec.toNat_inj]
  · show c'.flag .sf = true ↔ (d - s).getLsbD w = true
    rw [hsign]
  · exact hparity
  · show (c'.flag .sf ^^ c'.flag .of) = true ↔ d.toInt < s.toInt
    rw [hsign, hover, sign_xor_overflow]
  · show (c'.flag .zf || (c'.flag .sf ^^ c'.flag .of)) = true ↔ d.toInt ≤ s.toInt
    rw [hzero, hsign, hover, Bool.or_eq_true, sign_xor_overflow, decide_eq_true_eq,
      Int.le_iff_lt_or_eq, BitVec.toInt_inj, or_comm]

end Widths

/-! ## The instructions -/

/-- `sub_byte`, `sub_word` and `sub_long` -/
def subSize : (z : OpSize) → BitVec z.bits → BitVec z.bits → FlagOp (BitVec z.bits)
  | .byte => subByte
  | .word => subWord
  | .long => subLong

/-- The condition with its lowest bit as negation. -/
def ComparesCc {w : Nat} (d s : BitVec w) (cc : BitVec 4) : Prop :=
  if cc.getLsbD 0 then ¬Compares d s (cc.extractLsb' 1 3) else Compares d s (cc.extractLsb' 1 3)

theorem evalCondition_iff {c : Cpu} {w : Nat} {d s : BitVec w} (cc : BitVec 4)
    (hbase : ∀ type, baseCondition c type = true ↔ Compares d s type) :
    evalCondition c cc = true ↔ ComparesCc d s cc := by
  unfold evalCondition ComparesCc
  dsimp only
  split
  · rw [Bool.not_eq_true', ← hbase, Bool.not_eq_true]
  · exact hbase _

theorem baseCondition_cmp (z : OpSize) (d s : BitVec z.bits) (c : Cpu) (type : BitVec 3) :
    baseCondition (c.afterFlags (cmpSize z d s)) type = true ↔ Compares d s type := by
  cases z with
  | byte =>
    -- `cmp_byte` clears `CF` first, which the difference then sets
    exact baseCondition_subFlags (by decide) (by decide) d s (c.afterFlags (clearFlag .cf)) type
  | word => exact baseCondition_subFlags (by decide) (by decide) d s c type
  | long => exact baseCondition_subFlags (by decide) (by decide) d s c type

theorem baseCondition_sub (z : OpSize) (d s : BitVec z.bits) (c : Cpu) (type : BitVec 3) :
    baseCondition (c.afterFlags (subSize z d s)) type = true ↔ Compares d s type := by
  cases z with
  | byte => exact baseCondition_subFlags (by decide) (by decide) d s c type
  | word => exact baseCondition_subFlags (by decide) (by decide) d s c type
  | long => exact baseCondition_subFlags (by decide) (by decide) d s c type

theorem subSize_result (z : OpSize) (d s : BitVec z.bits) (fl : U32) :
    ((subSize z d s).run () fl).1 = d - s := by
  cases z with
  | byte => exact setWidth_widen_sub (by decide) d s
  | word => exact setWidth_widen_sub (by decide) d s
  | long => exact setWidth_widen_sub (by decide) d s

/-- After a comparison, and after a subtraction, the conditions are those of arithmetic. -/
theorem evalCondition_compare (z : OpSize) (d s : BitVec z.bits) (c : Cpu) (cc : BitVec 4) :
    (evalCondition (c.afterFlags (cmpSize z d s)) cc = true ↔ ComparesCc d s cc) ∧
      (evalCondition (c.afterFlags (subSize z d s)) cc = true ↔ ComparesCc d s cc) ∧
      ((subSize z d s).run () c.eflg).1 = d - s :=
  ⟨evalCondition_iff cc (baseCondition_cmp z d s c),
    evalCondition_iff cc (baseCondition_sub z d s c),
    subSize_result z d s c.eflg⟩

/-- `jl` jumps after `cmp` of -2 with 1, and `jb` does not. -/
example : evalCondition (({} : Cpu).afterFlags (cmpByte 0xfe 1)) 12 = true ∧
    evalCondition (({} : Cpu).afterFlags (cmpByte 0xfe 1)) 2 = false := by decide

end X86Emu
