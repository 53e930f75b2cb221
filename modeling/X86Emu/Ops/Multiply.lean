import X86Emu.Alu.Decimal
import X86Emu.Ops.Divide

/-!
# Multiplication and the division after it

`MUL` and `IMUL` leave the product of the accumulator and the operand in the registers that the
division takes its dividend from. Its upper half tells whether the product fits in the accumulator,
and a division by the same operand takes the product apart again.
-/

namespace X86Emu

open Lib

/-! ## The product and its flags -/

/-- The flags of a product: carry and overflow are the same. -/
def productFlags {w : Nat} (zero overflow : Bool) (lo : BitVec w) (fl : U32) : U32 :=
  ((setFlagsForMul zero lo).run () ((setMulOverflow overflow).run () fl).2).2

theorem productFlags_bits {w : Nat} (zero overflow : Bool) (lo : BitVec w) (fl : U32) :
    (productFlags zero overflow lo fl).getLsbD Flag.cf.bit = overflow ∧
      (productFlags zero overflow lo fl).getLsbD Flag.of.bit = overflow := by
  have hclear : ∀ fl i, i ≠ Flag.af.bit →
      ((clearFlag .af).run () fl).2.getLsbD i = fl.getLsbD i := by
    intro fl i hi
    exact (getLsbD_condSet false .af fl i).trans (if_neg hi)
  unfold productFlags setFlagsForMul setMulOverflow
  simp only [Prog.run_bind]
  refine ⟨?_, ?_⟩
  · rw [hclear _ _ (by decide)]
    simp only [getLsbD_condSet]
    simp [Flag.bit]
  · rw [hclear _ _ (by decide)]
    simp only [getLsbD_condSet]
    simp [Flag.bit]

theorem dividend_toNat (c : Cpu) (z : OpSize) :
    (c.dividend z).toNat = (c.remReg z).toNat * 2 ^ z.bits + (c.quotReg z).toNat := by
  cases z with
  | byte =>
    show (c.get16 .ax).toNat = (c.get8 .ah).toNat * 2 ^ 8 + (c.get8 .al).toNat
    rw [← toNat_fields]
    unfold Cpu.get16 Cpu.get8
    apply congrArg
    rw [Reg8.parent, Reg8.parent, if_pos rfl, if_neg Bool.false_ne_true]
    apply BitVec.eq_of_getLsbD_eq
    intro i hi
    rw [BitVec.getLsbD_append, BitVec.getLsbD_setWidth, decide_eq_true hi, Bool.true_and]
    split
    case isTrue hlow => simp [hlow]
    case isFalse hhigh =>
      rw [BitVec.getLsbD_extractLsb', decide_eq_true (by omega), Bool.true_and,
        show 8 + (i - 8) = i by omega]
  | word => exact toNat_fields _ _
  | long => exact toNat_fields _ _

theorem halves {w : Nat} (x : BitVec (w + w)) :
    x.extractLsb' w w ++ x.extractLsb' 0 w = x := by
  rw [BitVec.extractLsb'_append_extractLsb'_eq_extractLsb' (Nat.zero_add w).symm,
    BitVec.extractLsb'_eq_self]

theorem halves_word (c : Cpu) (x : U32) :
    ((c.set16 .ax (x.extractLsb' 0 16)).set16 .dx (x.extractLsb' 16 16)).dividend .word = x := by
  have hax : ((c.set16 .ax (x.extractLsb' 0 16)).set16 .dx (x.extractLsb' 16 16)).get16 .ax =
      x.extractLsb' 0 16 := setWidth_setLo16 _ _
  have hdx : ((c.set16 .ax (x.extractLsb' 0 16)).set16 .dx (x.extractLsb' 16 16)).get16 .dx =
      x.extractLsb' 16 16 := setWidth_setLo16 _ _
  show Cpu.get16 _ .dx ++ Cpu.get16 _ .ax = x
  rw [hax, hdx]
  exact halves (w := 16) x

/-- The product of `mul`. -/
theorem mulSize_run (z : OpSize) (s : BitVec z.bits) (h : Host) (st : St) :
    ∃ (c : Cpu) (zero : Bool) (lo : BitVec z.bits),
      c.dividend z = (st.cpu.quotReg z).setWidth (2 * z.bits) * s.setWidth (2 * z.bits) ∧
      (mulSize z s).run h st = ((), { st with
        cpu := { c with eflg := productFlags zero (c.remReg z ≠ 0) lo st.cpu.eflg } }) := by
  cases z with
  | byte =>
    refine ⟨st.cpu.set16 .ax _, _, _, ?_, rfl⟩
    exact setWidth_setLo16 _ _
  | word =>
    refine ⟨(st.cpu.set16 .ax _).set16 .dx _, _, _, ?_, rfl⟩
    exact halves_word st.cpu _
  | long =>
    refine ⟨(st.cpu.setGen .ax _).setGen .dx _, _, _, ?_, rfl⟩
    exact halves _

/-- The product of `imul`. -/
theorem imulSize_run (z : OpSize) (s : BitVec z.bits) (h : Host) (st : St) :
    let prod := (st.cpu.quotReg z).signExtend (2 * z.bits) * s.signExtend (2 * z.bits)
    ∃ (c : Cpu) (zero : Bool) (lo : BitVec z.bits), c.dividend z = prod ∧
      (imulSize z s).run h st = ((), { st with
        cpu := { c with
          eflg := productFlags zero (idivOverflows z.bits prod) lo st.cpu.eflg } }) := by
  cases z with
  | byte =>
    refine ⟨st.cpu.set16 .ax _, _, _, ?_, rfl⟩
    exact setWidth_setLo16 _ _
  | word =>
    refine ⟨(st.cpu.set16 .ax _).set16 .dx _, _, _, ?_, rfl⟩
    exact halves_word st.cpu _
  | long =>
    refine ⟨(st.cpu.setGen .ax _).setGen .dx _, _, _, ?_, rfl⟩
    exact halves _

/-! ## The division -/

/-- The registers hold the product, carry and overflow say that it does not fit in `w` bits, and
the division restores the accumulator; the C divisions it evaluates have values. -/
structure Restores (z : OpSize) (value : {w : Nat} → BitVec w → Int) (Fits : Int → Prop)
    (div : Emu Unit) (s : BitVec z.bits) (h : Host) (st : St) (c : Cpu) : Prop where
  product : value (c.dividend z) = value (st.cpu.quotReg z) * value s
  carry : c.flag .cf = true ↔ ¬Fits (value (st.cpu.quotReg z) * value s)
  overflow : c.flag .of = c.flag .cf
  restored : s ≠ 0 → ∃ c' new, div.run h { st with cpu := c } =
      ((), { st with cpu := c', divisions := new ++ st.divisions }) ∧ (∀ d ∈ new, d.Defined) ∧
    c'.quotReg z = st.cpu.quotReg z ∧ c'.remReg z = 0

/-- A division of a product by one of its factors. -/
theorem divided_product {op : DivOp} {st t : St} (hdiv : op.Divided st t) {a : Int}
    (hs : op.divisor ≠ 0) (hprod : op.dividend st.cpu = a * op.divisor) (hfits : op.Fits a) :
    ∃ c new, t = { st with cpu := c, divisions := new ++ st.divisions } ∧
      (∀ d ∈ new, d.Defined) ∧ op.quotient c = a ∧ op.remainder c = 0 := by
  have hfault : ¬op.Faults st.cpu := by
    rintro (hzero | hbig)
    · exact hs hzero
    · rw [hprod, Int.mul_tdiv_cancel a hs] at hbig
      exact hbig hfits
  obtain ⟨new, hnew, hdefined⟩ := hdiv.defined
  obtain ⟨gen, eflg, ht, -, hquot⟩ := hdiv.stored hfault
  rw [hprod] at hquot
  rw [hnew] at ht
  exact ⟨t.cpu, new, by rw [ht], hdefined, hquot.of_mul hs⟩

/-! ### Without sign -/

theorem fits_dividend_iff (c : Cpu) (z : OpSize) :
    FitsUnsigned z.bits (unsigned (c.dividend z)) ↔ c.remReg z = 0 := by
  have hlt := (c.quotReg z).isLt
  unfold FitsUnsigned unsigned
  rw [dividend_toNat, ← BitVec.toNat_inj, show (0 : BitVec z.bits).toNat = 0 from BitVec.toNat_zero]
  constructor
  · rintro ⟨-, hfits⟩
    have hnat : (c.remReg z).toNat * 2 ^ z.bits + (c.quotReg z).toNat < 2 ^ z.bits := by
      exact_mod_cast hfits
    by_contra hne
    have hle := Nat.le_mul_of_pos_left (2 ^ z.bits) (Nat.pos_of_ne_zero hne)
    omega
  · intro hzero
    rw [hzero, Nat.zero_mul, Nat.zero_add]
    exact ⟨Int.natCast_nonneg _, by exact_mod_cast hlt⟩

theorem fits_unsigned {w : Nat} (x : BitVec w) : FitsUnsigned w (unsigned x) := by
  have hlt := x.isLt
  unfold FitsUnsigned unsigned
  exact ⟨Int.natCast_nonneg _, by exact_mod_cast hlt⟩

theorem mul_restores (z : OpSize) (s : BitVec z.bits) (h : Host) (st : St) :
    ∃ c, (mulSize z s).run h st = ((), { st with cpu := c }) ∧
      Restores z unsigned (FitsUnsigned z.bits) (divSize z s) s h st c := by
  obtain ⟨c, zero, lo, hprod, hrun⟩ := mulSize_run z s h st
  refine ⟨_, hrun, ?_⟩
  obtain ⟨hcf, hof⟩ := productFlags_bits zero (c.remReg z ≠ 0) lo st.cpu.eflg
  generalize productFlags zero (c.remReg z ≠ 0) lo st.cpu.eflg = fl at hcf hof
  have hdvd : Cpu.dividend { c with eflg := fl } z = c.dividend z := by cases z <;> rfl
  have hvalue : unsigned (c.dividend z) = unsigned (st.cpu.quotReg z) * unsigned s := by
    unfold unsigned
    rw [hprod, toNat_mul_wide]
    push_cast
    rfl
  refine ⟨?_, ?_, hof.trans hcf.symm, ?_⟩
  · rw [hdvd, hvalue]
  · show fl.getLsbD _ = true ↔ _
    rw [hcf, ← hvalue, decide_eq_true_eq, fits_dividend_iff]
  · intro hs
    have hdiv := DivOp.div_divided z s h { st with cpu := { c with eflg := fl } }
    have hquot : FitsUnsigned z.bits (unsigned (st.cpu.quotReg z)) :=
      fits_unsigned _
    obtain ⟨c', new, hrun', hdefined, hq, hr⟩ := divided_product hdiv
      (fun hzero => hs ((DivOp.unsigned_eq_zero z s).mp hzero))
      ((congrArg unsigned hdvd).trans hvalue) hquot
    refine ⟨c', new, congrArg (Prod.mk ()) hrun', hdefined, ?_, ?_⟩
    · exact BitVec.eq_of_toNat_eq (Int.ofNat.inj hq)
    · exact (DivOp.unsigned_eq_zero z _).mp hr

/-! ### With sign -/

theorem fits_toInt {w : Nat} (x : BitVec w) : FitsSigned w x.toInt :=
  ⟨BitVec.le_toInt x, BitVec.toInt_lt⟩

theorem imul_restores (z : OpSize) (s : BitVec z.bits) (h : Host) (st : St) :
    ∃ c, (imulSize z s).run h st = ((), { st with cpu := c }) ∧
      Restores z BitVec.toInt (FitsSigned z.bits) (idivSize z s) s h st c := by
  obtain ⟨c, zero, lo, hprod, hrun⟩ := imulSize_run z s h st
  have hvalue : (c.dividend z).toInt = (st.cpu.quotReg z).toInt * s.toInt := by
    rw [hprod, toInt_mul_wide z.bits_pos]
  rw [← hprod] at hrun
  refine ⟨_, hrun, ?_⟩
  obtain ⟨hcf, hof⟩ :=
    productFlags_bits zero (idivOverflows z.bits (c.dividend z)) lo st.cpu.eflg
  generalize productFlags zero (idivOverflows z.bits (c.dividend z)) lo st.cpu.eflg = fl at hcf hof
  have hdvd : Cpu.dividend { c with eflg := fl } z = c.dividend z := by cases z <;> rfl
  have hpos := z.bits_pos
  refine ⟨?_, ?_, hof.trans hcf.symm, ?_⟩
  · rw [hdvd, hvalue]
  · show fl.getLsbD _ = true ↔ _
    rw [hcf, ← hvalue, DivOp.idivOverflows_iff (by omega)]
  · intro hs
    -- the product is not the most negative number of twice the width
    have hcorner : ¬(DivOp.idiv z s).Corner { c with eflg := fl } := by
      rw [DivOp.corner_iff]
      rintro ⟨hmin, -⟩
      have hlow := (toInt_mul_fits (st.cpu.quotReg z) s).1
      have hpow : (2 : Int) ^ (2 * z.bits - 2) < 2 ^ (z.divBits - 1) := by
        exact_mod_cast Nat.pow_lt_pow_right (by decide : 1 < 2)
          (by have := z.two_mul_bits_le; omega : 2 * z.bits - 2 < z.divBits - 1)
      have hint := congrArg BitVec.toInt hmin
      rw [DivOp.toInt_num, hdvd, hvalue, BitVec.toInt_intMin_of_pos
        (Nat.zero_lt_of_lt z.bits_lt_divBits)] at hint
      omega
    have hdiv : (DivOp.idiv z s).Divided { st with cpu := { c with eflg := fl } } _ :=
      DivOp.idiv_divided z s h hcorner
    obtain ⟨c', new, hrun', hdefined, hq, hr⟩ := divided_product hdiv
      (fun hzero => hs ((DivOp.toInt_eq_zero z s).mp hzero))
      ((congrArg BitVec.toInt hdvd).trans hvalue) (fits_toInt _)
    refine ⟨c', new, congrArg (Prod.mk ()) hrun', hdefined, ?_, ?_⟩
    · exact BitVec.eq_of_toInt_eq hq
    · exact (DivOp.toInt_eq_zero z _).mp hr

/-- A division by the operand of the multiplication before it gives back the accumulator. -/
theorem mul_div_restores (z : OpSize) (s : BitVec z.bits) (h : Host) (st : St) :
    (∃ c, (mulSize z s).run h st = ((), { st with cpu := c }) ∧
        Restores z unsigned (FitsUnsigned z.bits) (divSize z s) s h st c) ∧
      ∃ c, (imulSize z s).run h st = ((), { st with cpu := c }) ∧
        Restores z BitVec.toInt (FitsSigned z.bits) (idivSize z s) s h st c :=
  ⟨mul_restores z s h st, imul_restores z s h st⟩

end X86Emu
