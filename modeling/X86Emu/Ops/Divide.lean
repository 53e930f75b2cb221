import X86Emu.Ops.Results
import X86Emu.Ops.Table

/-!
# Division

`DIV`, `IDIV` and `AAM`: which C divisions they evaluate, when they raise interrupt 0, and the
quotients and remainders they store. The routines are looked at first, from the state in which the
handler has read its operand.
-/

namespace X86Emu

open Lib

/-! ## Quotient and remainder registers -/

namespace Cpu

/-- The register of the quotient. -/
def quotReg (c : Cpu) : (z : OpSize) → BitVec z.bits
  | .byte => c.get8 .al
  | .word => c.get16 .ax
  | .long => c.gen .ax

/-- The register of the remainder. -/
def remReg (c : Cpu) : (z : OpSize) → BitVec z.bits
  | .byte => c.get8 .ah
  | .word => c.get16 .dx
  | .long => c.gen .dx

/-- The dividend, in the registers of quotient and remainder. -/
def dividend (c : Cpu) : (z : OpSize) → BitVec (2 * z.bits)
  | .byte => c.get16 .ax
  | .word => c.get16 .dx ++ c.get16 .ax
  | .long => c.gen .dx ++ c.gen .ax

end Cpu

/-- The division of a byte or a word is one of 32 bits, that of a double word one of 64. -/
def OpSize.divBits : OpSize → Nat
  | .byte | .word => 32
  | .long => 64

theorem OpSize.two_mul_bits_le (z : OpSize) : 2 * z.bits ≤ z.divBits := by
  cases z <;> decide

theorem OpSize.bits_lt_divBits (z : OpSize) : z.bits < z.divBits := by
  cases z <;> decide

theorem OpSize.bits_pos (z : OpSize) : 0 < z.bits := by
  cases z <;> decide

/-- Quotient and remainder stored. -/
def storeQuotRem : (z : OpSize) → BitVec z.bits → BitVec z.bits → Emu Unit
  | .byte, q, r => do set8 .al q; set8 .ah r
  | .word, q, r => do set16 .ax q; set16 .dx r
  | .long, q, r => do setGen .ax q; setGen .dx r

theorem low_setLo8 (v : U32) (x : U8) : (setLo8 v x).extractLsb' 0 8 = x :=
  BitVec.extractLsb'_append_eq_right

theorem low_setHi8 (v : U32) (x : U8) :
    (setHi8 v x).extractLsb' 0 8 = v.extractLsb' 0 8 :=
  BitVec.extractLsb'_append_eq_right

theorem high_setHi8 (v : U32) (x : U8) : (setHi8 v x).extractLsb' 8 8 = x := by
  unfold setHi8
  rw [BitVec.extractLsb'_append_eq_of_le (Nat.le_refl 8)]
  exact BitVec.extractLsb'_append_eq_right

/-- The registers but `EAX` and `EDX` are the same. -/
def Cpu.SameButAxDx (c : Cpu) (gen : Reg → U32) : Prop :=
  ∀ r, r ≠ .ax → r ≠ .dx → gen r = c.gen r

/-- Quotient and remainder are in their registers. -/
theorem run_storeQuotRem (z : OpSize) (q r : BitVec z.bits) (h : Host) (s : St) :
    ∃ gen, (storeQuotRem z q r).run h s = ((), { s with cpu := { s.cpu with gen := gen } }) ∧
      s.cpu.SameButAxDx gen ∧ Cpu.quotReg { s.cpu with gen := gen } z = q ∧
      Cpu.remReg { s.cpu with gen := gen } z = r := by
  cases z with
  | byte =>
    refine ⟨_, rfl, fun r hax _ => ?_, (low_setHi8 _ _).trans (low_setLo8 _ _), high_setHi8 _ _⟩
    exact (Function.update_of_ne hax _ _).trans (Function.update_of_ne hax _ _)
  | word =>
    refine ⟨_, rfl, fun r hax hdx => ?_, setWidth_setLo16 _ _, setWidth_setLo16 _ _⟩
    exact (Function.update_of_ne hdx _ _).trans (Function.update_of_ne hax _ _)
  | long =>
    refine ⟨_, rfl, fun r hax hdx => ?_, rfl, rfl⟩
    exact (Function.update_of_ne hdx _ _).trans (Function.update_of_ne hax _ _)

/-! ## The divisions as one definition for each sign -/

/-- `idiv_byte`, `idiv_word` and `idiv_long` -/
theorem idivSize_run (z : OpSize) (s : BitVec z.bits) (h : Host) (st : St) :
    (idivSize z s).run h st = (divide (s = 0) true ((st.cpu.dividend z).signExtend z.divBits)
      (s.signExtend z.divBits) (idivOverflows z.bits) fun q r =>
        storeQuotRem z (q.setWidth z.bits) (r.setWidth z.bits)).run h st := by
  cases z with
  | byte => rfl
  | word =>
    have hnum : (st.cpu.dividend .word).signExtend 32 = st.cpu.dividend .word :=
      BitVec.signExtend_eq _
    dsimp only [OpSize.divBits]
    rw [hnum]
    rfl
  | long =>
    have hnum : (st.cpu.dividend .long).signExtend 64 = st.cpu.dividend .long :=
      BitVec.signExtend_eq _
    dsimp only [OpSize.divBits]
    rw [hnum]
    rfl

/-- `div_byte`, `div_word` and `div_long` -/
theorem divSize_run (z : OpSize) (s : BitVec z.bits) (h : Host) (st : St) :
    (divSize z s).run h st = (divide (s = 0) false ((st.cpu.dividend z).setWidth z.divBits)
      (s.setWidth z.divBits) (BitVec.ofNat z.divBits (2 ^ z.bits - 1) < ·) fun q r =>
        storeQuotRem z (q.setWidth z.bits) (r.setWidth z.bits)).run h st := by
  cases z with
  | byte => rfl
  | word =>
    have hnum : (st.cpu.dividend .word).setWidth 32 = st.cpu.dividend .word := BitVec.setWidth_eq _
    dsimp only [OpSize.divBits]
    rw [hnum]
    rfl
  | long =>
    have hnum : (st.cpu.dividend .long).setWidth 64 = st.cpu.dividend .long := BitVec.setWidth_eq _
    dsimp only [OpSize.divBits]
    rw [hnum]
    rfl

/-! ## What a division does -/

/-- A division: its divisor after the operand is fetched, or the base of `AAM`. -/
inductive DivOp
  | div (z : OpSize) (s : BitVec z.bits)
  | idiv (z : OpSize) (s : BitVec z.bits)
  | aam (base : U8)

namespace DivOp

def divisor : DivOp → Int
  | div _ s => unsigned s
  | idiv _ s => s.toInt
  | aam base => unsigned base

def dividend (c : Cpu) : DivOp → Int
  | div z _ => unsigned (c.dividend z)
  | idiv z _ => (c.dividend z).toInt
  | aam _ => unsigned (c.get8 .al)

/-- The quotient where it is stored. -/
def quotient (c : Cpu) : DivOp → Int
  | div z _ => unsigned (c.quotReg z)
  | idiv z _ => (c.quotReg z).toInt
  | aam _ => unsigned (c.get8 .ah)

def remainder (c : Cpu) : DivOp → Int
  | div z _ => unsigned (c.remReg z)
  | idiv z _ => (c.remReg z).toInt
  | aam _ => unsigned (c.get8 .al)

/-- Whether the destination holds the quotient. -/
def Fits : DivOp → Int → Prop
  | div z _ => FitsUnsigned z.bits
  | idiv z _ => FitsSigned z.bits
  | aam _ => FitsUnsigned 8

/-- By zero, or with a quotient that does not fit. -/
def Faults (op : DivOp) (c : Cpu) : Prop :=
  op.divisor = 0 ∨ ¬op.Fits ((op.dividend c).tdiv op.divisor)

/-- From `s` to `t` no division without a value in C is evaluated; interrupt 0 is raised and nothing
else happens when the division faults, and quotient and remainder are stored otherwise. -/
structure Divided (op : DivOp) (s t : St) : Prop where
  defined : ∃ new, t.divisions = new ++ s.divisions ∧ ∀ d ∈ new, d.Defined
  raised : op.Faults s.cpu → t =
    x86emuIntrRaise 0 (intrTypeSoft ||| intrModeRestart) 0 { s with divisions := t.divisions }
  stored : ¬op.Faults s.cpu → ∃ gen eflg,
    t = { s with cpu := { s.cpu with gen := gen, eflg := eflg }, divisions := t.divisions } ∧
      s.cpu.SameButAxDx gen ∧
      QuotRem (op.dividend s.cpu) op.divisor (op.quotient t.cpu) (op.remainder t.cpu)

/-- The most negative dividend of 32 or 64 bits by -1, and `AAM` with base 0. -/
def Corner (c : Cpu) : DivOp → Prop
  | idiv .word s => c.dividend .word = BitVec.intMin 32 ∧ s = -1
  | idiv .long s => c.dividend .long = BitVec.intMin 64 ∧ s = -1
  | aam base => base = 0
  | _ => False

/-- The routine; of `x86emuOp_aam`, what follows the fetch of the base. -/
def run : DivOp → Emu Unit
  | div z s => divSize z s
  | idiv z s => idivSize z s
  | aam base => do
    if base = 0 then intrRaiseDiv0
    set16 .ax (← aamWord (← get8 .al) base)

/-- An undefined division that is evaluated. -/
theorem not_divided {op : DivOp} {s t : St} {d : CDivision} (hundef : ¬d.Defined)
    (hdiv : t.divisions = d :: s.divisions) : ¬op.Divided s t := by
  intro hdivided
  obtain ⟨new, hnew, hdefined⟩ := hdivided.defined
  rw [hdiv] at hnew
  have happend : [d] ++ s.divisions = new ++ s.divisions := hnew
  have hone : [d] = new := List.append_cancel_right happend
  exact hundef (hdefined d (hone ▸ List.mem_singleton.mpr rfl))

section Divide

variable {w : Nat} {zero signed : Bool} {dvd den : BitVec w} {overflows : BitVec w → Bool}
  {store : BitVec w → BitVec w → Emu Unit}

/-- A division by a number that is not zero is evaluated. -/
theorem divide_run (h : Host) (s : St) :
    (divide false signed dvd den overflows store).run h s =
      (if overflows (CDivision.quot ⟨signed, w, dvd, den⟩) then intrRaiseDiv0
        else store (CDivision.quot ⟨signed, w, dvd, den⟩)
          (CDivision.rem ⟨signed, w, dvd, den⟩)).run h (recordDivision ⟨signed, w, dvd, den⟩ s) :=
  rfl

/-- A division whose checks are exact. -/
theorem divide_divided {op : DivOp} (h : Host) {s : St}
    (hdefined : zero = false → CDivision.Defined ⟨signed, w, dvd, den⟩)
    (hfault : zero = true ∨ overflows (CDivision.quot ⟨signed, w, dvd, den⟩) = true ↔
      op.Faults s.cpu)
    (hstore : ¬op.Faults s.cpu → ∀ s', ∃ gen,
      (store (CDivision.quot ⟨signed, w, dvd, den⟩)
          (CDivision.rem ⟨signed, w, dvd, den⟩)).run h s' =
        ((), { s' with cpu := { s'.cpu with gen := gen } }) ∧ s'.cpu.SameButAxDx gen ∧
      QuotRem (op.dividend s.cpu) op.divisor (op.quotient { s'.cpu with gen := gen })
        (op.remainder { s'.cpu with gen := gen })) :
    op.Divided s ((divide zero signed dvd den overflows store).run h s).2 := by
  cases zero with
  | true =>
    have hkept : (x86emuIntrRaise 0 (intrTypeSoft ||| intrModeRestart) 0 s).divisions =
        s.divisions := by
      unfold x86emuIntrRaise
      dsimp only
      split <;> rfl
    refine ⟨⟨[], hkept, fun d hd => absurd hd List.not_mem_nil⟩, fun _ => ?_, fun hnot => ?_⟩
    · show x86emuIntrRaise 0 _ 0 s = x86emuIntrRaise 0 _ 0 { s with divisions :=
        (x86emuIntrRaise 0 (intrTypeSoft ||| intrModeRestart) 0 s).divisions }
      rw [hkept]
    · exact absurd (hfault.mp (Or.inl rfl)) hnot
  | false =>
    have hdef : ∀ d ∈ [(⟨signed, w, dvd, den⟩ : CDivision)], d.Defined := by
      intro d hd
      rw [List.mem_singleton.mp hd]
      exact hdefined rfl
    rw [divide_run]
    cases hover : overflows (CDivision.quot ⟨signed, w, dvd, den⟩) with
    | true =>
      have hkept : (x86emuIntrRaise 0 (intrTypeSoft ||| intrModeRestart) 0
          (recordDivision ⟨signed, w, dvd, den⟩ s)).divisions =
            ⟨signed, w, dvd, den⟩ :: s.divisions := by
        unfold x86emuIntrRaise
        dsimp only
        split <;> rfl
      rw [if_pos rfl]
      refine ⟨⟨[_], hkept, hdef⟩, fun _ => ?_, fun hnot => ?_⟩
      · show x86emuIntrRaise 0 _ 0 _ = x86emuIntrRaise 0 _ 0 { s with divisions :=
          (x86emuIntrRaise 0 (intrTypeSoft ||| intrModeRestart) 0
            (recordDivision ⟨signed, w, dvd, den⟩ s)).divisions }
        rw [hkept]
        rfl
      · exact absurd (hfault.mp (Or.inr hover)) hnot
    | false =>
      have hnot : ¬op.Faults s.cpu := by
        rw [← hfault, hover]
        decide
      obtain ⟨gen, hrun, hsame, hquot⟩ := hstore hnot (recordDivision ⟨signed, w, dvd, den⟩ s)
      rw [if_neg Bool.false_ne_true, hrun]
      exact ⟨⟨_, rfl, hdef⟩, fun hf => absurd hf hnot,
        fun _ => ⟨gen, s.cpu.eflg, rfl, hsame, hquot⟩⟩

/-- The division is evaluated, whatever becomes of it. -/
theorem divide_divisions (h : Host) (s : St)
    (hstore : ∀ q r s', ((store q r).run h s').2.divisions = s'.divisions) :
    ((divide false signed dvd den overflows store).run h s).2.divisions =
      ⟨signed, w, dvd, den⟩ :: s.divisions := by
  rw [divide_run]
  split
  · show (x86emuIntrRaise 0 _ 0 (recordDivision ⟨signed, w, dvd, den⟩ s)).divisions = _
    unfold x86emuIntrRaise
    dsimp only
    split <;> rfl
  · exact hstore _ _ _

end Divide

/-! ### Without sign -/

section Unsigned

variable (z : OpSize) (d : BitVec (2 * z.bits)) (s : BitVec z.bits)

theorem toNat_num : (d.setWidth z.divBits).toNat = d.toNat :=
  BitVec.toNat_setWidth_of_le z.two_mul_bits_le

theorem toNat_den : (s.setWidth z.divBits).toNat = s.toNat :=
  BitVec.toNat_setWidth_of_le (Nat.le_of_lt z.bits_lt_divBits)

theorem unsigned_tdiv : (unsigned d).tdiv (unsigned s) = ((d.toNat / s.toNat : Nat) : Int) :=
  (Int.ofNat_tdiv _ _).symm

theorem fits_unsigned_iff :
    FitsUnsigned z.bits ((unsigned d).tdiv (unsigned s)) ↔ d.toNat / s.toNat < 2 ^ z.bits := by
  rw [unsigned_tdiv]
  unfold FitsUnsigned
  exact ⟨fun hfits => by exact_mod_cast hfits.2,
    fun hlt => ⟨Int.natCast_nonneg _, by exact_mod_cast hlt⟩⟩

/-- The range check of `div_*`. -/
theorem div_over : BitVec.ofNat z.divBits (2 ^ z.bits - 1) <
      d.setWidth z.divBits / s.setWidth z.divBits ↔
    ¬FitsUnsigned z.bits ((unsigned d).tdiv (unsigned s)) := by
  have hpos : 0 < 2 ^ z.bits := Nat.two_pow_pos _
  have hpow : 2 ^ z.bits < 2 ^ z.divBits := Nat.pow_lt_pow_right (by decide) z.bits_lt_divBits
  rw [fits_unsigned_iff, BitVec.lt_def, BitVec.toNat_udiv, toNat_num, toNat_den, BitVec.toNat_ofNat,
    Nat.mod_eq_of_lt (by omega)]
  omega

theorem unsigned_eq_zero : unsigned s = 0 ↔ s = 0 := by
  unfold unsigned
  rw [← BitVec.toNat_inj]
  exact Int.natCast_eq_zero

theorem div_faults (c : Cpu) :
    decide (s = 0) = true ∨ decide (BitVec.ofNat z.divBits (2 ^ z.bits - 1) <
        (c.dividend z).setWidth z.divBits / s.setWidth z.divBits) = true ↔
      (div z s).Faults c := by
  rw [decide_eq_true_eq, decide_eq_true_eq, div_over, ← unsigned_eq_zero]
  rfl

theorem div_divided (h : Host) (st : St) : (div z s).Divided st ((divSize z s).run h st).2 := by
  rw [divSize_run]
  refine divide_divided h (fun hzero => ?_) (div_faults z s st.cpu) fun hfault s' => ?_
  · have hs : s ≠ 0 := of_decide_eq_false hzero
    refine ⟨fun hden => hs ?_, fun hf => by cases hf⟩
    apply BitVec.eq_of_toNat_eq
    rw [← toNat_den z s, show s.setWidth z.divBits = 0 from hden]
    rfl
  · obtain ⟨hs, hfits⟩ := not_or.mp hfault
    have hlt := (fits_unsigned_iff z _ s).mp (not_not.mp hfits)
    have hs0 : s.toNat ≠ 0 := fun h0 => hs (congrArg Int.ofNat h0)
    obtain ⟨gen, hstore, hsame, hquot, hrem⟩ := run_storeQuotRem z _ _ h s'
    refine ⟨gen, hstore, hsame, ?_⟩
    show QuotRem (unsigned (st.cpu.dividend z)) (unsigned s)
      (unsigned (Cpu.quotReg { s'.cpu with gen := gen } z))
      (unsigned (Cpu.remReg { s'.cpu with gen := gen } z))
    rw [hquot, hrem]
    show QuotRem _ _ (unsigned (BitVec.setWidth z.bits (_ / _)))
      (unsigned (BitVec.setWidth z.bits (_ % _)))
    unfold unsigned
    rw [BitVec.toNat_setWidth, BitVec.toNat_setWidth, BitVec.toNat_udiv, BitVec.toNat_umod,
      toNat_num, toNat_den, Nat.mod_eq_of_lt hlt,
      Nat.mod_eq_of_lt ((Nat.mod_lt _ (Nat.pos_of_ne_zero hs0)).trans s.isLt)]
    exact quotRem_nat _ hs0

end Unsigned

/-! ### With sign -/

section Signed

variable (z : OpSize) (d : BitVec (2 * z.bits)) (s : BitVec z.bits)

theorem idivOverflows_iff {n w : Nat} (hn : 0 < n) (div : BitVec n) :
    idivOverflows w div = true ↔ ¬FitsSigned w div.toInt := by
  have hfits := sshiftRight_fits hn div (w - 1)
  unfold idivOverflows FitsSigned
  rw [← hfits]
  simp

theorem toInt_num : (d.signExtend z.divBits).toInt = d.toInt :=
  BitVec.toInt_signExtend_of_le z.two_mul_bits_le

theorem toInt_den : (s.signExtend z.divBits).toInt = s.toInt :=
  BitVec.toInt_signExtend_of_le (Nat.le_of_lt z.bits_lt_divBits)

theorem signExtend_eq_neg_one : s.signExtend z.divBits = -1 ↔ s = -1 := by
  rw [← BitVec.toInt_inj, toInt_den, toInt_neg_one (Nat.zero_lt_of_lt z.bits_lt_divBits),
    ← toInt_neg_one z.bits_pos, BitVec.toInt_inj]

/-- A word divides 32 bits, so its one overflow is that of the C division. -/
theorem corner_iff (c : Cpu) : (idiv z s).Corner c ↔
    (c.dividend z).signExtend z.divBits = BitVec.intMin z.divBits ∧
      s.signExtend z.divBits = -1 := by
  rw [signExtend_eq_neg_one]
  cases z with
  | byte =>
    refine ⟨fun hf => hf.elim, ?_⟩
    rintro ⟨hmin, -⟩
    have hnum := congrArg BitVec.toInt hmin
    rw [toInt_num] at hnum
    have hlow := BitVec.le_toInt (c.dividend .byte)
    rw [hnum] at hlow
    exact absurd hlow (by decide)
  | word =>
    have hnum : (c.dividend .word).signExtend OpSize.word.divBits = c.dividend .word :=
      BitVec.signExtend_eq _
    rw [hnum]
    exact Iff.rfl
  | long =>
    have hnum : (c.dividend .long).signExtend OpSize.long.divBits = c.dividend .long :=
      BitVec.signExtend_eq _
    rw [hnum]
    exact Iff.rfl

theorem toInt_eq_zero : s.toInt = 0 ↔ s = 0 := by
  rw [← BitVec.toInt_inj, show (0 : BitVec z.bits).toInt = 0 from BitVec.toInt_zero]

/-- Where the C division has a value, it is that of the numbers. -/
theorem toInt_quot {c : Cpu} (hcorner : ¬(idiv z s).Corner c) :
    (((c.dividend z).signExtend z.divBits).sdiv (s.signExtend z.divBits)).toInt =
      (c.dividend z).toInt.tdiv s.toInt := by
  rw [corner_iff, not_and_or] at hcorner
  rw [BitVec.toInt_sdiv_of_ne_or_ne _ _ hcorner, toInt_num, toInt_den]

theorem toInt_rem (c : Cpu) :
    (((c.dividend z).signExtend z.divBits).srem (s.signExtend z.divBits)).toInt =
      (c.dividend z).toInt.tmod s.toInt := by
  rw [BitVec.toInt_srem, toInt_num, toInt_den]

theorem idiv_faults {c : Cpu} (hcorner : ¬(idiv z s).Corner c) :
    decide (s = 0) = true ∨ idivOverflows z.bits
        (((c.dividend z).signExtend z.divBits).sdiv (s.signExtend z.divBits)) = true ↔
      (idiv z s).Faults c := by
  rw [decide_eq_true_eq, idivOverflows_iff (Nat.zero_lt_of_lt z.bits_lt_divBits),
    toInt_quot z s hcorner, ← toInt_eq_zero]
  rfl

theorem idiv_divided (h : Host) {st : St} (hcorner : ¬(idiv z s).Corner st.cpu) :
    (idiv z s).Divided st ((idivSize z s).run h st).2 := by
  rw [idivSize_run]
  refine divide_divided h (fun hzero => ?_) (idiv_faults z s hcorner) fun hfault s' => ?_
  · have hs : s ≠ 0 := of_decide_eq_false hzero
    refine ⟨fun hden => hs ?_, fun _ hover => hcorner ((corner_iff z s _).mpr hover)⟩
    rw [← toInt_eq_zero, ← toInt_den, show s.signExtend z.divBits = 0 from hden]
    exact BitVec.toInt_zero
  · obtain ⟨hs, hfits⟩ := not_or.mp hfault
    obtain ⟨gen, hstore, hsame, hquot, hrem⟩ := run_storeQuotRem z _ _ h s'
    have hwidth := Nat.le_of_lt z.bits_lt_divBits
    have hcut : (Cpu.quotReg { s'.cpu with gen := gen } z).toInt =
        (st.cpu.dividend z).toInt.tdiv s.toInt := by
      rw [hquot, ← toInt_quot z s hcorner]
      refine toInt_cut hwidth z.bits_pos ?_
      show FitsSigned z.bits (BitVec.sdiv _ _).toInt
      rw [toInt_quot z s hcorner]
      exact not_not.mp hfits
    have hrest : (Cpu.remReg { s'.cpu with gen := gen } z).toInt =
        (st.cpu.dividend z).toInt.tmod s.toInt := by
      rw [hrem, ← toInt_rem]
      refine toInt_cut hwidth z.bits_pos ?_
      show FitsSigned z.bits (BitVec.srem _ _).toInt
      rw [toInt_rem]
      exact fits_tmod _ hs
    refine ⟨gen, hstore, hsame, ?_⟩
    show QuotRem (st.cpu.dividend z).toInt s.toInt (Cpu.quotReg { s'.cpu with gen := gen } z).toInt
      (Cpu.remReg { s'.cpu with gen := gen } z).toInt
    rw [hcut, hrest]
    exact quotRem_trunc _ hs

/-- In the corner the C division overflows. -/
theorem idiv_corner (h : Host) {st : St} (hcorner : (idiv z s).Corner st.cpu) :
    ∃ d : CDivision, ¬d.Defined ∧ ((idivSize z s).run h st).2.divisions = d :: st.divisions := by
  rw [corner_iff] at hcorner
  have hzero : decide (s = 0) = false := by
    refine decide_eq_false fun hs => ?_
    have hone := toInt_neg_one (Nat.zero_lt_of_lt z.bits_lt_divBits)
    rw [← hcorner.2, toInt_den, (toInt_eq_zero z s).mpr hs] at hone
    omega
  refine ⟨⟨true, z.divBits, _, _⟩, fun hdefined => hdefined.fits rfl hcorner, ?_⟩
  rw [idivSize_run, hzero]
  refine divide_divisions h st fun q r s' => ?_
  obtain ⟨gen, hstore, -⟩ := run_storeQuotRem z (q.setWidth z.bits) (r.setWidth z.bits) h s'
  rw [hstore]

end Signed

/-! ### `AAM` -/

theorem low_digits (q r : U8) :
    (r.setWidth 16 ||| q.setWidth 16 <<< 8 : U16) = q ++ r := by
  apply BitVec.eq_of_getLsbD_eq
  intro i hi
  rw [BitVec.getLsbD_append, BitVec.getLsbD_or, BitVec.getLsbD_shiftLeft, BitVec.getLsbD_setWidth,
    BitVec.getLsbD_setWidth]
  by_cases h : i < 8
  · simp [h]
    omega
  · have hr : r.getLsbD i = false := BitVec.getLsbD_of_ge r i (by omega)
    simp [h, hr, hi]
    omega

/-- Bytes promoted to `int` are not negative. -/
theorem byte_division (d base : U8) :
    (d.setWidth 32 : U32).sdiv (base.setWidth 32) = (d / base).setWidth 32 ∧
      (d.setWidth 32 : U32).srem (base.setWidth 32) = (d % base).setWidth 32 := by
  have hmsb : ∀ x : U8, (x.setWidth 32 : U32).msb = false := by
    intro x
    rw [BitVec.msb_setWidth, BitVec.getLsbD_of_ge x _ (by decide), Bool.and_false]
  have hcast : ∀ x : U8, (x.setWidth 32 : U32).toNat = x.toNat :=
    fun x => BitVec.toNat_setWidth_of_le (by decide)
  rw [BitVec.sdiv_eq, BitVec.srem_eq, hmsb, hmsb]
  constructor
  · apply BitVec.eq_of_toNat_eq
    show (BitVec.udiv _ _).toNat = _
    rw [BitVec.udiv_eq, BitVec.toNat_udiv, hcast, hcast, hcast, BitVec.toNat_udiv]
  · apply BitVec.eq_of_toNat_eq
    show (BitVec.umod _ _).toNat = _
    rw [BitVec.umod_eq, BitVec.toNat_umod, hcast, hcast, hcast, BitVec.toNat_umod]

/-- The division of `AAM`. -/
def aamDivision (c : Cpu) (base : U8) : CDivision :=
  ⟨true, 32, (c.get8 .al).setWidth 32, base.setWidth 32⟩

/-- The two digits that `AAM` stores. -/
theorem run_aam (base : U8) (h : Host) (st : St) (hbase : base ≠ 0) :
    ∃ gen eflg, (aam base).run.run h st = ((), { st with
        cpu := { st.cpu with gen := gen, eflg := eflg }
        divisions := aamDivision st.cpu base :: st.divisions }) ∧ st.cpu.SameButAxDx gen ∧
      Cpu.get8 { st.cpu with gen := gen, eflg := eflg } .ah = st.cpu.get8 .al / base ∧
      Cpu.get8 { st.cpu with gen := gen, eflg := eflg } .al = st.cpu.get8 .al % base := by
  obtain ⟨hsdiv, hsrem⟩ := byte_division (st.cpu.get8 .al) base
  have hquot : (aamDivision st.cpu base).quot.setWidth 16 =
      (st.cpu.get8 .al / base).setWidth 16 := by
    show (BitVec.sdiv ((st.cpu.get8 .al).setWidth 32) (base.setWidth 32)).setWidth 16 = _
    rw [hsdiv, BitVec.setWidth_setWidth_of_le _ (by decide)]
  have hrem : (aamDivision st.cpu base).rem.setWidth 16 =
      (st.cpu.get8 .al % base).setWidth 16 := by
    show (BitVec.srem ((st.cpu.get8 .al).setWidth 32) (base.setWidth 32)).setWidth 16 = _
    rw [hsrem, BitVec.setWidth_setWidth_of_le _ (by decide)]
  have hword : (aamDivision st.cpu base).rem.setWidth 16 |||
      (aamDivision st.cpu base).quot.setWidth 16 <<< 8 =
        (st.cpu.get8 .al / base) ++ (st.cpu.get8 .al % base) := by
    rw [hquot, hrem]
    exact low_digits _ _
  have hrun : (aam base).run = (do set16 .ax (← aamWord (← get8 .al) base)) := by
    show (if base = 0 then _ else _) = _
    exact if_neg hbase
  rw [hrun]
  refine ⟨_, _, rfl, fun r hax _ => ?_, ?_, ?_⟩
  · exact Function.update_of_ne hax _ _
  · change (setLo16 _ ((aamDivision st.cpu base).rem.setWidth 16 |||
      (aamDivision st.cpu base).quot.setWidth 16 <<< 8)).extractLsb' 8 8 = _
    rw [hword, setLo16, BitVec.extractLsb'_append_eq_of_add_le (by decide)]
    exact BitVec.extractLsb'_append_eq_left
  · change (setLo16 _ ((aamDivision st.cpu base).rem.setWidth 16 |||
      (aamDivision st.cpu base).quot.setWidth 16 <<< 8)).extractLsb' 0 8 = _
    rw [hword, setLo16, BitVec.extractLsb'_append_eq_of_add_le (by decide)]
    exact BitVec.extractLsb'_append_eq_right

theorem byte_ne_intMin (x : U8) : x.setWidth 32 ≠ BitVec.intMin 32 := by
  intro hmin
  have hnat := congrArg BitVec.toNat hmin
  rw [BitVec.toNat_setWidth_of_le (by decide)] at hnat
  have hlt := x.isLt
  rw [hnat] at hlt
  exact absurd hlt (by decide)

theorem aam_divided (base : U8) (h : Host) {st : St} (hbase : base ≠ 0) :
    (aam base).Divided st ((aam base).run.run h st).2 := by
  obtain ⟨gen, eflg, hrun, hsame, hquot, hrem⟩ := run_aam base h st hbase
  have hne : base.toNat ≠ 0 := fun h0 => hbase (BitVec.eq_of_toNat_eq h0)
  have hnofault : ¬(aam base).Faults st.cpu := by
    rintro (hzero | hfits)
    · exact hne (Int.ofNat.inj hzero)
    · apply hfits
      have hle := Nat.div_le_self (st.cpu.get8 .al).toNat base.toNat
      have hlt := (st.cpu.get8 .al).isLt
      show FitsUnsigned 8 ((unsigned (st.cpu.get8 .al)).tdiv (unsigned base))
      unfold FitsUnsigned unsigned
      rw [← Int.ofNat_tdiv]
      exact ⟨Int.natCast_nonneg _, by exact_mod_cast hle.trans_lt hlt⟩
  rw [hrun]
  refine ⟨⟨[aamDivision st.cpu base], rfl, ?_⟩, fun hfault => absurd hfault hnofault,
    fun _ => ⟨gen, eflg, rfl, hsame, ?_⟩⟩
  · intro d hd
    rw [List.mem_singleton.mp hd]
    refine ⟨fun hzero => hne ?_, fun _ hover => byte_ne_intMin _ hover.1⟩
    have hnat : (base.setWidth 32 : U32).toNat = 0 := congrArg BitVec.toNat hzero
    rw [BitVec.toNat_setWidth_of_le (by decide : 8 ≤ 32)] at hnat
    exact hnat
  · show QuotRem (unsigned (st.cpu.get8 .al)) (unsigned base)
      (unsigned (Cpu.get8 { st.cpu with gen := gen, eflg := eflg } .ah))
      (unsigned (Cpu.get8 { st.cpu with gen := gen, eflg := eflg } .al))
    unfold unsigned
    rw [hquot, hrem, BitVec.toNat_udiv, BitVec.toNat_umod]
    exact quotRem_nat _ hne

/-- After the raise for base 0 the division by 0 is evaluated. -/
theorem aam_corner (h : Host) (st : St) : ∃ d : CDivision, ¬d.Defined ∧
    ((aam 0).run.run h st).2.divisions = d :: st.divisions := by
  have hkept : (x86emuIntrRaise 0 (intrTypeSoft ||| intrModeRestart) 0 st).divisions =
      st.divisions := by
    unfold x86emuIntrRaise
    dsimp only
    split <;> rfl
  refine ⟨aamDivision (x86emuIntrRaise 0 (intrTypeSoft ||| intrModeRestart) 0 st).cpu 0,
    fun hdefined => hdefined.den_ne rfl, ?_⟩
  rw [← hkept]
  rfl

/-! ### The routines -/

theorem run_divided (op : DivOp) (h : Host) {st : St} (hcorner : ¬op.Corner st.cpu) :
    op.Divided st (op.run.run h st).2 := by
  cases op with
  | div z s => exact div_divided z s h st
  | idiv z s => exact idiv_divided z s h hcorner
  | aam base => exact aam_divided base h hcorner

theorem run_corner (op : DivOp) (h : Host) {st : St} (hcorner : op.Corner st.cpu) :
    ∃ d : CDivision, ¬d.Defined ∧ (op.run.run h st).2.divisions = d :: st.divisions := by
  cases op with
  | div z s => cases z <;> exact hcorner.elim
  | idiv z s => exact idiv_corner z s h hcorner
  | aam base =>
    obtain rfl : base = 0 := hcorner
    exact aam_corner h st

end DivOp

/-! ## The instructions -/

/-- The instructions that divide: the handler, and the division with the operand's value. -/
inductive DivForm (s : St) : Emu Unit → DivOp → Prop
  | div (wide : Bool) {z : OpSize} (hz : s.cpu.mode.opSize wide = z) (htype : s.modrm.regh = 6) :
      DivForm s (oneByte (if wide then 0xf7 else 0xf6)) (.div z ((s.rm z).val s))
  | idiv (wide : Bool) {z : OpSize} (hz : s.cpu.mode.opSize wide = z) (htype : s.modrm.regh = 7) :
      DivForm s (oneByte (if wide then 0xf7 else 0xf6)) (.idiv z ((s.rm z).val s))
  | aam : DivForm s (oneByte 0xd4) (.aam (s.immAt .byte 0))

/-- Started in `s`, the handler reads its operand and divides. -/
def DivOp.Divides (op : DivOp) (h : Host) (x : Emu Unit) (s : St) : Prop :=
  ∃ u t, Reads s u ∧ op.Divided u t ∧ (seen h x s).2 = t.view

theorem Reads.corner_iff {s u : St} (hu : Reads s u) (op : DivOp) :
    op.Corner u.cpu ↔ op.Corner s.cpu := by
  obtain ⟨eip, segDsSs, halted, hcpu⟩ := hu.cpu
  rw [hcpu]
  cases op with
  | div z s => cases z <;> exact Iff.rfl
  | idiv z s => cases z <;> exact Iff.rfl
  | aam base => exact Iff.rfl

theorem Reads.divisions {s u : St} (hu : Reads s u) : u.divisions = s.divisions := by
  obtain ⟨cpu, mem, intr, rfl⟩ := hu.rest
  rfl

section

variable {inp : PortInput} {h : Host} (hh : h.Blind inp)

include hh

omit hh in
theorem oneByte_group (wide : Bool) :
    oneByte (if wide then 0xf7 else 0xf6) = Op.groupRm wide := by
  cases wide with
  | false => exact oneByte_eq (f := Op.opcF6ByteRm) 0xf6 rfl
  | true => exact oneByte_eq (f := Op.opcF7WordRm) 0xf7 rfl

/-- The handlers read their operand and go on with the routine. -/
theorem DivForm.run {s : St} {x : Emu Unit} {op : DivOp} (hform : DivForm s x op) :
    ∃ u, Reads s u ∧ (seen h x s).2 = (op.run.run h u).2.view := by
  cases hform with
  | div wide hz htype =>
    obtain ⟨u, hu, hx⟩ := groupRm_uses hh hz (by rw [htype]; decide)
    refine ⟨u, hu, ?_⟩
    rw [oneByte_group, hx, htype]
    rfl
  | idiv wide hz htype =>
    obtain ⟨u, hu, hx⟩ := groupRm_uses hh hz (by rw [htype]; decide)
    refine ⟨u, hu, ?_⟩
    rw [oneByte_group, hx, htype]
    rfl
  | aam =>
    refine ⟨s.fetched .b8, Reads.refl.fetched .b8, ?_⟩
    rw [oneByte_eq (f := Op.aam) 0xd4 rfl]
    unfold Op.aam
    rw [seen_step hh (seen_opDecode _ s), seen_step hh (seen_fetchByte hh s)]
    show _ = (seen h (DivOp.aam (s.immAt .byte 0)).run (s.fetched .b8)).2
    unfold St.immAt
    rw [advance_zero]
    rfl

/-- In the corner cases the C division that is evaluated has no value. -/
theorem DivForm.undefined {s : St} {x : Emu Unit} {op : DivOp} (hform : DivForm s x op)
    (hcorner : op.Corner s.cpu) : ¬op.Divides h x s := by
  obtain ⟨u, hu, hx⟩ := hform.run hh
  obtain ⟨d, hundef, hdiv⟩ := op.run_corner h ((hu.corner_iff op).mpr hcorner)
  rintro ⟨u', t, hu', hdivided, ht⟩
  refine DivOp.not_divided hundef ?_ hdivided
  have hview : t.view = (op.run.run h u).2.view := ht.symm.trans hx
  have hsame : t.view.divisions = (op.run.run h u).2.view.divisions := by rw [hview]
  calc t.divisions = (op.run.run h u).2.divisions := hsame
    _ = d :: u'.divisions := by rw [hdiv, hu.divisions, hu'.divisions]

/-- An instruction that divides keeps its promise exactly when it is not one of the corner cases. -/
theorem divides_iff {s : St} {x : Emu Unit} {op : DivOp} (hform : DivForm s x op) :
    op.Divides h x s ↔ ¬op.Corner s.cpu := by
  refine ⟨fun hdivides hcorner => hform.undefined hh hcorner hdivides, fun hcorner => ?_⟩
  obtain ⟨u, hu, hx⟩ := hform.run hh
  exact ⟨u, _, hu, op.run_divided h fun hu' => hcorner ((hu.corner_iff op).mp hu'), hx⟩

end

/-- `div cl` of 100 by 7. -/
theorem divides_iff_div :
    let s : St := {
      mem := fullMem fun _ => 0xf1
      cpu := { gen := fun r => if r = .ax then 100 else if r = .cx then 7 else 0 } }
    (DivOp.div .byte 7).Divides (defaultHost fun _ _ _ => 0) (oneByte 0xf6) s := by
  intro s
  have hmod : s.modrm.mod = 3 := by decide +kernel
  have hregl : s.modrm.regl = 1 := by decide +kernel
  have hval : (s.rm .byte).val s = 7 := by
    rw [St.rm, if_pos hmod, hregl]
    decide +kernel
  have hform : DivForm s (oneByte 0xf6) (.div .byte ((s.rm .byte).val s)) :=
    .div false rfl (by decide +kernel)
  rw [hval] at hform
  exact (divides_iff (defaultHost_default fun _ _ _ => 0).blind hform).mpr fun hcorner => hcorner

/-- `idiv ecx` of -2^63 by -1, and `aam` with base 0. -/
theorem divides_fails :
    let s : St := {
      mem := fullMem fun _ => 0xf9
      cpu := {
        mode := { data32 := true }
        gen := fun r => if r = .dx then 0x80000000 else if r = .cx then 0xffffffff else 0 } }
    let s' : St := { mem := fullMem fun _ => 0 }
    let h := defaultHost fun _ _ _ => 0
    ¬(DivOp.idiv .long 0xffffffff).Divides h (oneByte 0xf7) s ∧
      ¬(DivOp.aam 0).Divides h (oneByte 0xd4) s' := by
  intro s s' h
  have hblind : h.Blind fun _ _ _ => 0 := (defaultHost_default fun _ _ _ => 0).blind
  constructor
  · have hmod : s.modrm.mod = 3 := by decide +kernel
    have hregl : s.modrm.regl = 1 := by decide +kernel
    have hval : (s.rm .long).val s = 0xffffffff := by
      rw [St.rm, if_pos hmod, hregl]
      decide +kernel
    have hform : DivForm s (oneByte 0xf7) (.idiv .long ((s.rm .long).val s)) :=
      .idiv true rfl (by decide +kernel)
    rw [hval] at hform
    exact hform.undefined hblind ⟨by decide, by decide⟩
  · have hbase : s'.immAt .byte 0 = 0 := by decide +kernel
    have hform : DivForm s' (oneByte 0xd4) (.aam (s'.immAt .byte 0)) := .aam
    rw [hbase] at hform
    exact hform.undefined hblind rfl

end X86Emu
