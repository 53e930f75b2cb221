import X86Emu.Alu.Compare
import X86Emu.Lib.Carry
import Mathlib.Data.Nat.Digits.Defs

/-!
# Sums and differences

The results and the flags of `add`, `adc`, `sbb`, `inc`, `dec` and `neg`. The carry chain of the
source is the list of the carries of the sum, and the borrow chain that of the missing carries of
the sum with the complement. So each flag says of one reading of the operands, as numbers without
sign, with sign or of one hexadecimal digit, that the result does not fit.
-/

namespace X86Emu

open Lib

/-- The flags that arithmetic writes. -/
def statusFlags : List Flag := [.cf, .pf, .af, .zf, .sf, .of]

/-- A result and the flags after it, for the operation `op` on one reading of the operands. -/
structure Exact {w : Nat} (op : (BitVec w → Int) → Int) (fl : U32) (out : BitVec w × U32) :
    Prop where
  result : out.1 = BitVec.ofInt w (op unsigned)
  aux : out.2.getLsbD Flag.af.bit = true ↔ ¬FitsUnsigned 4 (op nibble)
  overflow : out.2.getLsbD Flag.of.bit = true ↔ ¬FitsSigned w (op BitVec.toInt)
  sign : out.2.getLsbD Flag.sf.bit = out.1.getLsbD (w - 1)
  zero : out.2.getLsbD Flag.zf.bit = true ↔ out.1 = 0
  parity : out.2.getLsbD Flag.pf.bit = true ↔ EvenParity (out.1.setWidth 8)
  frame : ∀ i, (∀ f ∈ statusFlags, i ≠ f.bit) → out.2.getLsbD i = fl.getLsbD i

/-- With the carry flag as carry or borrow. -/
def ExactCarry {w : Nat} (op : (BitVec w → Int) → Int) (fl : U32) (out : BitVec w × U32) : Prop :=
  Exact op fl out ∧ (out.2.getLsbD Flag.cf.bit = true ↔ ¬FitsUnsigned w (op unsigned))

/-- With the carry flag kept. -/
def ExactKeep {w : Nat} (op : (BitVec w → Int) → Int) (fl : U32) (out : BitVec w × U32) : Prop :=
  Exact op fl out ∧ out.2.getLsbD Flag.cf.bit = fl.getLsbD Flag.cf.bit

/-! ## Flags from a chain -/

/-- The flags but `CF` after a result and its chain. -/
structure ChainFlags (w : Nat) (res chain fl fl' : U32) : Prop where
  af : fl'.getLsbD Flag.af.bit = chain.getLsbD 3
  of : fl'.getLsbD Flag.of.bit = xor2 (chain >>> (w - 2))
  sf : fl'.getLsbD Flag.sf.bit = res.getLsbD (w - 1)
  zf : fl'.getLsbD Flag.zf.bit = decide (res.setWidth w = 0)
  pf : fl'.getLsbD Flag.pf.bit = parity res
  frame : ∀ i, (∀ f ∈ statusFlags, i ≠ f.bit) → fl'.getLsbD i = fl.getLsbD i

theorem setFlags_chain (w : Nat) (res chain fl : U32) :
    let fl' := ((do setResFlags w res; setChainFlags w chain : FlagOp Unit).run () fl).2
    ChainFlags w res chain fl fl' ∧ fl'.getLsbD Flag.cf.bit = fl.getLsbD Flag.cf.bit := by
  unfold setResFlags setChainFlags
  simp only [Prog.run_bind]
  refine ⟨⟨?_, ?_, ?_, ?_, ?_, ?_⟩, ?_⟩
  case refine_6 =>
    intro i hi
    simp only [statusFlags, List.mem_cons, List.not_mem_nil, or_false, forall_eq_or_imp,
      forall_eq] at hi
    obtain ⟨-, hpf, haf, hzf, hsf, hof⟩ := hi
    simp only [getLsbD_condSet, hpf, haf, hzf, hsf, hof, if_false]
  all_goals simp only [getLsbD_condSet]
  all_goals simp [Flag.bit]

theorem condSet_frame (b : Bool) (fl : U32) (i : Nat) (hi : ∀ f ∈ statusFlags, i ≠ f.bit) :
    ((condSet b .cf).run () fl).2.getLsbD i = fl.getLsbD i := by
  rw [getLsbD_condSet, if_neg (hi .cf (by decide))]

theorem addFlags_chain (w : Nat) (carry : Bool) (d s res fl : U32) :
    let fl' := ((addFlags w carry d s res).run () fl).2
    ChainFlags w res (carryChain d s res) fl fl' ∧ fl'.getLsbD Flag.cf.bit = carry := by
  obtain ⟨hchain, hkeep⟩ := setFlags_chain w res (carryChain d s res)
    ((condSet carry .cf).run () fl).2
  refine ⟨{ hchain with frame := ?_ }, ?_⟩
  · intro i hi
    exact (hchain.frame i hi).trans (condSet_frame carry fl i hi)
  · refine hkeep.trans ?_
    rw [getLsbD_condSet, if_pos rfl]

theorem subFlags_chain (w : Nat) (d s res fl : U32) :
    let fl' := ((subFlags w d s res).run () fl).2
    ChainFlags w res (borrowChain d s res) fl fl' ∧
      fl'.getLsbD Flag.cf.bit = (borrowChain d s res).getLsbD (w - 1) := by
  refine ⟨⟨subFlags_flag w d s res fl .af, subFlags_flag w d s res fl .of,
    subFlags_flag w d s res fl .sf, subFlags_flag w d s res fl .zf,
    subFlags_flag w d s res fl .pf, ?_⟩, subFlags_flag w d s res fl .cf⟩
  intro i hi
  simp only [statusFlags, List.mem_cons, List.not_mem_nil, or_false, forall_eq_or_imp,
    forall_eq] at hi
  obtain ⟨hcf, hpf, haf, hzf, hsf, hof⟩ := hi
  unfold subFlags setResFlags setChainFlags
  simp only [Prog.run_bind, getLsbD_condSet, hcf, hpf, haf, hzf, hsf, hof, if_false]

section Widths

variable {w : Nat} {op : (BitVec (w + 1) → Int) → Int} {r : BitVec (w + 1)} {res chain fl fl' : U32}

/-- A chain whose bits say that the readings do not fit gives the flags. -/
theorem ChainFlags.exact (hw : w + 1 ≤ 32) (h8 : 8 ≤ w + 1)
    (h : ChainFlags (w + 1) res chain fl fl') (hres : res.setWidth (w + 1) = r)
    (hr : r = BitVec.ofInt (w + 1) (op unsigned))
    (haux : chain.getLsbD 3 = true ↔ ¬FitsUnsigned 4 (op nibble))
    (hover : (chain.getLsbD (w - 1) ^^ chain.getLsbD w) = true ↔
      ¬FitsSigned (w + 1) (op BitVec.toInt)) :
    Exact op fl (r, fl') where
  result := hr
  aux := by rw [h.af, haux]
  overflow := by
    rw [h.of, xor2_shift, show w + 1 - 2 = w - 1 by omega, show w - 1 + 1 = w by omega, hover]
  sign := by
    rw [h.sf, ← hres, BitVec.getLsbD_setWidth]
    simp
  zero := by
    rw [h.zf, hres, decide_eq_true_eq]
  parity := by
    rw [h.pf, parity_eq, ← hres, BitVec.setWidth_setWidth_of_le _ h8]
  frame := h.frame

/-! ## Sums -/

/-- The carry chain lists the carries of the sum. -/
theorem getLsbD_carryChain (d s : U32) (c : Bool) {i : Nat} (hi : i < 32) :
    (carryChain d s (d + s + bit 32 c)).getLsbD i = BitVec.carry (i + 1) d s c := by
  rw [← carry_succ_eq_chain hi]
  unfold carryChain
  simp [hi]

theorem carry_widen (hw : w + 1 ≤ 32) (d s : BitVec (w + 1)) (c : Bool) (i : Nat) :
    BitVec.carry i (widen d) (widen s) c = BitVec.carry i d s c := by
  unfold BitVec.carry
  rw [toNat_widen hw, toNat_widen hw]

theorem setWidth_widen_add (hw : w + 1 ≤ 32) (d s : BitVec (w + 1)) (c : Bool) :
    (widen d + widen s + bit 32 c).setWidth (w + 1) = d + s + bit (w + 1) c := by
  have hbit : (bit 32 c).setWidth (w + 1) = bit (w + 1) c := by
    unfold bit
    exact BitVec.setWidth_setWidth_of_le _ hw
  rw [BitVec.setWidth_add _ _ hw, BitVec.setWidth_add _ _ hw, setWidth_widen hw, setWidth_widen hw,
    hbit]

theorem ofInt_unsigned (d : BitVec w) : BitVec.ofInt w (unsigned d) = d := by
  unfold unsigned
  rw [BitVec.ofInt_natCast, BitVec.ofNat_toNat, BitVec.setWidth_eq]

theorem ofInt_bit (c : Bool) : BitVec.ofInt w c.toNat = bit w c := by
  cases c with
  | true => rw [bit_true]; rfl
  | false => rw [bit_false]; rfl

/-- The sum of two words and a carry. -/
theorem exact_add (hw : w + 1 ≤ 32) (h8 : 8 ≤ w + 1) (d s : BitVec (w + 1)) (c : Bool)
    {res fl fl' : U32} (hres : res = widen d + widen s + bit 32 c)
    (h : ChainFlags (w + 1) res (carryChain (widen d) (widen s) res) fl fl') :
    Exact (fun e => e d + e s + c.toNat) fl (res.setWidth (w + 1), fl') := by
  subst hres
  refine h.exact hw h8 rfl ?_ ?_ ?_
  · rw [setWidth_widen_add hw, BitVec.ofInt_add, BitVec.ofInt_add, ofInt_unsigned, ofInt_unsigned,
      ofInt_bit]
  · rw [getLsbD_carryChain _ _ _ (by decide), carry_widen hw, carry_nibble]
  · rw [getLsbD_carryChain _ _ _ (by omega), getLsbD_carryChain _ _ _ hw, carry_widen hw,
      carry_widen hw, show w - 1 + 1 = w by omega, carry_signed]

/-! ## Differences -/

/-- The borrow chain lists the borrows of the difference. -/
theorem getLsbD_borrowChain_bit (d s : U32) (b : Bool) {i : Nat} (hi : i < 32) :
    (borrowChain d s (d - s - bit 32 b)).getLsbD i = borrowIn (i + 1) d s b := by
  rw [← borrowIn_succ_eq_chain hi]
  unfold borrowChain
  simp [hi]

theorem borrowIn_widen (hw : w + 1 ≤ 32) (d s : BitVec (w + 1)) (b : Bool) (i : Nat) :
    borrowIn i (widen d) (widen s) b = borrowIn i d s b := by
  unfold borrowIn
  rw [toNat_widen hw, toNat_widen hw]

theorem setWidth_bit (hw : w + 1 ≤ 32) (c : Bool) :
    (bit 32 c).setWidth (w + 1) = bit (w + 1) c := by
  unfold bit
  exact BitVec.setWidth_setWidth_of_le _ hw

theorem setWidth_sub_bit (hw : w + 1 ≤ 32) (x : U32) (b : Bool) :
    (x - bit 32 b).setWidth (w + 1) = x.setWidth (w + 1) - bit (w + 1) b := by
  have hsum : (x - bit 32 b).setWidth (w + 1) + bit (w + 1) b = x.setWidth (w + 1) := by
    rw [← setWidth_bit hw, ← BitVec.setWidth_add _ _ hw, BitVec.sub_add_cancel]
  rw [← hsum, BitVec.add_sub_cancel]

/-- The difference of two words and a borrow. -/
theorem exact_sub (hw : w + 1 ≤ 32) (h8 : 8 ≤ w + 1) (d s : BitVec (w + 1)) (b : Bool)
    {res fl fl' : U32} (hres : res = widen d - widen s - bit 32 b)
    (h : ChainFlags (w + 1) res (borrowChain (widen d) (widen s) res) fl fl') :
    Exact (fun e => e d - e s - b.toNat) fl (res.setWidth (w + 1), fl') := by
  subst hres
  refine h.exact hw h8 rfl ?_ ?_ ?_
  · rw [setWidth_sub_bit hw, setWidth_widen_sub hw, Int.sub_eq_add_neg, Int.sub_eq_add_neg,
      BitVec.ofInt_add, BitVec.ofInt_add, BitVec.ofInt_neg, BitVec.ofInt_neg, ofInt_unsigned,
      ofInt_unsigned, ofInt_bit,
      BitVec.sub_eq_add_neg, BitVec.sub_eq_add_neg]
  · rw [getLsbD_borrowChain_bit _ _ _ (by decide), borrowIn_widen hw, borrow_nibble]
  · rw [getLsbD_borrowChain_bit _ _ _ (by omega), getLsbD_borrowChain_bit _ _ _ hw,
      borrowIn_widen hw, borrowIn_widen hw, show w - 1 + 1 = w by omega, borrow_signed]

/-! ## The functions of one width -/

/-- The 32 bit sum with the carry flag. -/
theorem add_bit (c : Bool) (d s : U32) : (if c then 1 + d + s else d + s) = d + s + bit 32 c := by
  cases c with
  | true =>
    rw [bit_true, if_pos rfl]
    grind
  | false =>
    rw [bit_false]
    exact (BitVec.add_zero _).symm

theorem sub_bit (b : Bool) (d s : U32) : (if b then d - s - 1 else d - s) = d - s - bit 32 b := by
  cases b with
  | true =>
    rw [bit_true, if_pos rfl]
  | false =>
    rw [bit_false]
    exact (BitVec.sub_zero _).symm

section

variable (hw : w + 1 ≤ 32) (h8 : 8 ≤ w + 1) (d s : BitVec (w + 1)) (fl : U32)

include hw

/-- The bit above the operands is the carry. -/
theorem carry_narrow (hlt : w + 1 < 32) (c : Bool) :
    (widen d + widen s + bit 32 c).getLsbD (w + 1) = BitVec.carry (w + 1) d s c := by
  have hhigh : ∀ x : BitVec (w + 1), (widen x).getLsbD (w + 1) = false := by
    intro x
    unfold widen
    rw [BitVec.getLsbD_setWidth, BitVec.getLsbD_of_ge x _ (Nat.le_refl _)]
    simp
  unfold bit
  rw [BitVec.getLsbD_add_add_bool hlt, hhigh, hhigh, carry_widen hw]
  simp

include h8

/-- The sum of two words and a carry, with the flags of `addFlags`. -/
theorem addFlags_exact (c : Bool) {cf : Bool} (hcf : cf = BitVec.carry (w + 1) d s c) {res : U32}
    (hres : res = widen d + widen s + bit 32 c) :
    ExactCarry (fun e => e d + e s + c.toNat) fl (res.setWidth (w + 1),
      ((addFlags (w + 1) cf (widen d) (widen s) res).run () fl).2) := by
  obtain ⟨hchain, hcarry⟩ := addFlags_chain (w + 1) cf (widen d) (widen s) res fl
  refine ⟨exact_add hw h8 d s c hres hchain, ?_⟩
  rw [hcarry, hcf, carry_unsigned]

theorem adcNarrow_exact (hlt : w + 1 < 32) :
    ExactCarry (fun e => e d + e s + (fl.getLsbD Flag.cf.bit).toNat) fl
      ((adcNarrow d s).run () fl) := by
  have hres := add_bit (fl.getLsbD Flag.cf.bit) (widen d) (widen s)
  refine addFlags_exact hw h8 d s fl (fl.getLsbD Flag.cf.bit) ?_ hres
  rw [← carry_narrow hw d s hlt, ← hres]
  rfl

theorem addNarrow_exact (hlt : w + 1 < 32) :
    ExactCarry (fun e => e d + e s) fl ((addNarrow d s).run () fl) := by
  have hres := add_bit false (widen d) (widen s)
  have hexact := addFlags_exact hw h8 d s fl false (carry_narrow hw d s hlt false) hres
  rw [← hres] at hexact
  simp only [Bool.toNat_false, Nat.cast_zero, Int.add_zero] at hexact
  exact hexact

theorem sbbVal_exact :
    ExactCarry (fun e => e d - e s - (fl.getLsbD Flag.cf.bit).toNat) fl
      ((sbbVal d s).run () fl) := by
  have hres := sub_bit (fl.getLsbD Flag.cf.bit) (widen d) (widen s)
  obtain ⟨hchain, hcarry⟩ := subFlags_chain (w + 1) (widen d) (widen s)
    (if fl.getLsbD Flag.cf.bit then widen d - widen s - 1 else widen d - widen s) fl
  refine ⟨exact_sub hw h8 d s _ hres hchain, ?_⟩
  refine (congrArg (· = true) hcarry).to_iff.trans ?_
  rw [hres, Nat.add_sub_cancel, getLsbD_borrowChain_bit _ _ _ hw, borrowIn_widen hw,
    borrow_unsigned]

/-- Increment and decrement are sum and difference with 1, which has the reading 1. -/
theorem reading_one :
    unsigned (1 : BitVec (w + 1)) = 1 ∧ BitVec.toInt (1 : BitVec (w + 1)) = 1 ∧
      nibble (1 : BitVec (w + 1)) = 1 := by
  have htwo : 2 ^ 7 ≤ 2 ^ w := Nat.pow_le_pow_right (by decide) (by omega)
  have hone : (1 : BitVec (w + 1)).toNat = 1 := by
    show 1 % 2 ^ (w + 1) = 1
    exact Nat.mod_eq_of_lt (by omega)
  refine ⟨?_, ?_, ?_⟩
  · unfold unsigned
    rw [hone]
    rfl
  · rw [BitVec.toInt_eq_toNat_cond, hone, if_pos (by omega)]
    rfl
  · unfold nibble
    rw [hone]
    rfl

/-- An operation with 1 as second operand. -/
theorem Exact.one {f : (BitVec (w + 1) → Int) → Int → Int} {out : BitVec (w + 1) × U32}
    (h : Exact (fun e => f e (e 1)) fl out) : Exact (fun e => f e 1) fl out := by
  obtain ⟨hunsigned, hsigned, hnibble⟩ := reading_one hw h8
  obtain ⟨hresult, haux, hover, hsign, hzero, hparity, hframe⟩ := h
  rw [hunsigned] at hresult
  rw [hnibble] at haux
  rw [hsigned] at hover
  exact ⟨hresult, haux, hover, hsign, hzero, hparity, hframe⟩

theorem widen_one : widen (1 : BitVec (w + 1)) = 1 := by
  apply BitVec.eq_of_toNat_eq
  have htwo : 2 ^ 7 ≤ 2 ^ w := Nat.pow_le_pow_right (by decide) (by omega)
  rw [toNat_widen hw]
  show 1 % 2 ^ (w + 1) = 1
  exact Nat.mod_eq_of_lt (by omega)

/-- The flags after an increment, with the carry chain of the sum with 1. -/
theorem exact_inc {fl' : U32}
    (h : ChainFlags (w + 1) (widen d + 1) (carryChain (widen d) 1 (widen d + 1)) fl fl') :
    Exact (fun e => e d + 1) fl ((widen d + 1).setWidth (w + 1), fl') := by
  have hsum : widen d + 1 = widen d + widen (1 : BitVec (w + 1)) + bit 32 false := by
    rw [widen_one hw h8, bit_false]
    exact (BitVec.add_zero _).symm
  have hexact := exact_add hw h8 d 1 false hsum (by rwa [widen_one hw h8])
  simp only [Bool.toNat_false, Nat.cast_zero, Int.add_zero] at hexact
  exact Exact.one hw h8 (f := fun e one => e d + one) fl hexact

theorem incVal_exact : ExactKeep (fun e => e d + 1) fl ((incVal d).run () fl) := by
  obtain ⟨hchain, hkeep⟩ := setFlags_chain (w + 1) (widen d + 1)
    (carryChain (widen d) 1 (widen d + 1)) fl
  exact ⟨exact_inc hw h8 d fl hchain, hkeep⟩

theorem decVal_exact : ExactKeep (fun e => e d - 1) fl ((decVal d).run () fl) := by
  have hdiff : widen d - 1 = widen d - widen (1 : BitVec (w + 1)) - bit 32 false := by
    rw [widen_one hw h8, bit_false]
    exact (BitVec.sub_zero _).symm
  obtain ⟨hchain, hkeep⟩ := setFlags_chain (w + 1) (widen d - 1)
    (borrowChain (widen d) 1 (widen d - 1)) fl
  have hexact := exact_sub hw h8 d 1 false hdiff (by rwa [widen_one hw h8])
  simp only [Bool.toNat_false, Nat.cast_zero, Int.sub_zero] at hexact
  exact ⟨Exact.one hw h8 (f := fun e one => e d - one) fl hexact, hkeep⟩

/-- In the chain of a difference from 0 the minuend is gone. -/
theorem getLsbD_negChain {i : Nat} (hi : i < w + 1) :
    (widen (-d ||| d)).getLsbD i = borrowIn (i + 1) 0 d false := by
  have hneg : (0 : BitVec (w + 1)) - d - bit (w + 1) false = -d := by
    rw [bit_false]
    exact (BitVec.sub_zero _).trans (BitVec.zero_sub d)
  have h32 : i < 32 := by omega
  rw [← borrowIn_succ_eq_chain hi, hneg]
  unfold widen
  simp [h32]

theorem negVal_exact : ExactCarry (fun e => -e d) fl ((negVal d).run () fl) := by
  have hzero : unsigned (0 : BitVec (w + 1)) = 0 ∧ BitVec.toInt (0 : BitVec (w + 1)) = 0 ∧
      nibble (0 : BitVec (w + 1)) = 0 := by simp [unsigned, nibble]
  obtain ⟨hunsigned, hsigned, hnibble⟩ := hzero
  obtain ⟨hchain, hkeep⟩ := setFlags_chain (w + 1) (widen (-d)) (widen (-d ||| d))
    ((condSet (d ≠ 0) .cf).run () fl).2
  have hflags := { hchain with
    frame := fun i hi => (hchain.frame i hi).trans (condSet_frame _ fl i hi) }
  have hcf := hkeep.trans (getLsbD_condSet _ _ fl _)
  have haux := borrow_nibble (0 : BitVec (w + 1)) d false
  have hover := borrow_signed (0 : BitVec (w + 1)) d false
  simp only [hnibble, hsigned, Bool.toNat_false, Nat.cast_zero, Int.sub_zero, Int.zero_sub]
    at haux hover
  refine ⟨ChainFlags.exact hw h8 hflags (setWidth_widen hw (-d)) ?_ ?_ ?_, ?_⟩
  · rw [BitVec.ofInt_neg, ofInt_unsigned]
  · rw [getLsbD_negChain hw h8 d (by omega), haux]
  · rw [getLsbD_negChain hw h8 d (by omega), getLsbD_negChain hw h8 d (by omega),
      show w - 1 + 1 = w by omega, hover]
  · refine (congrArg (· = true) hcf).to_iff.trans ?_
    have hcast : (2 : Int) ^ (w + 1) = ((2 ^ (w + 1) : Nat) : Int) := by norm_cast
    have hpos := Nat.two_pow_pos (w + 1)
    have hnat : (0 : BitVec (w + 1)).toNat = 0 := BitVec.toNat_zero
    rw [if_pos rfl, decide_eq_true_eq, Ne, ← BitVec.toNat_inj, hnat]
    show ¬d.toNat = 0 ↔ ¬(0 ≤ -(d.toNat : Int) ∧ -(d.toNat : Int) < 2 ^ (w + 1))
    rw [hcast]
    omega

end

end Widths

/-! ## 32 bit sums -/

/-- The carry of a 32 bit sum, found in 16 bit halves. -/
theorem longCarry_eq (d s : U32) (c : Bool) :
    longCarry (if c then 1 + (d &&& 0xffff) + (s &&& 0xffff) else (d &&& 0xffff) + (s &&& 0xffff))
      d s = BitVec.carry 32 d s c := by
  have hlow : ∀ x : U32, (x &&& 0xffff).toNat = x.toNat % 65536 := fun x =>
    Nat.and_two_pow_sub_one_eq_mod x.toNat 16
  have hhigh : ∀ x : U32, (x >>> 16).toNat = x.toNat / 65536 := fun x =>
    Nat.shiftRight_eq_div_pow x.toNat 16
  have hd := d.isLt
  have hs := s.isLt
  have hsum : (if c then 1 + (d &&& 0xffff) + (s &&& 0xffff)
      else (d &&& 0xffff) + (s &&& 0xffff)).toNat =
      d.toNat % 65536 + s.toNat % 65536 + c.toNat := by
    cases c with
    | true =>
      rw [if_pos rfl, BitVec.toNat_add, BitVec.toNat_add, hlow, hlow]
      show ((1 + d.toNat % 65536) % 2 ^ 32 + s.toNat % 65536) % 2 ^ 32 = _ + 1
      omega
    | false =>
      rw [if_neg (by decide), BitVec.toNat_add, hlow, hlow]
      show (d.toNat % 65536 + s.toNat % 65536) % 2 ^ 32 = _ + 0
      omega
  have hc : c.toNat ≤ 1 := c.toNat_le
  unfold longCarry BitVec.carry
  rw [BitVec.getLsbD, Nat.testBit_eq_decide_div_mod_eq, decide_eq_decide, BitVec.toNat_add,
    BitVec.toNat_add, hhigh, hhigh, hhigh, hsum]
  omega

theorem adcLong_exact (d s : U32) (fl : U32) :
    ExactCarry (fun e => e d + e s + (fl.getLsbD Flag.cf.bit).toNat) fl
      ((adcLong d s).run () fl) := by
  have hres := add_bit (fl.getLsbD Flag.cf.bit) d s
  exact addFlags_exact (by decide) (by decide) d s fl (fl.getLsbD Flag.cf.bit)
    (longCarry_eq d s (fl.getLsbD Flag.cf.bit)) hres

theorem addLong_exact (d s : U32) (fl : U32) :
    ExactCarry (fun e => e d + e s) fl ((addLong d s).run () fl) := by
  have hres := add_bit false d s
  have hexact := addFlags_exact (by decide) (by decide) d s fl false
    (longCarry_eq d s false) hres
  simp only [Bool.toNat_false, Nat.cast_zero, Int.add_zero] at hexact
  exact hexact

/-! ## Chains of limbs -/

/-- The number with these limbs, the lowest one first. -/
def limbs (l : List U32) : Nat := Nat.ofDigits (2 ^ 32) (l.map BitVec.toNat)

theorem limbs_cons (x : U32) (l : List U32) : limbs (x :: l) = x.toNat + 2 ^ 32 * limbs l :=
  Nat.ofDigits_cons

/-- `adc_long` or `sbb_long` on one pair of limbs after the other. -/
def limbChain (f : U32 → U32 → FlagOp U32) : List (U32 × U32) → FlagOp (List U32)
  | [] => return []
  | (d, s) :: l => do
    let r ← f d s
    return r :: (← limbChain f l)

/-- The carry flag as a number. -/
def carryFlag (fl : U32) : Nat := (fl.getLsbD Flag.cf.bit).toNat

/-- A step that hands its carry on, added for `sgn = 1` and subtracted for `sgn = -1`, makes a
chain that hands its last carry on. -/
theorem limbChain_value {f : U32 → U32 → FlagOp U32} {sgn : Int}
    (hstep : ∀ d s fl, ((((f d s).run () fl).1.toNat : Nat) : Int) =
      d.toNat + sgn * (s.toNat + carryFlag fl - 2 ^ 32 * carryFlag ((f d s).run () fl).2))
    (l : List (U32 × U32)) (fl : U32) :
    let out := (limbChain f l).run () fl
    out.1.length = l.length ∧
      (limbs out.1 : Int) = limbs (l.map Prod.fst) + sgn * (limbs (l.map Prod.snd) +
        carryFlag fl - 2 ^ (32 * l.length) * carryFlag out.2) := by
  induction l generalizing fl with
  | nil =>
    refine ⟨rfl, ?_⟩
    show ((0 : Nat) : Int) = (0 : Nat) + sgn * ((0 : Nat) + carryFlag fl - 1 * carryFlag fl)
    simp
  | cons p l ih =>
    obtain ⟨d, s⟩ := p
    obtain ⟨hlen, hval⟩ := ih ((f d s).run () fl).2
    refine ⟨congrArg (· + 1) hlen, ?_⟩
    have hone := hstep d s fl
    have hrun : (limbChain f ((d, s) :: l)).run () fl =
        (((f d s).run () fl).1 :: ((limbChain f l).run () ((f d s).run () fl).2).1,
          ((limbChain f l).run () ((f d s).run () fl).2).2) := rfl
    rw [hrun]
    simp only [List.map_cons, limbs_cons, List.length_cons]
    push_cast
    rw [hone, hval, Nat.mul_add, pow_add]
    ring

/-- A result with its carry. -/
theorem ExactCarry.toNat {w : Nat} {op : (BitVec w → Int) → Int} {fl : U32} {out : BitVec w × U32}
    (h : ExactCarry op fl out) :
    (out.1.toNat : Int) = op unsigned % 2 ^ w ∧
      (carryFlag out.2 = 0 ↔ FitsUnsigned w (op unsigned)) := by
  obtain ⟨hexact, hcarry⟩ := h
  have hcast : (2 : Int) ^ w = ((2 ^ w : Nat) : Int) := by norm_cast
  have hpos : (0 : Int) < 2 ^ w := by positivity
  refine ⟨?_, ?_⟩
  · rw [hexact.result, BitVec.toNat_ofInt, ← hcast]
    exact Int.toNat_of_nonneg (Int.emod_nonneg _ (by omega))
  · rw [← not_iff_not, ← hcarry]
    unfold carryFlag
    cases out.2.getLsbD Flag.cf.bit <;> simp

theorem adcLong_step (d s fl : U32) :
    ((((adcLong d s).run () fl).1.toNat : Nat) : Int) =
      d.toNat + 1 * (s.toNat + carryFlag fl - 2 ^ 32 * carryFlag ((adcLong d s).run () fl).2) := by
  obtain ⟨hval, hcarry⟩ := (adcLong_exact d s fl).toNat
  have hin : carryFlag fl ≤ 1 := Bool.toNat_le _
  have hout : carryFlag ((adcLong d s).run () fl).2 ≤ 1 := Bool.toNat_le _
  have hop : unsigned d + unsigned s + ((fl.getLsbD Flag.cf.bit).toNat : Int) =
      d.toNat + s.toNat + carryFlag fl := rfl
  rw [hop] at hval hcarry
  unfold FitsUnsigned at hcarry
  omega

theorem sbbLong_step (d s fl : U32) :
    ((((sbbLong d s).run () fl).1.toNat : Nat) : Int) =
      d.toNat + -1 * (s.toNat + carryFlag fl - 2 ^ 32 * carryFlag ((sbbLong d s).run () fl).2) := by
  obtain ⟨hval, hcarry⟩ := (sbbVal_exact (by decide) (by decide) d s fl).toNat
  have hin : carryFlag fl ≤ 1 := Bool.toNat_le _
  have hout : carryFlag ((sbbLong d s).run () fl).2 ≤ 1 := Bool.toNat_le _
  have hop : unsigned d - unsigned s - ((fl.getLsbD Flag.cf.bit).toNat : Int) =
      d.toNat - s.toNat - carryFlag fl := rfl
  rw [hop] at hval hcarry
  unfold FitsUnsigned at hcarry
  change ((((sbbLong d s).run () fl).1.toNat : Nat) : Int) = _ at hval
  change carryFlag ((sbbLong d s).run () fl).2 = 0 ↔ _ at hcarry
  omega

/-- The sum of the limb pairs `l` and the carry before, with the last carry. -/
def LimbSum (l : List (U32 × U32)) (fl : U32) (out : List U32 × U32) : Prop :=
  out.1.length = l.length ∧
    limbs out.1 + 2 ^ (32 * l.length) * carryFlag out.2 =
      limbs (l.map Prod.fst) + limbs (l.map Prod.snd) + carryFlag fl

/-- The difference of the limb pairs `l` and the borrow before, with the last borrow. -/
def LimbDiff (l : List (U32 × U32)) (fl : U32) (out : List U32 × U32) : Prop :=
  out.1.length = l.length ∧
    limbs out.1 + limbs (l.map Prod.snd) + carryFlag fl =
      limbs (l.map Prod.fst) + 2 ^ (32 * l.length) * carryFlag out.2

theorem adcLong_chain (l : List (U32 × U32)) (fl : U32) :
    LimbSum l fl ((limbChain adcLong l).run () fl) := by
  obtain ⟨hlen, hval⟩ := limbChain_value adcLong_step l fl
  refine ⟨hlen, ?_⟩
  zify
  linarith

theorem sbbLong_chain (l : List (U32 × U32)) (fl : U32) :
    LimbDiff l fl ((limbChain sbbLong l).run () fl) := by
  obtain ⟨hlen, hval⟩ := limbChain_value sbbLong_step l fl
  refine ⟨hlen, ?_⟩
  zify
  linarith

/-! ## The instructions -/

def addSize : (z : OpSize) → BitVec z.bits → BitVec z.bits → FlagOp (BitVec z.bits)
  | .byte => addByte
  | .word => addWord
  | .long => addLong

def adcSize : (z : OpSize) → BitVec z.bits → BitVec z.bits → FlagOp (BitVec z.bits)
  | .byte => adcByte
  | .word => adcWord
  | .long => adcLong

def sbbSize : (z : OpSize) → BitVec z.bits → BitVec z.bits → FlagOp (BitVec z.bits)
  | .byte => sbbByte
  | .word => sbbWord
  | .long => sbbLong

/-- `inc_byte` has another form of the carry chain. -/
theorem incByte_eq (d : U8) : incByte d = incVal d := by
  have hchain : ((1 &&& widen d) ||| ~~~(widen d + 1)) &&& (1 ||| widen d) =
      carryChain (widen d) 1 (widen d + 1) := by
    unfold carryChain
    generalize widen d + 1 = res
    apply BitVec.eq_of_getLsbD_eq
    intro i hi
    simp only [BitVec.getLsbD_and, BitVec.getLsbD_or]
    cases (1 : U32).getLsbD i <;> cases (widen d).getLsbD i <;> simp
  unfold incByte incVal
  dsimp only
  rw [hchain]

/-- The sums and differences are exact, and so are their chains. -/
theorem carryFlags_exact (z : OpSize) (d s : BitVec z.bits) (fl : U32) :
    ExactCarry (fun e => e d + e s) fl ((addSize z d s).run () fl) ∧
      ExactCarry (fun e => e d + e s + carryFlag fl) fl ((adcSize z d s).run () fl) ∧
      ExactCarry (fun e => e d - e s - carryFlag fl) fl ((sbbSize z d s).run () fl) ∧
      ExactKeep (fun e => e d + 1) fl ((incSize z d).run () fl) ∧
      ExactKeep (fun e => e d - 1) fl ((decSize z d).run () fl) ∧
      ExactCarry (fun e => -e d) fl ((negSize z d).run () fl) ∧
      ∀ l, LimbSum l fl ((limbChain adcLong l).run () fl) ∧
        LimbDiff l fl ((limbChain sbbLong l).run () fl) := by
  refine ⟨?_, ?_, ?_, ?_, ?_, ?_, fun l => ⟨adcLong_chain l fl, sbbLong_chain l fl⟩⟩
  · cases z with
    | byte => exact addNarrow_exact (by decide) (by decide) d s fl (by decide)
    | word => exact addNarrow_exact (by decide) (by decide) d s fl (by decide)
    | long => exact addLong_exact d s fl
  · cases z with
    | byte => exact adcNarrow_exact (by decide) (by decide) d s fl (by decide)
    | word => exact adcNarrow_exact (by decide) (by decide) d s fl (by decide)
    | long => exact adcLong_exact d s fl
  · cases z with
    | byte => exact sbbVal_exact (by decide) (by decide) d s fl
    | word => exact sbbVal_exact (by decide) (by decide) d s fl
    | long => exact sbbVal_exact (by decide) (by decide) d s fl
  · cases z with
    | byte =>
      show ExactKeep _ fl ((incByte d).run () fl)
      rw [incByte_eq]
      exact incVal_exact (by decide) (by decide) d fl
    | word => exact incVal_exact (by decide) (by decide) d fl
    | long => exact incVal_exact (by decide) (by decide) d fl
  · cases z with
    | byte => exact decVal_exact (by decide) (by decide) d fl
    | word => exact decVal_exact (by decide) (by decide) d fl
    | long => exact decVal_exact (by decide) (by decide) d fl
  · cases z with
    | byte => exact negVal_exact (by decide) (by decide) d fl
    | word => exact negVal_exact (by decide) (by decide) d fl
    | long => exact negVal_exact (by decide) (by decide) d fl

end X86Emu
