import X86Emu.Alu.Sums

/-!
# Decimal arithmetic

A packed decimal number has two decimal digits in each byte. `adc_byte` followed by `daa_byte` adds
one byte of two such numbers, `sbb_byte` followed by `das_byte` subtracts it. `CF` is the decimal
carry or borrow, so the bytes from the lowest to the highest one give sum and difference.
-/

namespace X86Emu

open Lib

/-- Both hexadecimal digits are decimal digits. -/
def IsBcd (x : U8) : Prop := x.toNat % 16 ≤ 9 ∧ x.toNat / 16 ≤ 9

/-- The number of two decimal digits. -/
def bcdVal (x : U8) : Nat := 10 * (x.toNat / 16) + x.toNat % 16

/-- The number with these bytes, the lowest one first. -/
def decimal (l : List U8) : Nat := Nat.ofDigits 100 (l.map bcdVal)

/-- `adc_byte` and `daa_byte` -/
def addDecimal (d s : U8) : FlagOp U8 := do daaByte (← adcByte d s)

/-- `sbb_byte` and `das_byte` -/
def subDecimal (d s : U8) : FlagOp U8 := do dasByte (← sbbByte d s)

/-- One pair of bytes after the other. -/
def decimalChain (f : U8 → U8 → FlagOp U8) : List (U8 × U8) → FlagOp (List U8)
  | [] => return []
  | (d, s) :: l => do
    let r ← f d s
    return r :: (← decimalChain f l)

/-! ## The adjustments -/

/-- `SET_FLAG` under a condition -/
def setIf (c : Bool) (f : Flag) (fl : U32) : U32 := if c then fl ||| f.mask else fl

theorem run_setIf {α : Type} (c : Bool) (f : Flag) (k : FlagOp α) (fl : U32) :
    (if c then (do setFlag f; k) else k).run () fl = k.run () (setIf c f fl) := by
  cases c <;> rfl

theorem getLsbD_setIf (c : Bool) (f : Flag) (fl : U32) (i : Nat) :
    (setIf c f fl).getLsbD i = if i = f.bit then c || fl.getLsbD i else fl.getLsbD i := by
  cases c with
  | true =>
    refine (getLsbD_condSet true f fl i).trans ?_
    rw [Bool.true_or]
  | false =>
    show fl.getLsbD i = _
    rw [Bool.false_or, ite_self]

theorem accessFlag_run (f : Flag) (fl : U32) :
    (accessFlag f).run () fl = (fl.getLsbD f.bit, fl) := (rfl)

/-- The flags of a result keep the carry. -/
theorem resultFlags_carry (sign zero even : Bool) (fl : U32) :
    ((condSet even .pf).run ()
      ((condSet zero .zf).run () ((condSet sign .sf).run () fl).2).2).2.getLsbD
      Flag.cf.bit = fl.getLsbD Flag.cf.bit := by
  simp only [getLsbD_condSet]
  simp [Flag.bit]

/-- The first adjustment: the low digit is none, or has given a carry. -/
def lowAdjust (d : U8) (fl : U32) : Bool := 9 < d &&& 0xf || fl.getLsbD Flag.af.bit

theorem lowAdjust_iff (d : U8) (fl : U32) :
    lowAdjust d fl = true ↔ 9 < d.toNat % 16 ∨ fl.getLsbD Flag.af.bit = true := by
  have hlow : (d &&& 0xf).toNat = d.toNat % 16 := Nat.and_two_pow_sub_one_eq_mod d.toNat 4
  unfold lowAdjust
  rw [Bool.or_eq_true, decide_eq_true_eq, BitVec.lt_def, hlow]
  rfl

theorem setIf_af (c : Bool) (fl : U32) :
    (setIf c .af fl).getLsbD Flag.cf.bit = fl.getLsbD Flag.cf.bit :=
  (getLsbD_setIf ..).trans (if_neg (by decide))

theorem setIf_cf (c : Bool) (fl : U32) :
    (setIf (c || fl.getLsbD Flag.cf.bit) .cf fl).getLsbD Flag.cf.bit =
      (c || fl.getLsbD Flag.cf.bit) := by
  rw [getLsbD_setIf, if_pos rfl, Bool.or_assoc, Bool.or_self]

/-- The adjusted byte, and the carry. -/
theorem daaByte_run (d : U8) (fl : U32) :
    let out := (daaByte d).run () fl
    let res := if lowAdjust d fl then widen d + 6 else widen d
    let high := decide (0x9f < res) || fl.getLsbD Flag.cf.bit
    out.1 = (if high then res + 0x60 else res).setWidth 8 ∧ out.2.getLsbD Flag.cf.bit = high := by
  unfold daaByte lowAdjust
  simp only [Prog.run_bind, accessFlag_run, run_setIf, resultFlags_carry, Prog.run_pure, setIf_af]
  refine ⟨trivial, ?_⟩
  rw [← setIf_af (_ || _) fl, setIf_cf]

theorem dasByte_run (d : U8) (fl : U32) :
    let out := (dasByte d).run () fl
    let res := if lowAdjust d fl then d - 6 else d
    let high := decide (0x9f < res) || fl.getLsbD Flag.cf.bit
    out.1 = (if high then res - 0x60 else res) ∧ out.2.getLsbD Flag.cf.bit = high := by
  unfold dasByte lowAdjust
  simp only [Prog.run_bind, accessFlag_run, run_setIf, resultFlags_carry, Prog.run_pure, setIf_af]
  refine ⟨trivial, ?_⟩
  rw [← setIf_af (_ || _) fl, setIf_cf]

/-! ## As numbers -/

/-- What an adjustment adds or subtracts. -/
def step (c : Bool) (n : Nat) : Nat := if c then n else 0

theorem toNat_adjust {w : Nat} (c : Bool) (x a : BitVec w) :
    (if c then x + a else x).toNat = (x.toNat + step c a.toNat) % 2 ^ w := by
  cases c with
  | true => exact BitVec.toNat_add x a
  | false => exact (Nat.mod_eq_of_lt x.isLt).symm

theorem toNat_adjust_sub {w : Nat} (c : Bool) (x a : BitVec w) :
    (if c then x - a else x).toNat = (2 ^ w - step c a.toNat + x.toNat) % 2 ^ w := by
  cases c with
  | true => exact BitVec.toNat_sub x a
  | false =>
    show _ = (2 ^ w + x.toNat) % 2 ^ w
    rw [Nat.add_mod_left]
    exact (Nat.mod_eq_of_lt x.isLt).symm

theorem step_le (c : Bool) (n : Nat) : step c n ≤ n := by
  cases c with
  | true => exact Nat.le_refl n
  | false => exact Nat.zero_le n

theorem daaByte_value (d : U8) (fl : U32) :
    let out := (daaByte d).run () fl
    let n := d.toNat + step (lowAdjust d fl) 6
    let high := decide (0x9f < n) || fl.getLsbD Flag.cf.bit
    out.1.toNat = (n + step high 0x60) % 256 ∧ out.2.getLsbD Flag.cf.bit = high := by
  intro out n high
  obtain ⟨hval, hcarry⟩ := daaByte_run d fl
  have hres : (if lowAdjust d fl then widen d + 6 else widen d).toNat = n := by
    have hd := d.isLt
    have hlow : step (lowAdjust d fl) 6 ≤ 6 := step_le ..
    rw [toNat_adjust, toNat_widen (w := 7) (by decide), show (6 : U32).toNat = 6 from rfl]
    exact Nat.mod_eq_of_lt (by omega)
  have hhigh : (decide (0x9f < if lowAdjust d fl then widen d + 6 else widen d) ||
      fl.getLsbD Flag.cf.bit) = high := by
    unfold high
    rw [← hres]
    rfl
  rw [hhigh] at hval hcarry
  refine ⟨?_, hcarry⟩
  rw [hval, BitVec.toNat_setWidth, toNat_adjust, hres]
  exact Nat.mod_mod_of_dvd _ (by decide)

theorem dasByte_value (d : U8) (fl : U32) :
    let out := (dasByte d).run () fl
    let n := (256 - step (lowAdjust d fl) 6 + d.toNat) % 256
    let high := decide (0x9f < n) || fl.getLsbD Flag.cf.bit
    out.1.toNat = (256 - step high 0x60 + n) % 256 ∧ out.2.getLsbD Flag.cf.bit = high := by
  intro out n high
  obtain ⟨hval, hcarry⟩ := dasByte_run d fl
  have hres : (if lowAdjust d fl then d - 6 else d).toNat = n := toNat_adjust_sub ..
  have hhigh : (decide (0x9f < if lowAdjust d fl then d - 6 else d) ||
      fl.getLsbD Flag.cf.bit) = high := by
    unfold high
    rw [← hres]
    rfl
  rw [hhigh] at hval hcarry
  refine ⟨?_, hcarry⟩
  rw [hval, toNat_adjust_sub, hres]
  rfl

/-! ## One byte -/

theorem carryFlag_le (fl : U32) : carryFlag fl ≤ 1 := Bool.toNat_le _

theorem carry_iff_one (fl : U32) : fl.getLsbD Flag.cf.bit = true ↔ carryFlag fl = 1 := by
  unfold carryFlag
  cases fl.getLsbD Flag.cf.bit <;> decide

theorem carryFlag_decide {P : Prop} [Decidable P] {fl : U32}
    (h : fl.getLsbD Flag.cf.bit = decide P) : 100 * carryFlag fl = if P then 100 else 0 := by
  unfold carryFlag
  rw [h]
  by_cases hp : P
  · rw [decide_eq_true hp, if_pos hp]
    rfl
  · rw [decide_eq_false hp, if_neg hp]
    rfl

theorem adcByte_sum (d s : U8) (fl : U32) :
    let mid := (adcByte d s).run () fl
    mid.1.toNat + 256 * carryFlag mid.2 = d.toNat + s.toNat + carryFlag fl ∧
      (mid.2.getLsbD Flag.af.bit = true ↔ 16 ≤ d.toNat % 16 + s.toNat % 16 + carryFlag fl) := by
  intro mid
  have hexact := adcNarrow_exact (w := 7) (by decide) (by decide) d s fl (by decide)
  obtain ⟨hval, hcarry⟩ := hexact.toNat
  have haux := hexact.1.aux
  change ((mid.1.toNat : Nat) : Int) = (d.toNat + s.toNat + carryFlag fl) % 2 ^ 8 at hval
  change carryFlag mid.2 = 0 ↔ FitsUnsigned 8 (d.toNat + s.toNat + carryFlag fl) at hcarry
  change mid.2.getLsbD Flag.af.bit = true ↔ ¬FitsUnsigned 4 (nibble d + nibble s + carryFlag fl)
    at haux
  have hout := carryFlag_le mid.2
  have hin := carryFlag_le fl
  have hd := d.isLt
  have hs := s.isLt
  unfold FitsUnsigned at hcarry haux
  unfold nibble at haux
  refine ⟨by omega, haux.trans ?_⟩
  omega

theorem sbbByte_diff (d s : U8) (fl : U32) :
    let mid := (sbbByte d s).run () fl
    mid.1.toNat + s.toNat + carryFlag fl = d.toNat + 256 * carryFlag mid.2 ∧
      (mid.2.getLsbD Flag.af.bit = true ↔ d.toNat % 16 < s.toNat % 16 + carryFlag fl) := by
  intro mid
  have hexact := sbbVal_exact (w := 7) (by decide) (by decide) d s fl
  obtain ⟨hval, hcarry⟩ := hexact.toNat
  have haux := hexact.1.aux
  change ((mid.1.toNat : Nat) : Int) = (d.toNat - s.toNat - carryFlag fl) % 2 ^ 8 at hval
  change carryFlag mid.2 = 0 ↔ FitsUnsigned 8 (d.toNat - s.toNat - carryFlag fl) at hcarry
  change mid.2.getLsbD Flag.af.bit = true ↔ ¬FitsUnsigned 4 (nibble d - nibble s - carryFlag fl)
    at haux
  have hout := carryFlag_le mid.2
  have hin := carryFlag_le fl
  have hd := d.isLt
  have hs := s.isLt
  unfold FitsUnsigned at hcarry haux
  unfold nibble at haux
  refine ⟨by omega, haux.trans ?_⟩
  omega

theorem step_decide (p : Prop) [Decidable p] (n : Nat) :
    step (decide p) n = if p then n else 0 := by
  unfold step
  simp only [decide_eq_true_eq]

theorem IsBcd.digits {x : U8} (h : IsBcd x) : ∃ hi lo, hi ≤ 9 ∧ lo ≤ 9 ∧
    x.toNat = 16 * hi + lo ∧ x.toNat % 16 = lo ∧ bcdVal x = 10 * hi + lo :=
  ⟨x.toNat / 16, x.toNat % 16, h.2, h.1, (Nat.div_add_mod ..).symm, rfl, rfl⟩

theorem bcd_digits {x : U8} {hi lo : Nat} (hhi : hi ≤ 9) (hlo : lo ≤ 9)
    (hx : x.toNat = 16 * hi + lo) : IsBcd x ∧ bcdVal x = 10 * hi + lo := by
  unfold IsBcd bcdVal
  omega

/-- The digits of a sum of two decimal bytes and a carry, from the hexadecimal sum `m`. -/
theorem add_digits {dh dl sh sl c m k : Nat} (hdh : dh ≤ 9) (hdl : dl ≤ 9) (hsh : sh ≤ 9)
    (hsl : sl ≤ 9) (hc : c ≤ 1) (hm : m < 256)
    (hsum : m + 256 * k = 16 * dh + dl + (16 * sh + sl) + c) :
    let n := m + if 9 < dl + sl + c then 6 else 0
    (0x9f < n ∨ k = 1 ↔ 99 < 10 * dh + dl + (10 * sh + sl) + c) ∧ ∃ hi lo, hi ≤ 9 ∧ lo ≤ 9 ∧
      (n + if 99 < 10 * dh + dl + (10 * sh + sl) + c then 0x60 else 0) % 256 = 16 * hi + lo ∧
      10 * hi + lo + (if 99 < 10 * dh + dl + (10 * sh + sl) + c then 100 else 0) =
        10 * dh + dl + (10 * sh + sl) + c := by
  by_cases hl : 9 < dl + sl + c
  · by_cases hh : 99 < 10 * dh + dl + (10 * sh + sl) + c
    · simp only [if_pos hl, if_pos hh]
      exact ⟨by omega, dh + sh - 9, dl + sl + c - 10, by omega⟩
    · simp only [if_pos hl, if_neg hh]
      exact ⟨by omega, dh + sh + 1, dl + sl + c - 10, by omega⟩
  · by_cases hh : 99 < 10 * dh + dl + (10 * sh + sl) + c
    · simp only [if_neg hl, if_pos hh]
      exact ⟨by omega, dh + sh - 10, dl + sl + c, by omega⟩
    · simp only [if_neg hl, if_neg hh]
      exact ⟨by omega, dh + sh, dl + sl + c, by omega⟩

/-- The digits of a difference, from the hexadecimal difference `m`. -/
theorem sub_digits {dh dl sh sl c m k : Nat} (hdh : dh ≤ 9) (hdl : dl ≤ 9) (hsh : sh ≤ 9)
    (hsl : sl ≤ 9) (hc : c ≤ 1) (hm : m < 256)
    (hdiff : m + (16 * sh + sl) + c = 16 * dh + dl + 256 * k) :
    let n := (256 - (if dl < sl + c then 6 else 0) + m) % 256
    (0x9f < n ∨ k = 1 ↔ 10 * dh + dl < 10 * sh + sl + c) ∧ ∃ hi lo, hi ≤ 9 ∧ lo ≤ 9 ∧
      (256 - (if 10 * dh + dl < 10 * sh + sl + c then 0x60 else 0) + n) % 256 = 16 * hi + lo ∧
      10 * hi + lo + (10 * sh + sl) + c =
        10 * dh + dl + if 10 * dh + dl < 10 * sh + sl + c then 100 else 0 := by
  by_cases hl : dl < sl + c
  · by_cases hh : 10 * dh + dl < 10 * sh + sl + c
    · simp only [if_pos hl, if_pos hh]
      have hle : dh ≤ sh := by omega
      exact ⟨by omega, dh + 9 - sh, dl + 10 - (sl + c), by omega⟩
    · simp only [if_pos hl, if_neg hh]
      have hle : sh + 1 ≤ dh := by omega
      exact ⟨by omega, dh - 1 - sh, dl + 10 - (sl + c), by omega⟩
  · by_cases hh : 10 * dh + dl < 10 * sh + sl + c
    · simp only [if_neg hl, if_pos hh]
      have hle : dh + 1 ≤ sh := by omega
      exact ⟨by omega, dh + 10 - sh, dl - (sl + c), by omega⟩
    · simp only [if_neg hl, if_neg hh]
      have hle : sh ≤ dh := by omega
      exact ⟨by omega, dh - sh, dl - (sl + c), by omega⟩

/-- `daa_byte` after the sum of two decimal bytes and a carry `c`. -/
theorem daaByte_decimal {d s m : U8} {fl : U32} {c : Nat} (hd : IsBcd d) (hs : IsBcd s)
    (hc : c ≤ 1) (hsum : m.toNat + 256 * carryFlag fl = d.toNat + s.toNat + c)
    (haux : fl.getLsbD Flag.af.bit = true ↔ 16 ≤ d.toNat % 16 + s.toNat % 16 + c) :
    let out := (daaByte m).run () fl
    IsBcd out.1 ∧ bcdVal out.1 + 100 * carryFlag out.2 = bcdVal d + bcdVal s + c := by
  intro out
  obtain ⟨dh, dl, hdh, hdl, hdn, hdm, hdv⟩ := hd.digits
  obtain ⟨sh, sl, hsh, hsl, hsn, hsm, hsv⟩ := hs.digits
  rw [hdn, hsn] at hsum
  rw [hdm, hsm] at haux
  rw [hdv, hsv]
  have hlow : lowAdjust m fl = decide (9 < dl + sl + c) := by
    rw [Bool.eq_iff_iff, lowAdjust_iff, haux, decide_eq_true_eq]
    omega
  obtain ⟨hhigh, hi, lo, hhi, hlo, hbyte, htotal⟩ := add_digits hdh hdl hsh hsl hc m.isLt hsum
  obtain ⟨hval, hcf⟩ := daaByte_value m fl
  have hadjust : (decide (0x9f < m.toNat + if 9 < dl + sl + c then 6 else 0) ||
      fl.getLsbD Flag.cf.bit) = decide (99 < 10 * dh + dl + (10 * sh + sl) + c) := by
    rw [Bool.eq_iff_iff, Bool.or_eq_true, decide_eq_true_eq, decide_eq_true_eq, carry_iff_one,
      hhigh]
  rw [hlow, step_decide, hadjust] at hval hcf
  rw [step_decide] at hval
  obtain ⟨hbcd, hout⟩ := bcd_digits hhi hlo (hval.trans hbyte)
  refine ⟨hbcd, ?_⟩
  rw [hout, carryFlag_decide hcf, htotal]

/-- `das_byte` after the difference of two decimal bytes and a borrow `c`. -/
theorem dasByte_decimal {d s m : U8} {fl : U32} {c : Nat} (hd : IsBcd d) (hs : IsBcd s)
    (hc : c ≤ 1) (hdiff : m.toNat + s.toNat + c = d.toNat + 256 * carryFlag fl)
    (haux : fl.getLsbD Flag.af.bit = true ↔ d.toNat % 16 < s.toNat % 16 + c) :
    let out := (dasByte m).run () fl
    IsBcd out.1 ∧ bcdVal out.1 + bcdVal s + c = bcdVal d + 100 * carryFlag out.2 := by
  intro out
  obtain ⟨dh, dl, hdh, hdl, hdn, hdm, hdv⟩ := hd.digits
  obtain ⟨sh, sl, hsh, hsl, hsn, hsm, hsv⟩ := hs.digits
  rw [hdn, hsn] at hdiff
  rw [hdm, hsm] at haux
  rw [hdv, hsv]
  have hlow : lowAdjust m fl = decide (dl < sl + c) := by
    rw [Bool.eq_iff_iff, lowAdjust_iff, haux, decide_eq_true_eq]
    omega
  obtain ⟨hhigh, hi, lo, hhi, hlo, hbyte, htotal⟩ := sub_digits hdh hdl hsh hsl hc m.isLt hdiff
  obtain ⟨hval, hcf⟩ := dasByte_value m fl
  have hadjust : (decide (0x9f < (256 - (if dl < sl + c then 6 else 0) + m.toNat) % 256) ||
      fl.getLsbD Flag.cf.bit) = decide (10 * dh + dl < 10 * sh + sl + c) := by
    rw [Bool.eq_iff_iff, Bool.or_eq_true, decide_eq_true_eq, decide_eq_true_eq, carry_iff_one,
      hhigh]
  rw [hlow, step_decide, hadjust] at hval hcf
  rw [step_decide] at hval
  obtain ⟨hbcd, hout⟩ := bcd_digits hhi hlo (hval.trans hbyte)
  refine ⟨hbcd, ?_⟩
  rw [hout, carryFlag_decide hcf, htotal]

/-! ## All bytes -/

theorem decimal_cons (x : U8) (l : List U8) : decimal (x :: l) = bcdVal x + 100 * decimal l :=
  Nat.ofDigits_cons

/-- A step that leaves a decimal byte and hands its carry on, added for `sgn = 1` and subtracted for
`sgn = -1`, makes a chain that leaves a decimal number and hands its last carry on. -/
theorem decimalChain_value {f : U8 → U8 → FlagOp U8} {sgn : Int}
    (hstep : ∀ d s fl, IsBcd d → IsBcd s → IsBcd ((f d s).run () fl).1 ∧
      (bcdVal ((f d s).run () fl).1 : Int) = bcdVal d +
        sgn * (bcdVal s + carryFlag fl - 100 * carryFlag ((f d s).run () fl).2))
    (l : List (U8 × U8)) (hl : ∀ p ∈ l, IsBcd p.1 ∧ IsBcd p.2) (fl : U32) :
    let out := (decimalChain f l).run () fl
    out.1.length = l.length ∧ (∀ r ∈ out.1, IsBcd r) ∧
      (decimal out.1 : Int) = decimal (l.map Prod.fst) + sgn * (decimal (l.map Prod.snd) +
        carryFlag fl - 100 ^ l.length * carryFlag out.2) := by
  induction l generalizing fl with
  | nil =>
    refine ⟨rfl, fun r hr => absurd hr List.not_mem_nil, ?_⟩
    show ((0 : Nat) : Int) = (0 : Nat) + sgn * ((0 : Nat) + carryFlag fl - 1 * carryFlag fl)
    simp
  | cons p l ih =>
    obtain ⟨d, s⟩ := p
    obtain ⟨hd, hs⟩ := hl (d, s) List.mem_cons_self
    obtain ⟨hbcd, hone⟩ := hstep d s fl hd hs
    obtain ⟨hlen, hrest, hval⟩ := ih (fun q hq => hl q (List.mem_cons_of_mem _ hq))
      ((f d s).run () fl).2
    have hrun : (decimalChain f ((d, s) :: l)).run () fl =
        (((f d s).run () fl).1 :: ((decimalChain f l).run () ((f d s).run () fl).2).1,
          ((decimalChain f l).run () ((f d s).run () fl).2).2) := rfl
    rw [hrun]
    refine ⟨congrArg (· + 1) hlen, List.forall_mem_cons.mpr ⟨hbcd, hrest⟩, ?_⟩
    simp only [List.map_cons, decimal_cons, List.length_cons]
    push_cast
    rw [hone, hval, pow_succ]
    ring

theorem addDecimal_step {d s : U8} (hd : IsBcd d) (hs : IsBcd s) (fl : U32) :
    IsBcd ((addDecimal d s).run () fl).1 ∧ (bcdVal ((addDecimal d s).run () fl).1 : Int) =
      bcdVal d + 1 * (bcdVal s +
        carryFlag fl - 100 * carryFlag ((addDecimal d s).run () fl).2) := by
  obtain ⟨hsum, haux⟩ := adcByte_sum d s fl
  obtain ⟨hbcd, hval⟩ := daaByte_decimal hd hs (carryFlag_le fl) hsum haux
  refine ⟨hbcd, ?_⟩
  change bcdVal ((addDecimal d s).run () fl).1 +
    100 * carryFlag ((addDecimal d s).run () fl).2 = _ at hval
  omega

theorem subDecimal_step {d s : U8} (hd : IsBcd d) (hs : IsBcd s) (fl : U32) :
    IsBcd ((subDecimal d s).run () fl).1 ∧ (bcdVal ((subDecimal d s).run () fl).1 : Int) =
      bcdVal d + -1 * (bcdVal s +
        carryFlag fl - 100 * carryFlag ((subDecimal d s).run () fl).2) := by
  obtain ⟨hdiff, haux⟩ := sbbByte_diff d s fl
  obtain ⟨hbcd, hval⟩ := dasByte_decimal hd hs (carryFlag_le fl) hdiff haux
  refine ⟨hbcd, ?_⟩
  change bcdVal ((subDecimal d s).run () fl).1 + bcdVal s + carryFlag fl =
    bcdVal d + 100 * carryFlag ((subDecimal d s).run () fl).2 at hval
  omega

/-- A decimal sum of the byte pairs `l`, with the carry behind the last one. -/
def DecimalSum (l : List (U8 × U8)) (out : List U8 × U32) : Prop :=
  out.1.length = l.length ∧ (∀ r ∈ out.1, IsBcd r) ∧
    decimal out.1 + carryFlag out.2 * 100 ^ l.length =
      decimal (l.map Prod.fst) + decimal (l.map Prod.snd)

/-- A decimal difference of the byte pairs `l`, with the borrow behind the last one. -/
def DecimalDiff (l : List (U8 × U8)) (out : List U8 × U32) : Prop :=
  out.1.length = l.length ∧ (∀ r ∈ out.1, IsBcd r) ∧
    (decimal out.1 : Int) - carryFlag out.2 * 100 ^ l.length =
      decimal (l.map Prod.fst) - decimal (l.map Prod.snd)

/-- For decimal numbers of any length, with `CF` clear before: `adc_byte` and `daa_byte` give the
sum, `sbb_byte` and `das_byte` the difference. -/
theorem decimal_exact (l : List (U8 × U8)) (hl : ∀ p ∈ l, IsBcd p.1 ∧ IsBcd p.2) (fl : U32)
    (hcf : carryFlag fl = 0) :
    DecimalSum l ((decimalChain addDecimal l).run () fl) ∧
      DecimalDiff l ((decimalChain subDecimal l).run () fl) := by
  obtain ⟨hlen, hbcd, hsum⟩ :=
    decimalChain_value (fun _ _ fl hd hs => addDecimal_step hd hs fl) l hl fl
  obtain ⟨hlen', hbcd', hdiff⟩ :=
    decimalChain_value (fun _ _ fl hd hs => subDecimal_step hd hs fl) l hl fl
  rw [hcf, Nat.cast_zero] at hsum hdiff
  refine ⟨⟨hlen, hbcd, ?_⟩, hlen', hbcd', ?_⟩
  · zify
    linarith
  · linarith

/-- 4395 + 627 and 4395 - 627 -/
theorem decimal_exact_bytes :
    DecimalSum [(0x95, 0x27), (0x43, 0x06)]
        ((decimalChain addDecimal [(0x95, 0x27), (0x43, 0x06)]).run () 0) ∧
      DecimalDiff [(0x95, 0x27), (0x43, 0x06)]
        ((decimalChain subDecimal [(0x95, 0x27), (0x43, 0x06)]).run () 0) :=
  decimal_exact _ (by simp [IsBcd]) 0 (by decide)

end X86Emu
