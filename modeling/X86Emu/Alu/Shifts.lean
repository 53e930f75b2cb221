import X86Emu.Alu.Rotates
import X86Emu.Ops.TwoByte

/-!
# Shifts

Results and flags of the shift functions, and which of them a processor that shifts one bit at a
time has.
-/

namespace X86Emu

open Lib

/-! ## Flags -/

/-- The five flags a shift writes, and no other. -/
structure ShiftFlags (cf of zf sf pf : Bool) (fl fl' : U32) : Prop where
  carry : fl'.getLsbD Flag.cf.bit = cf
  overflow : fl'.getLsbD Flag.of.bit = of
  zero : fl'.getLsbD Flag.zf.bit = zf
  sign : fl'.getLsbD Flag.sf.bit = sf
  parity : fl'.getLsbD Flag.pf.bit = pf
  rest : ∀ i, i ≠ Flag.cf.bit → i ≠ Flag.of.bit → i ≠ Flag.zf.bit → i ≠ Flag.sf.bit →
    i ≠ Flag.pf.bit → fl'.getLsbD i = fl.getLsbD i

/-- The five flags and the rest are all of the flags. -/
theorem ShiftFlags.eq {cf of zf sf pf : Bool} {fl f1 f2 : U32}
    (h1 : ShiftFlags cf of zf sf pf fl f1) (h2 : ShiftFlags cf of zf sf pf fl f2) : f1 = f2 := by
  apply BitVec.eq_of_getLsbD_eq
  intro i hi
  by_cases hcf : i = Flag.cf.bit
  · rw [hcf, h1.carry, h2.carry]
  by_cases hof : i = Flag.of.bit
  · rw [hof, h1.overflow, h2.overflow]
  by_cases hzf : i = Flag.zf.bit
  · rw [hzf, h1.zero, h2.zero]
  by_cases hsf : i = Flag.sf.bit
  · rw [hsf, h1.sign, h2.sign]
  by_cases hpf : i = Flag.pf.bit
  · rw [hpf, h1.parity, h2.parity]
  rw [h1.rest i hcf hof hzf hsf hpf, h2.rest i hcf hof hzf hsf hpf]

/-- The flags a shift leaves alone. -/
theorem shiftFlags_self (fl : U32) :
    ShiftFlags (fl.getLsbD Flag.cf.bit) (fl.getLsbD Flag.of.bit) (fl.getLsbD Flag.zf.bit)
      (fl.getLsbD Flag.sf.bit) (fl.getLsbD Flag.pf.bit) fl fl :=
  ⟨rfl, rfl, rfl, rfl, rfl, fun _ _ _ _ _ _ => rfl⟩

/-- Five times `CONDITIONAL_SET_FLAG`, in the order of the shifts by less than the width. -/
theorem shiftFlags_below (cf of zf sf pf : Bool) (fl : U32) :
    let prog : FlagOp Unit := do
      condSet cf .cf
      condSet zf .zf
      condSet sf .sf
      condSet pf .pf
      condSet of .of
    ShiftFlags cf of zf sf pf fl (prog.run () fl).2 := by
  dsimp only
  refine ⟨?_, ?_, ?_, ?_, ?_, ?_⟩
  case refine_6 =>
    intro i hcf hof hzf hsf hpf
    simp only [Prog.run_bind, getLsbD_condSet, hcf, hof, hzf, hsf, hpf, if_false]
  all_goals simp only [Prog.run_bind, getLsbD_condSet]
  all_goals simp [Flag.bit]

/-- And in the order of a shift of all bits. -/
theorem shiftFlags_over (cf of zf sf pf : Bool) (fl : U32) :
    let prog : FlagOp Unit := do
      condSet cf .cf
      condSet of .of
      condSet sf .sf
      condSet pf .pf
      condSet zf .zf
    ShiftFlags cf of zf sf pf fl (prog.run () fl).2 := by
  dsimp only
  refine ⟨?_, ?_, ?_, ?_, ?_, ?_⟩
  case refine_6 =>
    intro i hcf hof hzf hsf hpf
    simp only [Prog.run_bind, getLsbD_condSet, hcf, hof, hzf, hsf, hpf, if_false]
  all_goals simp only [Prog.run_bind, getLsbD_condSet]
  all_goals simp [Flag.bit]

/-- The same without `OF`. -/
theorem shiftFlags_keep (w : Nat) (cf : Bool) (res fl : U32) :
    ShiftFlags cf (fl.getLsbD Flag.of.bit) (res.setWidth w = 0) (res.getLsbD (w - 1)) (parity res)
      fl ((shiftFlags w cf res).run () fl).2 := by
  unfold shiftFlags setResFlags
  refine ⟨?_, ?_, ?_, ?_, ?_, ?_⟩
  case refine_6 =>
    intro i hcf hof hzf hsf hpf
    simp only [Prog.run_bind, getLsbD_condSet, hcf, hzf, hsf, hpf, if_false]
  all_goals simp only [Prog.run_bind, getLsbD_condSet]
  all_goals simp [Flag.bit]

/-- The count 0 clears `OF`. -/
theorem shiftFlags_zero (fl : U32) :
    ShiftFlags (fl.getLsbD Flag.cf.bit) false (fl.getLsbD Flag.zf.bit) (fl.getLsbD Flag.sf.bit)
      (fl.getLsbD Flag.pf.bit) fl ((clearFlag .of).run () fl).2 := by
  have hclear : clearFlag .of = condSet false .of := rfl
  rw [hclear]
  refine ⟨?_, ?_, ?_, ?_, ?_, ?_⟩
  case refine_6 =>
    intro i hcf hof hzf hsf hpf
    simp only [getLsbD_condSet, hof, if_false]
  all_goals simp only [getLsbD_condSet]
  all_goals simp [Flag.bit]

section Widths

variable {w : Nat}

/-- What a left shift by `s` returns, when `res` is the 32 bit value shifted. -/
theorem leftVal_spec (hw : w ≤ 32) (h2 : 2 ≤ w) (d : BitVec w) (res : U32) (s : U8) (fl : U32) :
    let out := (leftVal d res s).run () fl
    if s.toNat < w then
      if s = 0 then out.1 = d ∧ ShiftFlags (fl.getLsbD Flag.cf.bit) false (fl.getLsbD Flag.zf.bit)
        (fl.getLsbD Flag.sf.bit) (fl.getLsbD Flag.pf.bit) fl out.2
      else out.1 = res.setWidth w ∧
        ShiftFlags (d.getLsbD (w - s.toNat))
          (s = 1 && (res.getLsbD (w - 1) ^^ d.getLsbD (w - 1))) (res.setWidth w = 0)
          (res.getLsbD (w - 1)) (parity res) fl out.2
    else out.1 = 0 ∧ ShiftFlags ((cShl (widen d) (s.toNat - 1)).getLsbD (w - 1)) false true false
      true fl out.2 := by
  dsimp only
  unfold leftVal
  by_cases hlt : s.toNat < w
  · rw [if_pos hlt, Nat.mod_eq_of_lt hlt]
    dsimp only
    rw [if_pos hlt]
    by_cases hzero : s = 0
    · subst hzero
      exact ⟨cut_widen hw d, shiftFlags_zero fl⟩
    · have hpos : s.toNat > 0 := Nat.pos_of_ne_zero fun h => hzero (BitVec.eq_of_toNat_eq h)
      rw [if_neg hzero]
      simp only [hpos, if_true]
      rw [and_cShl_one _ (by omega), getLsbD_widen hw]
      by_cases hone : s = 1
      · subst hone
        refine ⟨rfl, ?_⟩
        have hcarry : (res.getLsbD (w - 1) ^^ d.getLsbD (w - 1)) = (res.getLsbD (w - 1) ^^
            ((shiftFlags w (d.getLsbD (w - 1)) res).run () fl).2.getLsbD Flag.cf.bit) := by
          rw [(shiftFlags_keep w _ res fl).carry]
        rw [decide_eq_true rfl, Bool.true_and, hcarry]
        exact shiftFlags_below (d.getLsbD (w - 1)) _ _ _ _ fl
      · have hne : s.toNat ≠ 1 := fun h => hone (BitVec.eq_of_toNat_eq h)
        simp only [hne, if_false]
        rw [decide_eq_false hone, Bool.false_and]
        exact ⟨rfl, shiftFlags_below _ false _ _ _ fl⟩
  · rw [if_neg hlt]
    dsimp only
    rw [if_neg hlt]
    exact ⟨rfl, shiftFlags_over _ false true false true fl⟩

/-- What a right shift by `s` returns, when `res` is the 32 bit value shifted. -/
theorem rightVal_spec (hw : w ≤ 32) (beyond : FlagOp Unit) (d : BitVec w) (res : U32)
    (s : U8) (fl : U32) :
    let out := (rightVal beyond d res s).run () fl
    if s.toNat < w then
      if s = 0 then out.1 = d ∧ ShiftFlags (fl.getLsbD Flag.cf.bit) false (fl.getLsbD Flag.zf.bit)
        (fl.getLsbD Flag.sf.bit) (fl.getLsbD Flag.pf.bit) fl out.2
      else out.1 = res.setWidth w ∧
        ShiftFlags (d.getLsbD (s.toNat - 1)) (s = 1 && xor2 (res >>> (w - 2)))
          (res.setWidth w = 0) (res.getLsbD (w - 1)) (parity res) fl out.2
    else out.1 = 0 ∧ out.2 = (beyond.run () fl).2 := by
  dsimp only
  unfold rightVal
  by_cases hlt : s.toNat < w
  · rw [if_pos hlt, Nat.mod_eq_of_lt hlt]
    dsimp only
    rw [if_pos hlt]
    by_cases hzero : s = 0
    · subst hzero
      exact ⟨cut_widen hw d, shiftFlags_zero fl⟩
    · have hpos : s.toNat > 0 := Nat.pos_of_ne_zero fun h => hzero (BitVec.eq_of_toNat_eq h)
      rw [if_neg hzero]
      simp only [hpos, if_true]
      rw [and_cShl_one _ (by omega), getLsbD_widen hw]
      by_cases hone : s = 1
      · subst hone
        rw [decide_eq_true rfl, Bool.true_and]
        exact ⟨rfl, shiftFlags_below _ _ _ _ _ fl⟩
      · have hne : s.toNat ≠ 1 := fun h => hone (BitVec.eq_of_toNat_eq h)
        simp only [hne, if_false]
        rw [decide_eq_false hone, Bool.false_and]
        exact ⟨rfl, shiftFlags_below _ false _ _ _ fl⟩
  · rw [if_neg hlt]
    dsimp only
    rw [if_neg hlt]
    exact ⟨rfl, rfl⟩

/-- The 32 bit value `sar_*` returns the low bits of. -/
def sarRes (d : BitVec w) (cnt : Nat) : U32 :=
  let mask := cShl 1 (w - cnt) - 1
  let res := cShr (widen d) cnt &&& mask
  if d.getLsbD (w - 1) then res ||| ~~~mask else res

theorem sar_value (hw : w ≤ 32) (h2 : 2 ≤ w) (d : BitVec w) {cnt : Nat} (h0 : 0 < cnt)
    (hcnt : cnt < w) : (sarRes d cnt).setWidth w = d.sshiftRight cnt := by
  apply BitVec.eq_of_getLsbD_eq
  intro i hi
  have hlow : (cShr (widen d) cnt &&& (cShl 1 (w - cnt) - 1)).getLsbD i =
      (decide (i < w - cnt) && d.getLsbD (cnt + i)) := getLsbD_rcrLow hw d h0 (by omega)
  rw [BitVec.getLsbD_setWidth, decide_eq_true hi, Bool.true_and, BitVec.getLsbD_sshiftRight,
    decide_eq_false (by omega), Bool.not_false, Bool.true_and, BitVec.msb_eq_getLsbD_last]
  unfold sarRes
  dsimp only
  by_cases h : cnt + i < w
  · rw [if_pos h]
    split
    · rw [BitVec.getLsbD_or, hlow, BitVec.getLsbD_not, getLsbD_mask (by omega)]
      simp [show i < w - cnt by omega]
    · rw [hlow]
      simp [show i < w - cnt by omega]
  · rw [if_neg h]
    split
    case isTrue hsign =>
      rw [BitVec.getLsbD_or, hlow, BitVec.getLsbD_not, getLsbD_mask (by omega), hsign]
      simp [show ¬i < w - cnt by omega, show i < 32 by omega]
    case isFalse hsign =>
      rw [hlow]
      simp [show ¬i < w - cnt by omega, hsign]

/-- What `sar_*` returns; it leaves `OF` alone. -/
theorem sarVal_spec (hw : w ≤ 32) (h2 : 2 ≤ w) (d : BitVec w) (s : U8) (fl : U32) :
    let out := (sarVal d s).run () fl
    let cnt := s.toNat % w
    if cnt = 0 then out = (d, fl)
    else out.1 = (sarRes d cnt).setWidth w ∧
      ShiftFlags (d.getLsbD (cnt - 1)) (fl.getLsbD Flag.of.bit) ((sarRes d cnt).setWidth w = 0)
        ((sarRes d cnt).getLsbD (w - 1)) (parity (sarRes d cnt)) fl out.2 := by
  have hlt := Nat.mod_lt s.toNat (by omega : 0 < w)
  dsimp only
  unfold sarVal
  split
  case isTrue h =>
    rw [if_neg (by omega)]
    rfl
  case isFalse h =>
    rw [if_pos (by omega), ← getLsbD_widen hw d (s.toNat % w - 1), ← and_cShl_one _ (by omega)]
    exact ⟨rfl, shiftFlags_keep _ _ _ fl⟩

/-! ## Values -/

theorem shl_value (hw : w ≤ 32) (d : BitVec w) {n : Nat} (hn : n < w) :
    (cShl (widen d) n).setWidth w = d <<< n := by
  apply BitVec.eq_of_getLsbD_eq
  intro i hi
  rw [BitVec.getLsbD_setWidth, getLsbD_cShl _ (by omega) (by omega), getLsbD_widen hw,
    BitVec.getLsbD_shiftLeft]
  by_cases h : i < n
  · simp [h, Nat.not_le_of_lt h]
  · simp [h, hi, Nat.le_of_not_lt h]

theorem shr_value (hw : w ≤ 32) (d : BitVec w) {n : Nat} (hn : n < w) :
    (cShr (widen d) n).setWidth w = d >>> n := by
  apply BitVec.eq_of_getLsbD_eq
  intro i hi
  rw [BitVec.getLsbD_setWidth, getLsbD_cShr _ (by omega), getLsbD_widen hw,
    BitVec.getLsbD_ushiftRight, decide_eq_true hi, Bool.true_and]

/-- The high half of the shifted pair. -/
theorem shld_value (hw : w ≤ 32) (d fill : BitVec w) {n : Nat} (h0 : 0 < n) (hn : n < w) :
    (cShl (widen d) n ||| cShr (widen fill) (w - n)).setWidth w =
      ((d ++ fill) <<< n).extractLsb' w w := by
  apply BitVec.eq_of_getLsbD_eq
  intro i hi
  rw [BitVec.getLsbD_setWidth, BitVec.getLsbD_or, getLsbD_cShl _ (by omega) (by omega),
    getLsbD_cShr _ (by omega), getLsbD_widen hw, getLsbD_widen hw, BitVec.getLsbD_extractLsb',
    BitVec.getLsbD_shiftLeft, BitVec.getLsbD_append]
  by_cases h : i < n
  · have hidx : w + i - n = w - n + i := by omega
    simp [Nat.not_le_of_lt h, hidx, show w - n + i < w by omega, show ¬w + i < n by omega, hi]
  · have hidx : w + i - n - w = i - n := by omega
    have hout : fill.getLsbD (w - n + i) = false := BitVec.getLsbD_of_ge fill _ (by omega)
    simp [Nat.le_of_not_lt h, hidx, hout, show ¬w + i - n < w by omega,
      show ¬w + i < n by omega, hi]

/-- The low half of the shifted pair. -/
theorem shrd_value (hw : w ≤ 32) (d fill : BitVec w) {n : Nat} (h0 : 0 < n) (hn : n < w) :
    (cShr (widen d) n ||| cShl (widen fill) (w - n)).setWidth w =
      ((fill ++ d) >>> n).extractLsb' 0 w := by
  apply BitVec.eq_of_getLsbD_eq
  intro i hi
  rw [BitVec.getLsbD_setWidth, BitVec.getLsbD_or, getLsbD_cShl _ (by omega) (by omega),
    getLsbD_cShr _ (by omega), getLsbD_widen hw, getLsbD_widen hw, BitVec.getLsbD_extractLsb',
    BitVec.getLsbD_ushiftRight, BitVec.getLsbD_append, Nat.zero_add]
  by_cases h : n + i < w
  · simp [h, hi, show ¬w - n ≤ i by omega]
  · have hidx : n + i - w = i - (w - n) := by omega
    have hout : d.getLsbD (n + i) = false := BitVec.getLsbD_of_ge d _ (by omega)
    simp [h, hi, hidx, hout, show w ≤ i + n by omega]

theorem shl_result (hw : w ≤ 32) (h2 : 2 ≤ w) (d : BitVec w) (s : U8) (fl : U32) :
    ((leftVal d (cShl (widen d) s.toNat) s).run () fl).1 = d <<< s.toNat := by
  have hspec := leftVal_spec hw h2 d (cShl (widen d) s.toNat) s fl
  dsimp only at hspec
  split at hspec
  case isTrue hlt =>
    rw [shl_value hw d hlt] at hspec
    split at hspec
    case isTrue h => rw [hspec.1, h]; exact (BitVec.shiftLeft_zero d).symm
    case isFalse h => exact hspec.1
  case isFalse hge =>
    rw [hspec.1, BitVec.shiftLeft_eq_zero (Nat.le_of_not_lt hge)]
    rfl

theorem shr_result (hw : w ≤ 32) (beyond : FlagOp Unit) (d : BitVec w) (s : U8) (fl : U32) :
    ((rightVal beyond d (cShr (widen d) s.toNat) s).run () fl).1 = d >>> s.toNat := by
  have hspec := rightVal_spec hw beyond d (cShr (widen d) s.toNat) s fl
  dsimp only at hspec
  split at hspec
  case isTrue hlt =>
    rw [shr_value hw d hlt] at hspec
    split at hspec
    case isTrue h => rw [hspec.1, h]; exact (BitVec.ushiftRight_zero d).symm
    case isFalse h => exact hspec.1
  case isFalse hge =>
    rw [hspec.1, BitVec.ushiftRight_eq_zero (Nat.le_of_not_lt hge)]
    rfl

/-- `sar_*` takes the count modulo the width. -/
theorem sar_result (hw : w ≤ 32) (h2 : 2 ≤ w) (d : BitVec w) (s : U8) (fl : U32) :
    ((sarVal d s).run () fl).1 = d.sshiftRight (s.toNat % w) := by
  have hspec := sarVal_spec hw h2 d s fl
  have hlt := Nat.mod_lt s.toNat (by omega : 0 < w)
  dsimp only at hspec
  split at hspec
  case isTrue h => rw [hspec, h]; exact BitVec.sshiftRight_zero.symm
  case isFalse h => rw [hspec.1, sar_value hw h2 d (by omega) hlt]

theorem shld_result (hw : w ≤ 32) (h2 : 2 ≤ w) (d fill : BitVec w) {s : U8} (hs : s.toNat < w)
    (fl : U32) :
    ((leftVal d (cShl (widen d) s.toNat ||| cShr (widen fill) (w - s.toNat)) s).run () fl).1 =
      ((d ++ fill) <<< s.toNat).extractLsb' w w := by
  have hspec := leftVal_spec hw h2 d
    (cShl (widen d) s.toNat ||| cShr (widen fill) (w - s.toNat)) s fl
  dsimp only at hspec
  rw [if_pos hs] at hspec
  split at hspec
  case isTrue h =>
    have hzero : (d ++ fill) <<< (0 : U8).toNat = d ++ fill := BitVec.shiftLeft_zero _
    rw [hspec.1, h, hzero, BitVec.extractLsb'_append_eq_left]
  case isFalse h =>
    have hpos : 0 < s.toNat := Nat.pos_of_ne_zero fun hzero => h (BitVec.eq_of_toNat_eq hzero)
    rw [hspec.1, shld_value hw d fill hpos hs]

theorem shrd_result (hw : w ≤ 32) (beyond : FlagOp Unit) (d fill : BitVec w) {s : U8}
    (hs : s.toNat < w) (fl : U32) :
    ((rightVal beyond d (cShr (widen d) s.toNat ||| cShl (widen fill) (w - s.toNat)) s).run ()
      fl).1 = ((fill ++ d) >>> s.toNat).extractLsb' 0 w := by
  have hspec := rightVal_spec hw beyond d
    (cShr (widen d) s.toNat ||| cShl (widen fill) (w - s.toNat)) s fl
  dsimp only at hspec
  rw [if_pos hs] at hspec
  split at hspec
  case isTrue h =>
    have hzero : (fill ++ d) >>> (0 : U8).toNat = fill ++ d := BitVec.ushiftRight_zero _
    rw [hspec.1, h, hzero, BitVec.extractLsb'_append_eq_right]
  case isFalse h =>
    have hpos : 0 < s.toNat := Nat.pos_of_ne_zero fun hzero => h (BitVec.eq_of_toNat_eq hzero)
    rw [hspec.1, shrd_value hw d fill hpos hs]

end Widths

/-! ## The instructions -/

/-- The shifts of an operand of size `z`; the double ones have no byte form. -/
inductive Shift (z : OpSize)
  | shl | shr | sar
  | shld (hz : z ≠ .byte) (fill : BitVec z.bits)
  | shrd (hz : z ≠ .byte) (fill : BitVec z.bits)

namespace Shift

variable {z : OpSize}

def run : Shift z → BitVec z.bits → U8 → FlagOp (BitVec z.bits)
  | shl => opB z 4
  | shr => opB z 5
  | sar => opB z 7
  | shld _ fill => fun d => Op2.shldSize z d fill
  | shrd _ fill => fun d => Op2.shrdSize z d fill

/-- The counts of a shift: those below 32, and for the double ones those below the width. -/
def InRange (op : Shift z) (n : Nat) : Prop :=
  match op with
  | shl | shr | sar => n < 32
  | shld _ _ | shrd _ _ => n < z.bits

/-- `n` shifts by one bit; the double ones shift the pair of operand and filler. -/
def value (op : Shift z) (d : BitVec z.bits) (n : Nat) : BitVec z.bits :=
  match op with
  | shl => (fun x : BitVec z.bits => x <<< 1)^[n] d
  | shr => (fun x : BitVec z.bits => x >>> 1)^[n] d
  | sar => (BitVec.sshiftRight · 1)^[n] d
  | shld _ fill =>
    ((fun x : BitVec (z.bits + z.bits) => x <<< 1)^[n] (d ++ fill)).extractLsb' z.bits z.bits
  | shrd _ fill =>
    ((fun x : BitVec (z.bits + z.bits) => x >>> 1)^[n] (fill ++ d)).extractLsb' 0 z.bits

/-- The result in numbers. -/
def Arith (op : Shift z) (d : BitVec z.bits) (n : Nat) (r : BitVec z.bits) : Prop :=
  match op with
  | shl => r.toNat = d.toNat * 2 ^ n % 2 ^ z.bits
  | shr => r.toNat = d.toNat / 2 ^ n
  | sar => r = BitVec.ofInt z.bits (d.toInt / 2 ^ n)
  | shld _ fill =>
    r.toNat = (d.toNat * 2 ^ z.bits + fill.toNat) * 2 ^ n % 2 ^ (z.bits + z.bits) / 2 ^ z.bits
  | shrd _ fill => r.toNat = (fill.toNat * 2 ^ z.bits + d.toNat) / 2 ^ n % 2 ^ z.bits

/-- Shifting one bit at a time is the arithmetic. -/
theorem value_arith (op : Shift z) (d : BitVec z.bits) (n : Nat) : op.Arith d n (op.value d n) := by
  cases op with
  | shl =>
    show BitVec.toNat _ = _
    unfold value
    dsimp only
    rw [iterate_shiftLeft, BitVec.toNat_shiftLeft, Nat.shiftLeft_eq]
  | shr =>
    show BitVec.toNat _ = _
    unfold value
    dsimp only
    rw [iterate_shiftRight, BitVec.toNat_ushiftRight, Nat.shiftRight_eq_div_pow]
  | sar =>
    show _ = _
    unfold value
    dsimp only
    rw [iterate_sshiftRight]
    unfold BitVec.sshiftRight
    rw [Int.shiftRight_eq_div_pow]
    rfl
  | shld hz fill =>
    show BitVec.toNat _ = _
    unfold value
    dsimp only
    rw [iterate_shiftLeft, BitVec.extractLsb'_toNat, BitVec.toNat_shiftLeft, toNat_fields,
      Nat.shiftLeft_eq, Nat.shiftRight_eq_div_pow]
    apply Nat.mod_eq_of_lt
    rw [Nat.div_lt_iff_lt_mul (Nat.two_pow_pos _), ← Nat.pow_add]
    exact Nat.mod_lt _ (Nat.two_pow_pos _)
  | shrd hz fill =>
    show BitVec.toNat _ = _
    unfold value
    dsimp only
    rw [iterate_shiftRight, BitVec.extractLsb'_toNat, BitVec.toNat_ushiftRight, toNat_fields,
      Nat.shiftRight_zero, Nat.shiftRight_eq_div_pow]

/-- The count a shift really takes. -/
def count (op : Shift z) (n : Nat) : Nat :=
  match op with
  | sar => n % z.bits
  | _ => n

theorem run_result (op : Shift z) (d : BitVec z.bits) {s : U8} (hs : op.InRange s.toNat)
    (fl : U32) : ((op.run d s).run () fl).1 = op.value d (op.count s.toNat) := by
  have hw : z.bits ≤ 32 := by cases z <;> decide
  have h2 : 2 ≤ z.bits := by cases z <;> decide
  cases op with
  | shl =>
    show _ = (fun x : BitVec z.bits => x <<< 1)^[s.toNat] d
    rw [iterate_shiftLeft]
    cases z with
    | byte => exact shl_result hw h2 d s fl
    | word => exact shl_result hw h2 d s fl
    | long =>
      have hwiden : widen d = d := BitVec.setWidth_eq d
      have hres := shl_result hw h2 d s fl
      rw [hwiden] at hres
      exact hres
  | shr =>
    show _ = (fun x : BitVec z.bits => x >>> 1)^[s.toNat] d
    rw [iterate_shiftRight]
    cases z with
    | byte => exact shr_result hw (shiftedOutByte d s) d s fl
    | word => exact shr_result hw shiftedOut d s fl
    | long =>
      have hwiden : widen d = d := BitVec.setWidth_eq d
      have hres := shr_result hw shiftedOut d s fl
      rw [hwiden] at hres
      exact hres
  | sar =>
    show _ = (BitVec.sshiftRight · 1)^[s.toNat % z.bits] d
    rw [iterate_sshiftRight]
    cases z <;> exact sar_result hw h2 d s fl
  | shld hz fill =>
    show _ = ((fun x : BitVec (z.bits + z.bits) => x <<< 1)^[s.toNat] (d ++ fill)).extractLsb'
      z.bits z.bits
    rw [iterate_shiftLeft]
    cases z with
    | byte => exact absurd rfl hz
    | word => exact shld_result hw h2 d fill hs fl
    | long =>
      have hwiden : ∀ x : U32, widen x = x := BitVec.setWidth_eq
      have hres := shld_result hw h2 d fill hs fl
      rw [hwiden, hwiden] at hres
      exact hres
  | shrd hz fill =>
    show _ = ((fun x : BitVec (z.bits + z.bits) => x >>> 1)^[s.toNat] (fill ++ d)).extractLsb'
      0 z.bits
    rw [iterate_shiftRight]
    cases z with
    | byte => exact absurd rfl hz
    | word => exact shrd_result hw shiftedOut d fill hs fl
    | long =>
      have hwiden : ∀ x : U32, widen x = x := BitVec.setWidth_eq
      have hres := shrd_result hw shiftedOut d fill hs fl
      rw [hwiden, hwiden] at hres
      exact hres

/-- The count of `sar_*` is reduced, and the operand needs more bits than the rest shifts out. -/
def Folds (op : Shift z) (d : BitVec z.bits) (n : Nat) : Prop :=
  match op with
  | sar => z.bits ≤ n ∧ ¬(-2 ^ (n % z.bits) ≤ d.toInt ∧ d.toInt < 2 ^ (n % z.bits))
  | _ => False

end Shift

/-- A shift gives what shifting one bit at a time gives, but for `sar_*` with a count from the
width on. -/
theorem shift_value_iff {z : OpSize} (op : Shift z) (d : BitVec z.bits) {s : U8}
    (hs : op.InRange s.toNat) (fl : U32) :
    let r := ((op.run d s).run () fl).1
    (op.Arith d s.toNat r ∧ r = op.value d s.toNat) ↔ ¬op.Folds d s.toNat := by
  have hresult := op.run_result d hs fl
  have hvalue : (op.Arith d s.toNat ((op.run d s).run () fl).1 ∧
      ((op.run d s).run () fl).1 = op.value d s.toNat) ↔
      op.value d (op.count s.toNat) = op.value d s.toNat := by
    rw [hresult]
    refine ⟨fun h => h.2, fun h => ⟨?_, h⟩⟩
    rw [h]
    exact op.value_arith d s.toNat
  refine hvalue.trans ?_
  cases op with
  | shl => exact ⟨fun _ h => h, fun _ => rfl⟩
  | shr => exact ⟨fun _ h => h, fun _ => rfl⟩
  | shld hz fill => exact ⟨fun _ h => h, fun _ => rfl⟩
  | shrd hz fill => exact ⟨fun _ h => h, fun _ => rfl⟩
  | sar =>
    show (BitVec.sshiftRight · 1)^[s.toNat % z.bits] d = (BitVec.sshiftRight · 1)^[s.toNat] d ↔
      ¬(z.bits ≤ s.toNat ∧ ¬_)
    rw [iterate_sshiftRight, iterate_sshiftRight]
    by_cases hlt : s.toNat < z.bits
    · rw [Nat.mod_eq_of_lt hlt]
      refine ⟨fun _ h => ?_, fun _ => rfl⟩
      omega
    · rw [sshiftRight_eq_iff d (Nat.le_of_not_lt hlt)]
      refine ⟨fun h h' => h'.2 h, fun h => ?_⟩
      by_contra hout
      exact h ⟨Nat.le_of_not_lt hlt, hout⟩

theorem shift_value_iff_sar :
    let r := (((Shift.sar : Shift .word).run 0x8000 3).run () 0).1
    ((Shift.sar : Shift .word).Arith 0x8000 (3 : U8).toNat r ∧
        r = (Shift.sar : Shift .word).value 0x8000 (3 : U8).toNat) ↔
      ¬(Shift.sar : Shift .word).Folds 0x8000 (3 : U8).toNat :=
  shift_value_iff (.sar : Shift .word) 0x8000 (s := 3) (by show 3 < 32; decide) 0

/-- `sar_byte` by 9 is `sar_byte` by 1. -/
theorem shift_value_fails :
    ¬((Shift.sar : Shift .byte).Arith 0x40 9 (((Shift.sar : Shift .byte).run 0x40 9).run () 0).1 ∧
      (((Shift.sar : Shift .byte).run 0x40 9).run () 0).1 =
        (Shift.sar : Shift .byte).value 0x40 9) := by
  rintro ⟨-, h⟩
  revert h
  decide

/-! ## The flags of the instructions -/

/-- The flags after a shift by `n` of a word: `last` is the last bit shifted out and `over` the
overflow of a shift by one bit. -/
structure Flagged {w : Nat} (last overflow : Bool) (n : Nat) (fl : U32) (out : BitVec w × U32) :
    Prop where
  none : n = 0 → out.2 = fl
  carry : 0 < n → out.2.getLsbD Flag.cf.bit = last
  zero : 0 < n → (out.2.getLsbD Flag.zf.bit = true ↔ out.1 = 0)
  sign : 0 < n → out.2.getLsbD Flag.sf.bit = out.1.getLsbD (w - 1)
  parity : 0 < n → (out.2.getLsbD Flag.pf.bit = true ↔ EvenParity (out.1.setWidth 8))
  one : n = 1 → out.2.getLsbD Flag.of.bit = overflow

namespace Shift

variable {z : OpSize}

/-- The bit the last of `n` shifts by one bit moves out. -/
def lastOut (op : Shift z) (d : BitVec z.bits) (n : Nat) : Bool :=
  match op with
  | shl => ((fun x : BitVec z.bits => x <<< 1)^[n - 1] d).getLsbD (z.bits - 1)
  | shr => ((fun x : BitVec z.bits => x >>> 1)^[n - 1] d).getLsbD 0
  | sar => ((BitVec.sshiftRight · 1)^[n - 1] d).getLsbD 0
  | shld _ fill =>
    ((fun x : BitVec (z.bits + z.bits) => x <<< 1)^[n - 1] (d ++ fill)).getLsbD
      (z.bits + z.bits - 1)
  | shrd _ fill =>
    ((fun x : BitVec (z.bits + z.bits) => x >>> 1)^[n - 1] (fill ++ d)).getLsbD 0

/-- `OF` after a shift by one bit. -/
def overflow (op : Shift z) (d : BitVec z.bits) (out : BitVec z.bits × U32) : Bool :=
  match op with
  | shl | shld _ _ => out.1.getLsbD (z.bits - 1) ^^ out.2.getLsbD Flag.cf.bit
  | shr => d.getLsbD (z.bits - 1)
  | sar => false
  | shrd _ _ => out.1.getLsbD (z.bits - 1) ^^ d.getLsbD (z.bits - 1)

def FlagsExact (op : Shift z) (d : BitVec z.bits) (n : Nat) (fl : U32)
    (out : BitVec z.bits × U32) : Prop :=
  Flagged (op.lastOut d n) (op.overflow d out) n fl out

end Shift

section Widths

variable {w : Nat} {last overflow : Bool} {n : Nat} {d : BitVec w} {res fl : U32}
  {out : BitVec w × U32}

/-- A shift by 0 that clears `OF`. -/
theorem flagged_zero (h : ShiftFlags (fl.getLsbD Flag.cf.bit) false (fl.getLsbD Flag.zf.bit)
    (fl.getLsbD Flag.sf.bit) (fl.getLsbD Flag.pf.bit) fl out.2) :
    Flagged last overflow 0 fl out ↔ fl.getLsbD Flag.of.bit = false := by
  refine ⟨fun hflags => ?_, fun hof => ?_⟩
  · rw [← h.overflow, hflags.none rfl]
  · have hself := shiftFlags_self fl
    rw [hof] at hself
    refine ⟨fun _ => h.eq hself, ?_, ?_, ?_, ?_, ?_⟩
    all_goals
      intro hn
      cases hn

theorem evenParity_cut (h8 : 8 ≤ w) (res : U32) :
    parity res = true ↔ EvenParity ((res.setWidth w).setWidth 8) := by
  rw [parity_eq, BitVec.setWidth_setWidth_of_le _ h8]

/-- A shift with the flags of its result. -/
theorem flagged_res (h8 : 8 ≤ w) (hn : 0 < n) {cf of : Bool}
    (h : ShiftFlags cf of (res.setWidth w = 0) (res.getLsbD (w - 1)) (parity res) fl out.2)
    (hout : out.1 = res.setWidth w) :
    Flagged last overflow n fl out ↔ cf = last ∧ (n = 1 → of = overflow) := by
  refine ⟨fun hflags => ⟨?_, ?_⟩, fun ⟨hcf, hof⟩ => ⟨?_, ?_, ?_, ?_, ?_, ?_⟩⟩
  · rw [← h.carry, hflags.carry hn]
  · intro hone
    rw [← h.overflow, hflags.one hone]
  · omega
  · intro _
    rw [h.carry, hcf]
  · intro _
    rw [h.zero, hout, decide_eq_true_eq]
  · intro _
    rw [h.sign, hout, BitVec.getLsbD_setWidth, decide_eq_true (by omega), Bool.true_and]
  · intro _
    rw [h.parity, hout, evenParity_cut h8]
  · intro hone
    rw [h.overflow, hof hone]

theorem toNat_pos {s : U8} (h : s ≠ 0) : 0 < s.toNat :=
  Nat.pos_of_ne_zero fun hzero => h (BitVec.eq_of_toNat_eq hzero)

/-- A left shift by less than the width. -/
theorem leftVal_flagged (hw : w ≤ 32) (h8 : 8 ≤ w) {s : U8} (hlt : s.toNat < w)
    (hlast : 0 < s.toNat → last = d.getLsbD (w - s.toNat))
    (hover : overflow = (((leftVal d res s).run () fl).1.getLsbD (w - 1) ^^
      ((leftVal d res s).run () fl).2.getLsbD Flag.cf.bit)) :
    Flagged last overflow s.toNat fl ((leftVal d res s).run () fl) ↔
      (s.toNat = 0 → fl.getLsbD Flag.of.bit = false) := by
  have hspec := leftVal_spec hw (by omega) d res s fl
  dsimp only at hspec
  rw [if_pos hlt] at hspec
  split at hspec
  case isTrue h =>
    rw [h] at hspec ⊢
    exact (flagged_zero hspec.2).trans ⟨fun hof _ => hof, fun hof => hof rfl⟩
  case isFalse h =>
    obtain ⟨hout, hflags⟩ := hspec
    have hpos := toNat_pos h
    refine (flagged_res h8 hpos hflags hout).trans ⟨fun _ hzero => ?_, fun _ => ⟨?_, ?_⟩⟩
    · omega
    · exact (hlast hpos).symm
    · intro hone
      have hs : s = 1 := BitVec.eq_of_toNat_eq hone
      rw [hover, hflags.carry, hout, hs, BitVec.getLsbD_setWidth, decide_eq_true rfl,
        decide_eq_true (by omega : w - 1 < w), Bool.true_and, Bool.true_and]
      rfl

/-- A right shift by less than the width. -/
theorem rightVal_flagged (hw : w ≤ 32) (h8 : 8 ≤ w) {before : FlagOp Unit} {s : U8}
    (hlt : s.toNat < w) (hlast : 0 < s.toNat → last = d.getLsbD (s.toNat - 1))
    (hover : s.toNat = 1 → overflow = (res.getLsbD (w - 2) ^^ res.getLsbD (w - 1))) :
    Flagged last overflow s.toNat fl ((rightVal before d res s).run () fl) ↔
      (s.toNat = 0 → fl.getLsbD Flag.of.bit = false) := by
  have hspec := rightVal_spec hw before d res s fl
  dsimp only at hspec
  rw [if_pos hlt] at hspec
  split at hspec
  case isTrue h =>
    rw [h] at hspec ⊢
    exact (flagged_zero hspec.2).trans ⟨fun hof _ => hof, fun hof => hof rfl⟩
  case isFalse h =>
    obtain ⟨hout, hflags⟩ := hspec
    have hpos := toNat_pos h
    refine (flagged_res h8 hpos hflags hout).trans ⟨fun _ hzero => ?_, fun _ => ⟨?_, ?_⟩⟩
    · omega
    · exact (hlast hpos).symm
    · intro hone
      have hs : s = 1 := BitVec.eq_of_toNat_eq hone
      rw [hover hone, hs, decide_eq_true rfl, Bool.true_and, xor2_shift,
        show w - 2 + 1 = w - 1 by omega]

/-- After a shift of all bits the result is 0. -/
theorem flagged_over (hn : 1 < n) {cf pf : Bool}
    (h : ShiftFlags cf false true false pf fl out.2) (hout : out.1 = 0) :
    Flagged last overflow n fl out ↔ cf = last ∧ pf = true := by
  have hparity : EvenParity (out.1.setWidth 8) := by
    have hzero : out.1.setWidth 8 = (0 : U8) := by
      rw [hout]
      exact BitVec.setWidth_zero 8 w
    rw [hzero]
    decide
  refine ⟨fun hflags => ⟨?_, ?_⟩, fun ⟨hcf, hpf⟩ => ⟨?_, ?_, ?_, ?_, ?_, ?_⟩⟩
  · rw [← h.carry, hflags.carry (by omega)]
  · rw [← h.parity]
    exact (hflags.parity (by omega)).mpr hparity
  · omega
  · intro _
    rw [h.carry, hcf]
  · intro _
    simp [h.zero, hout]
  · intro _
    rw [h.sign, hout]
    exact BitVec.getLsbD_zero.symm
  · intro _
    simp [h.parity, hpf, hparity]
  · omega

end Widths

namespace Shift

variable {z : OpSize}

/-- When the flags are those of single shifts. `OF` is cleared by a shift by 0, and not written by
`sar_*`; `shr_word` by 16 or more clears `PF`; `sar_*` takes `CF` from the reduced count, and
writes nothing when it is 0. -/
def FlagsHold (op : Shift z) (d : BitVec z.bits) (n : Nat) (fl : U32) : Prop :=
  match op with
  | shl | shld _ _ | shrd _ _ => n = 0 → fl.getLsbD Flag.of.bit = false
  | shr => (n = 0 → fl.getLsbD Flag.of.bit = false) ∧ ¬(z = .word ∧ 16 ≤ n)
  | sar =>
    (n = 1 → fl.getLsbD Flag.of.bit = false) ∧
      (z.bits ≤ n →
        if n % z.bits = 0 then
          fl.getLsbD Flag.cf.bit = d.getLsbD (z.bits - 1) ∧
            (fl.getLsbD Flag.zf.bit = true ↔ d = 0) ∧
            fl.getLsbD Flag.sf.bit = d.getLsbD (z.bits - 1) ∧
            (fl.getLsbD Flag.pf.bit = true ↔ EvenParity (d.setWidth 8))
        else d.getLsbD (n % z.bits - 1) = d.getLsbD (z.bits - 1))

end Shift

section Widths

variable {w : Nat}

theorem shl_flagged (hw : w ≤ 32) (h8 : 8 ≤ w) (d : BitVec w) {s : U8} (hs : s.toNat < 32)
    (fl : U32) :
    let out := (leftVal d (cShl (widen d) s.toNat) s).run () fl
    Flagged ((d <<< (s.toNat - 1)).getLsbD (w - 1))
        (out.1.getLsbD (w - 1) ^^ out.2.getLsbD Flag.cf.bit) s.toNat fl out ↔
      (s.toNat = 0 → fl.getLsbD Flag.of.bit = false) := by
  dsimp only
  by_cases hlt : s.toNat < w
  · refine leftVal_flagged hw h8 hlt (fun hpos => ?_) rfl
    rw [BitVec.getLsbD_shiftLeft, decide_eq_true (by omega), decide_eq_false (by omega),
      Bool.not_false, Bool.true_and, Bool.true_and]
    congr 1
    omega
  · have hspec := leftVal_spec hw (by omega) d (cShl (widen d) s.toNat) s fl
    dsimp only at hspec
    rw [if_neg hlt] at hspec
    refine (flagged_over (by omega) hspec.2 hspec.1).trans ?_
    rw [getLsbD_cShl _ (by omega) (by omega), getLsbD_widen hw, BitVec.getLsbD_shiftLeft]
    refine ⟨fun _ h => by omega, fun _ => ⟨?_, rfl⟩⟩
    by_cases h : s.toNat - 1 ≤ w - 1
    · simp [h, show w - 1 < w by omega]
    · simp [h, show w - 1 < s.toNat - 1 by omega]

theorem shr_flagged (hw : w ≤ 32) (h8 : 8 ≤ w) (d : BitVec w) {s : U8} (hlt : s.toNat < w)
    (before : FlagOp Unit) (fl : U32) :
    Flagged ((d >>> (s.toNat - 1)).getLsbD 0) (d.getLsbD (w - 1)) s.toNat fl
        ((rightVal before d (cShr (widen d) s.toNat) s).run () fl) ↔
      (s.toNat = 0 → fl.getLsbD Flag.of.bit = false) := by
  refine rightVal_flagged hw h8 hlt (fun _ => ?_) (fun hone => ?_)
  · rw [BitVec.getLsbD_ushiftRight, Nat.add_zero]
  · have hout : d.getLsbD (1 + (w - 1)) = false := BitVec.getLsbD_of_ge d _ (by omega)
    rw [hone, getLsbD_cShr _ (by decide), getLsbD_cShr _ (by decide), getLsbD_widen hw,
      getLsbD_widen hw, hout, Bool.xor_false]
    congr 1
    omega

theorem shld_flagged (hw : w ≤ 32) (h8 : 8 ≤ w) (d fill : BitVec w) {s : U8} (hlt : s.toNat < w)
    (fl : U32) :
    let out := (leftVal d (cShl (widen d) s.toNat ||| cShr (widen fill) (w - s.toNat)) s).run () fl
    Flagged (((d ++ fill) <<< (s.toNat - 1)).getLsbD (w + w - 1))
        (out.1.getLsbD (w - 1) ^^ out.2.getLsbD Flag.cf.bit) s.toNat fl out ↔
      (s.toNat = 0 → fl.getLsbD Flag.of.bit = false) := by
  refine leftVal_flagged hw h8 hlt (fun hpos => ?_) rfl
  rw [BitVec.getLsbD_shiftLeft, decide_eq_true (by omega), decide_eq_false (by omega),
    Bool.not_false, Bool.true_and, Bool.true_and, BitVec.getLsbD_append, if_neg (by omega)]
  congr 1
  omega

theorem shrd_flagged (hw : w ≤ 32) (h8 : 8 ≤ w) (d fill : BitVec w) {s : U8} (hlt : s.toNat < w)
    (fl : U32) :
    let out := (rightVal shiftedOut d
      (cShr (widen d) s.toNat ||| cShl (widen fill) (w - s.toNat)) s).run () fl
    Flagged (((fill ++ d) >>> (s.toNat - 1)).getLsbD 0)
        (out.1.getLsbD (w - 1) ^^ d.getLsbD (w - 1)) s.toNat fl out ↔
      (s.toNat = 0 → fl.getLsbD Flag.of.bit = false) := by
  refine rightVal_flagged hw h8 hlt (fun hpos => ?_) (fun hone => ?_)
  · rw [BitVec.getLsbD_ushiftRight, Nat.add_zero, BitVec.getLsbD_append, if_pos (by omega)]
  · have hne : s ≠ 0 := fun h => by rw [h] at hone; cases hone
    have hspec := rightVal_spec hw shiftedOut d
      (cShr (widen d) s.toNat ||| cShl (widen fill) (w - s.toNat)) s fl
    dsimp only at hspec
    rw [if_pos hlt, if_neg hne] at hspec
    -- the second bit of the result is the top bit of the operand
    have hsecond : (cShr (widen d) s.toNat ||| cShl (widen fill) (w - s.toNat)).getLsbD (w - 2) =
        d.getLsbD (w - 1) := by
      rw [hone, BitVec.getLsbD_or, getLsbD_cShr _ (by decide), getLsbD_cShl _ (by omega) (by omega),
        getLsbD_widen hw, decide_eq_false (by omega), Bool.false_and, Bool.or_false]
      congr 1
      omega
    rw [hspec.1, hsecond, BitVec.getLsbD_setWidth, decide_eq_true (by omega : w - 1 < w),
      Bool.true_and, Bool.xor_comm]

/-- `sar_*` by less than the width, and by more. -/
theorem sar_flagged (hw : w ≤ 32) (h8 : 8 ≤ w) (d : BitVec w) {s : U8} (hs : s.toNat < 32)
    (fl : U32) :
    Flagged ((d.sshiftRight (s.toNat - 1)).getLsbD 0) false s.toNat fl ((sarVal d s).run () fl) ↔
      (s.toNat = 1 → fl.getLsbD Flag.of.bit = false) ∧
        (w ≤ s.toNat →
          if s.toNat % w = 0 then
            fl.getLsbD Flag.cf.bit = d.getLsbD (w - 1) ∧
              (fl.getLsbD Flag.zf.bit = true ↔ d = 0) ∧
              fl.getLsbD Flag.sf.bit = d.getLsbD (w - 1) ∧
              (fl.getLsbD Flag.pf.bit = true ↔ EvenParity (d.setWidth 8))
          else d.getLsbD (s.toNat % w - 1) = d.getLsbD (w - 1)) := by
  have hspec := sarVal_spec hw (by omega) d s fl
  have hmod := Nat.mod_lt s.toNat (by omega : 0 < w)
  have hlast : (d.sshiftRight (s.toNat - 1)).getLsbD 0 =
      if s.toNat - 1 < w then d.getLsbD (s.toNat - 1) else d.getLsbD (w - 1) := by
    rw [BitVec.getLsbD_sshiftRight, decide_eq_false (by omega), Bool.not_false, Bool.true_and,
      Nat.add_zero, BitVec.msb_eq_getLsbD_last]
  -- from the width on the sign is shifted out
  have hsign : w ≤ s.toNat →
      (if s.toNat - 1 < w then d.getLsbD (s.toNat - 1) else d.getLsbD (w - 1)) =
        d.getLsbD (w - 1) := by
    intro hle
    split
    · congr 1
      omega
    · rfl
  dsimp only at hspec
  rw [hlast]
  split at hspec
  case isTrue h =>
    rw [hspec, if_pos h]
    rcases Nat.eq_zero_or_pos s.toNat with hzero | hpos
    · rw [hzero]
      refine ⟨fun _ => ⟨fun hone => ?_, fun hle => ?_⟩, fun _ => ?_⟩
      · cases hone
      · omega
      · refine ⟨fun _ => rfl, ?_, ?_, ?_, ?_, ?_⟩
        all_goals
          intro hn
          cases hn
    · have hle : w ≤ s.toNat := Nat.le_of_dvd hpos (Nat.dvd_of_mod_eq_zero h)
      rw [hsign hle]
      refine ⟨fun hflags => ⟨fun hone => by omega, fun _ => ⟨hflags.carry hpos, hflags.zero hpos,
        hflags.sign hpos, hflags.parity hpos⟩⟩, fun hkeep => ?_⟩
      obtain ⟨hcf, hzf, hsf, hpf⟩ := hkeep.2 hle
      exact ⟨fun _ => rfl, fun _ => hcf, fun _ => hzf, fun _ => hsf, fun _ => hpf,
        fun hone => by omega⟩
  case isFalse h =>
    obtain ⟨hout, hflags⟩ := hspec
    have hpos : 0 < s.toNat := Nat.pos_of_ne_zero fun hzero => h (by rw [hzero, Nat.zero_mod])
    rw [if_neg h]
    refine (flagged_res h8 hpos hflags hout).trans ?_
    rw [and_comm]
    refine and_congr_right fun _ => ?_
    by_cases hlt : s.toNat < w
    · rw [Nat.mod_eq_of_lt hlt, if_pos (by omega)]
      exact ⟨fun _ hle => by omega, fun _ => rfl⟩
    · rw [hsign (Nat.le_of_not_lt hlt)]
      exact ⟨fun hcf _ => hcf, fun hcf => hcf (Nat.le_of_not_lt hlt)⟩

end Widths

/-- `shr_byte` has the flags of a shift of all bits. -/
theorem shrByte_over (d : U8) {s : U8} (hge : 8 ≤ s.toNat) (hs : s.toNat < 32) (overflow : Bool)
    (fl : U32) :
    Flagged ((d >>> (s.toNat - 1)).getLsbD 0) overflow s.toNat fl ((shrByte d s).run () fl) := by
  obtain ⟨hout, hfl⟩ : ((shrByte d s).run () fl).1 = 0 ∧
      ((shrByte d s).run () fl).2 = ((shiftedOutByte d s).run () fl).2 := by
    have hspec := rightVal_spec (by decide) (shiftedOutByte d s) d (cShr (widen d) s.toNat) s fl
    dsimp only at hspec
    rw [if_neg (by omega)] at hspec
    exact hspec
  have hflags : ShiftFlags ((cShr (widen d) (s.toNat - 1)).getLsbD 0) false true false true fl
      ((shrByte d s).run () fl).2 := by
    rw [hfl]
    exact shiftFlags_over _ false true false true fl
  refine (flagged_over (by omega) hflags hout).mpr ⟨?_, rfl⟩
  rw [getLsbD_cShr _ (by omega), getLsbD_widen (by decide), BitVec.getLsbD_ushiftRight]

/-- The other right shifts clear `PF` with the result 0. -/
theorem shiftedOut_flags (fl : U32) :
    ShiftFlags false false true false false fl ((shiftedOut).run () fl).2 := by
  have hprog : shiftedOut = (do
      condSet false .cf
      condSet false .of
      condSet true .zf
      condSet false .sf
      condSet false .pf) := rfl
  rw [hprog]
  refine ⟨?_, ?_, ?_, ?_, ?_, ?_⟩
  case refine_6 =>
    intro i hcf hof hzf hsf hpf
    simp only [Prog.run_bind, getLsbD_condSet, hcf, hof, hzf, hsf, hpf, if_false]
  all_goals simp only [Prog.run_bind, getLsbD_condSet]
  all_goals simp [Flag.bit]

theorem shrWord_over (d : U16) {s : U8} (hge : 16 ≤ s.toNat) (last overflow : Bool) (fl : U32) :
    ¬Flagged last overflow s.toNat fl ((shrWord d s).run () fl) := by
  have hspec := rightVal_spec (by decide) shiftedOut d (cShr (widen d) s.toNat) s fl
  dsimp only at hspec
  rw [if_neg (by omega)] at hspec
  intro hflags
  have hfl : ShiftFlags false false true false false fl ((shrWord d s).run () fl).2 := by
    rw [show ((shrWord d s).run () fl).2 = _ from hspec.2]
    exact shiftedOut_flags fl
  obtain ⟨-, hpf⟩ := (flagged_over (by omega) hfl hspec.1).mp hflags
  cases hpf

/-- The flags of a shift are those of single shifts exactly when `FlagsHold`. -/
theorem shift_flags_iff {z : OpSize} (op : Shift z) (d : BitVec z.bits) {s : U8}
    (hs : op.InRange s.toNat) (fl : U32) :
    op.FlagsExact d s.toNat fl ((op.run d s).run () fl) ↔ op.FlagsHold d s.toNat fl := by
  have hw : z.bits ≤ 32 := by cases z <;> decide
  have h8 : 8 ≤ z.bits := by cases z <;> decide
  have hwiden : ∀ x : U32, widen x = x := BitVec.setWidth_eq
  unfold Shift.FlagsExact Shift.lastOut Shift.overflow
  cases op with
  | shl =>
    dsimp only
    rw [iterate_shiftLeft]
    cases z with
    | byte => exact shl_flagged hw h8 d hs fl
    | word => exact shl_flagged hw h8 d hs fl
    | long =>
      have hiff := shl_flagged hw h8 d hs fl
      rw [hwiden] at hiff
      exact hiff
  | shr =>
    dsimp only
    rw [iterate_shiftRight]
    cases z with
    | byte =>
      by_cases hlt : s.toNat < 8
      · refine (shr_flagged hw h8 d hlt (shiftedOutByte d s) fl).trans
          ⟨fun hof => ⟨hof, ?_⟩, And.left⟩
        rintro ⟨hz, -⟩
        cases hz
      · refine ⟨fun _ => ⟨fun hzero => by omega, ?_⟩, fun _ =>
          shrByte_over d (Nat.le_of_not_lt hlt) hs _ fl⟩
        rintro ⟨hz, -⟩
        cases hz
    | word =>
      by_cases hlt : s.toNat < 16
      · refine (shr_flagged hw h8 d hlt shiftedOut fl).trans ⟨fun hof => ⟨hof, ?_⟩, And.left⟩
        omega
      · have hge := Nat.le_of_not_lt hlt
        exact ⟨fun hflags => absurd hflags (shrWord_over d hge _ _ fl),
          fun hhold => absurd ⟨rfl, hge⟩ hhold.2⟩
    | long =>
      have hiff := shr_flagged hw h8 d hs shiftedOut fl
      rw [hwiden] at hiff
      refine hiff.trans ⟨fun hof => ⟨hof, ?_⟩, And.left⟩
      rintro ⟨hz, -⟩
      cases hz
  | sar =>
    dsimp only
    rw [iterate_sshiftRight]
    cases z <;> exact sar_flagged hw h8 d hs fl
  | shld hz fill =>
    dsimp only
    rw [iterate_shiftLeft]
    cases z with
    | byte => exact absurd rfl hz
    | word => exact shld_flagged hw h8 d fill hs fl
    | long =>
      have hiff := shld_flagged hw h8 d fill hs fl
      rw [hwiden, hwiden] at hiff
      exact hiff
  | shrd hz fill =>
    dsimp only
    rw [iterate_shiftRight]
    cases z with
    | byte => exact absurd rfl hz
    | word => exact shrd_flagged hw h8 d fill hs fl
    | long =>
      have hiff := shrd_flagged hw h8 d fill hs fl
      rw [hwiden, hwiden] at hiff
      exact hiff

theorem shift_flags_iff_shr :
    (Shift.shr : Shift .word).FlagsExact 0x8001 (1 : U8).toNat 0
        (((Shift.shr : Shift .word).run 0x8001 1).run () 0) ↔
      (Shift.shr : Shift .word).FlagsHold 0x8001 (1 : U8).toNat 0 :=
  shift_flags_iff (.shr : Shift .word) 0x8001 (s := 1) (by show 1 < 32; decide) 0

/-- `shr_word` by 16 of 0x8000 loses the carry. -/
theorem shift_flags_fails :
    ¬(Shift.shr : Shift .word).FlagsExact 0x8000 16 0
      (((Shift.shr : Shift .word).run 0x8000 16).run () 0) := by
  intro hflags
  have hcarry := hflags.carry (by decide)
  revert hcarry
  decide

end X86Emu
