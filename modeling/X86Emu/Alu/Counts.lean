import X86Emu.Alu.Shifts

/-!
# Shift counts from 32 on

The functions take counts up to 255 as they are, and none of them reduces the count modulo 32. A
shift from the width on gives 0 with flags of its own, a rotate goes on round the word, and only
`sar_*`, which reduces modulo the width, cannot tell the counts apart.
-/

namespace X86Emu

open Lib

/-- Two results with five flags each are equal when the results and the flags are. -/
theorem shiftFlags_eq_iff {w : Nat} {out out' : BitVec w × U32} {fl : U32}
    {cf of zf sf pf cf' of' zf' sf' pf' : Bool} (h : ShiftFlags cf of zf sf pf fl out.2)
    (h' : ShiftFlags cf' of' zf' sf' pf' fl out'.2) :
    out = out' ↔ out.1 = out'.1 ∧ cf = cf' ∧ of = of' ∧ zf = zf' ∧ sf = sf' ∧ pf = pf' := by
  refine ⟨fun heq => ?_, ?_⟩
  · rw [heq] at h
    refine ⟨by rw [heq], ?_, ?_, ?_, ?_, ?_⟩
    · rw [← h.carry, h'.carry]
    · rw [← h.overflow, h'.overflow]
    · rw [← h.zero, h'.zero]
    · rw [← h.sign, h'.sign]
    · rw [← h.parity, h'.parity]
  · rintro ⟨hout, rfl, rfl, rfl, rfl, rfl⟩
    exact Prod.ext hout (h.eq h')

section Widths

variable {w : Nat}

/-- The count a processor takes. -/
def lowCount (c : U8) : U8 := c &&& 0x1f

theorem toNat_lowCount (c : U8) : (lowCount c).toNat = c.toNat % 32 :=
  Nat.and_two_pow_sub_one_eq_mod c.toNat 5

/-- The flags of a zero result with parity `pf`. -/
def ZeroFlags (pf : Bool) (fl : U32) : Prop :=
  fl.getLsbD Flag.cf.bit = false ∧ fl.getLsbD Flag.zf.bit = true ∧
    fl.getLsbD Flag.sf.bit = false ∧ fl.getLsbD Flag.pf.bit = pf

/-- When a left shift by `c` and by `c` modulo 32 agree; `r` is the result of the latter. -/
def LeftAgrees (d r : BitVec w) (c : Nat) (fl : U32) : Prop :=
  w ≤ c % 32 ∨ (r = 0 ∧ if c % 32 = 0 then ZeroFlags true fl else
    c % 32 = 1 → d.getLsbD (w - 1) = false)

theorem lowCount_eq_zero {c : U8} : lowCount c = 0 ↔ c.toNat % 32 = 0 := by
  rw [← toNat_lowCount]
  exact ⟨fun h => by rw [h]; rfl, fun h => BitVec.eq_of_toNat_eq h⟩

theorem lowCount_eq_one {c : U8} : lowCount c = 1 ↔ c.toNat % 32 = 1 := by
  rw [← toNat_lowCount]
  exact ⟨fun h => by rw [h]; rfl, fun h => BitVec.eq_of_toNat_eq h⟩

/-- The parity of a result of 0. -/
theorem parity_of_zero (h8 : 8 ≤ w) {res : U32} (hzero : res.setWidth w = 0) :
    parity res = true := by
  rw [evenParity_cut h8, hzero, show (0 : BitVec w).setWidth 8 = 0 from BitVec.setWidth_zero 8 w]
  decide

theorem sign_of_zero {res : U32} (h8 : 8 ≤ w) (hzero : res.setWidth w = 0) :
    res.getLsbD (w - 1) = false := by
  have hbit : (res.setWidth w).getLsbD (w - 1) = res.getLsbD (w - 1) := by
    rw [BitVec.getLsbD_setWidth, decide_eq_true (by omega), Bool.true_and]
  rw [← hbit, hzero]
  exact BitVec.getLsbD_zero

theorem left_agrees (hw : w ≤ 32) (h8 : 8 ≤ w) (d : BitVec w) (res res' : U32) {c : U8}
    (hc : 32 ≤ c.toNat) (fl : U32) :
    (leftVal d res c).run () fl = (leftVal d res' (lowCount c)).run () fl ↔
      LeftAgrees d ((leftVal d res' (lowCount c)).run () fl).1 c.toNat fl := by
  have hover := leftVal_spec hw (by omega) d res c fl
  have hspec := leftVal_spec hw (by omega) d res' (lowCount c) fl
  dsimp only at hover hspec
  rw [if_neg (by omega)] at hover
  obtain ⟨hout, hflags⟩ := hover
  -- the carry of both, when there is a bit to shift out
  have hcarry : 0 < c.toNat % 32 → (cShl (widen d) (c.toNat - 1)).getLsbD (w - 1) =
      (decide (c.toNat % 32 - 1 ≤ w - 1) && d.getLsbD (w - c.toNat % 32)) := by
    intro hpos
    have hmod : cShl (widen d) (c.toNat - 1) = cShl (widen d) (c.toNat % 32 - 1) := by
      unfold cShl
      rw [show (c.toNat - 1) % 32 = (c.toNat % 32 - 1) % 32 by omega]
    rw [hmod, getLsbD_cShl _ (by omega) (by omega), getLsbD_widen hw]
    by_cases h : c.toNat % 32 - 1 ≤ w - 1
    · rw [show w - 1 - (c.toNat % 32 - 1) = w - c.toNat % 32 by omega]
    · simp [h]
  rw [toNat_lowCount] at hspec
  unfold LeftAgrees
  split at hspec
  case isTrue hlt =>
    rw [or_iff_right (by omega)]
    split at hspec
    case isTrue hzero =>
      rw [lowCount_eq_zero] at hzero
      rw [shiftFlags_eq_iff hflags hspec.2, hout, if_pos hzero, hspec.1]
      have hnone : d = 0 → (cShl (widen d) (c.toNat - 1)).getLsbD (w - 1) = false := by
        rintro rfl
        unfold cShl
        rw [BitVec.getLsbD_shiftLeft, getLsbD_widen hw]
        simp
      unfold ZeroFlags
      refine ⟨?_, ?_⟩
      · rintro ⟨hd, hcf, -, hzf, hsf, hpf⟩
        exact ⟨hd.symm, hcf.symm.trans (hnone hd.symm), hzf.symm, hsf.symm, hpf.symm⟩
      · rintro ⟨hd, hcf, hzf, hsf, hpf⟩
        exact ⟨hd.symm, (hnone hd).trans hcf.symm, rfl, hzf.symm, hsf.symm, hpf.symm⟩
    case isFalse hzero =>
      rw [lowCount_eq_zero] at hzero
      rw [shiftFlags_eq_iff hflags hspec.2, hout, if_neg hzero, hspec.1, hcarry (by omega)]
      refine ⟨?_, ?_⟩
      · rintro ⟨hres, -, hof, -, hsf, -⟩
        refine ⟨hres.symm, fun hone => ?_⟩
        rw [decide_eq_true (lowCount_eq_one.mpr hone), ← hsf] at hof
        simpa using hof.symm
      · rintro ⟨hres, hone⟩
        refine ⟨hres.symm, ?_, ?_, (decide_eq_true hres).symm, (sign_of_zero h8 hres).symm,
          (parity_of_zero h8 hres).symm⟩
        · rw [decide_eq_true (by omega), Bool.true_and]
        · by_cases h : c.toNat % 32 = 1
          · rw [hone h, sign_of_zero h8 hres]
            simp
          · rw [decide_eq_false (fun hlow => h (lowCount_eq_one.mp hlow)), Bool.false_and]
  case isFalse hge =>
    have hmod : cShl (widen d) (c.toNat - 1) = cShl (widen d) (c.toNat % 32 - 1) := by
      unfold cShl
      rw [show (c.toNat - 1) % 32 = (c.toNat % 32 - 1) % 32 by omega]
    rw [shiftFlags_eq_iff hflags hspec.2, hout, hspec.1, hmod]
    exact ⟨fun _ => Or.inl (Nat.le_of_not_lt hge), fun _ => ⟨rfl, rfl, rfl, rfl, rfl, rfl⟩⟩

/-- When a right shift by `c` and by `c` modulo 32 agree; `pf` is the parity flag of a shift of all
bits. -/
def RightAgrees (pf : Bool) (r : BitVec w) (c : Nat) (fl : U32) : Prop :=
  w ≤ c % 32 ∨ (r = 0 ∧ if c % 32 = 0 then ZeroFlags pf fl else pf = true)

theorem right_agrees (hw : w ≤ 32) (h8 : 8 ≤ w) (d : BitVec w) (res res' : U32)
    {beyond beyond' : FlagOp Unit} {cf pf : Bool} {c : U8} (hc : 32 ≤ c.toNat) {fl : U32}
    (hover : ShiftFlags cf false true false pf fl (beyond.run () fl).2)
    (hsame : w ≤ c.toNat % 32 → beyond' = beyond)
    (hnone : d = 0 → cf = false)
    (hcarry : 0 < c.toNat % 32 → pf = true → cf = d.getLsbD (c.toNat % 32 - 1)) :
    (rightVal beyond d res c).run () fl = (rightVal beyond' d res' (lowCount c)).run () fl ↔
      RightAgrees pf ((rightVal beyond' d res' (lowCount c)).run () fl).1 c.toNat fl := by
  have hfull := rightVal_spec hw beyond d res c fl
  have hspec := rightVal_spec hw beyond' d res' (lowCount c) fl
  dsimp only at hfull hspec
  rw [if_neg (by omega)] at hfull
  obtain ⟨hout, hfl⟩ := hfull
  rw [← hfl] at hover
  rw [toNat_lowCount] at hspec
  unfold RightAgrees
  split at hspec
  case isTrue hlt =>
    rw [or_iff_right (by omega)]
    split at hspec
    case isTrue hzero =>
      rw [lowCount_eq_zero] at hzero
      rw [shiftFlags_eq_iff hover hspec.2, hout, if_pos hzero, hspec.1]
      unfold ZeroFlags
      refine ⟨?_, ?_⟩
      · rintro ⟨hd, hcf, -, hzf, hsf, hpf⟩
        exact ⟨hd.symm, hcf.symm.trans (hnone hd.symm), hzf.symm, hsf.symm, hpf.symm⟩
      · rintro ⟨hd, hcf, hzf, hsf, hpf⟩
        exact ⟨hd.symm, (hnone hd).trans hcf.symm, rfl, hzf.symm, hsf.symm, hpf.symm⟩
    case isFalse hzero =>
      rw [lowCount_eq_zero] at hzero
      rw [shiftFlags_eq_iff hover hspec.2, hout, if_neg hzero, hspec.1]
      refine ⟨?_, ?_⟩
      · rintro ⟨hres, -, -, -, -, hpf⟩
        exact ⟨hres.symm, hpf.trans (parity_of_zero h8 hres.symm)⟩
      · rintro ⟨hres, hpf⟩
        have hsecond : res'.getLsbD (w - 2) = false := by
          have hbit : (res'.setWidth w).getLsbD (w - 2) = res'.getLsbD (w - 2) := by
            rw [BitVec.getLsbD_setWidth, decide_eq_true (by omega), Bool.true_and]
          rw [← hbit, hres]
          exact BitVec.getLsbD_zero
        refine ⟨hres.symm, hcarry (by omega) hpf, ?_, (decide_eq_true hres).symm,
          (sign_of_zero h8 hres).symm, hpf.trans (parity_of_zero h8 hres).symm⟩
        rw [xor2_shift, show w - 2 + 1 = w - 1 by omega, hsecond, sign_of_zero h8 hres]
        simp
  case isFalse hge =>
    have hle := Nat.le_of_not_lt hge
    refine ⟨fun _ => Or.inl hle, fun _ => ?_⟩
    obtain rfl := hsame hle
    exact Prod.ext (hout.trans hspec.1.symm) (hfl.trans hspec.2.symm)

end Widths

/-! ## The instructions -/

namespace Shift

variable {z : OpSize}

/-- When a shift by `c` from 32 on and by `c` modulo 32 agree. -/
def CountHolds (op : Shift z) (d : BitVec z.bits) (c : Nat) (fl : U32) : Prop :=
  match op with
  | sar => True
  | shl | shld _ _ => LeftAgrees d (op.value d (c % 32)) c fl
  | shr => RightAgrees (z = .byte) (op.value d (c % 32)) c fl
  | shrd _ _ => RightAgrees false (op.value d (c % 32)) c fl

end Shift

/-- `sar_*` reduces its count modulo the width, which divides 32. -/
theorem sar_agrees {w : Nat} (hdvd : w ∣ 32) (d : BitVec w) (c : U8) :
    sarVal d c = sarVal d (lowCount c) := by
  unfold sarVal
  rw [toNat_lowCount, Nat.mod_mod_of_dvd _ hdvd]

theorem shiftedOutByte_low (d : U8) {c : U8} (hge : 8 ≤ c.toNat % 32) :
    shiftedOutByte d (lowCount c) = shiftedOutByte d c := by
  have hmod : cShr (widen d) ((lowCount c).toNat - 1) = cShr (widen d) (c.toNat - 1) := by
    unfold cShr
    rw [toNat_lowCount, show (c.toNat % 32 - 1) % 32 = (c.toNat - 1) % 32 by omega]
  unfold shiftedOutByte
  rw [hmod]

theorem shrByte_agrees (d : U8) {c : U8} (hc : 32 ≤ c.toNat) (fl : U32) :
    (shrByte d c).run () fl = (shrByte d (lowCount c)).run () fl ↔
      RightAgrees true ((shrByte d (lowCount c)).run () fl).1 c.toNat fl := by
  have hflags : ShiftFlags ((cShr (widen d) (c.toNat - 1)).getLsbD 0) false true false true fl
      ((shiftedOutByte d c).run () fl).2 := shiftFlags_over _ false true false true fl
  refine right_agrees (by decide) (by decide) d _ _ hc hflags (shiftedOutByte_low d) ?_ ?_
  · rintro rfl
    unfold cShr
    rw [BitVec.getLsbD_ushiftRight, getLsbD_widen (by decide)]
    exact BitVec.getLsbD_zero
  · intro hpos _
    unfold cShr
    rw [BitVec.getLsbD_ushiftRight, getLsbD_widen (by decide)]
    congr 1
    omega

theorem shifted_agrees {w : Nat} (hw : w ≤ 32) (h8 : 8 ≤ w) (d : BitVec w) (res res' : U32)
    {c : U8} (hc : 32 ≤ c.toNat) (fl : U32) :
    (rightVal shiftedOut d res c).run () fl = (rightVal shiftedOut d res' (lowCount c)).run () fl ↔
      RightAgrees false ((rightVal shiftedOut d res' (lowCount c)).run () fl).1 c.toNat fl := by
  refine right_agrees hw h8 d res res' hc (shiftedOut_flags fl) (fun _ => rfl) (fun _ => rfl) ?_
  intro _ hpf
  cases hpf

/-- Whether the results of `c` and of `c` modulo 32 agree depends on the latter only while it is
below the width. -/
theorem LeftAgrees.congr {w : Nat} {d r r' : BitVec w} {c : Nat} {fl : U32}
    (h : c % 32 < w → r = r') : LeftAgrees d r c fl ↔ LeftAgrees d r' c fl := by
  unfold LeftAgrees
  by_cases hlt : c % 32 < w
  · rw [h hlt]
  · exact ⟨fun _ => Or.inl (Nat.le_of_not_lt hlt), fun _ => Or.inl (Nat.le_of_not_lt hlt)⟩

theorem RightAgrees.congr {w : Nat} {pf : Bool} {r r' : BitVec w} {c : Nat} {fl : U32}
    (h : c % 32 < w → r = r') : RightAgrees pf r c fl ↔ RightAgrees pf r' c fl := by
  unfold RightAgrees
  by_cases hlt : c % 32 < w
  · rw [h hlt]
  · exact ⟨fun _ => Or.inl (Nat.le_of_not_lt hlt), fun _ => Or.inl (Nat.le_of_not_lt hlt)⟩

/-- A count of 8 bits gives the result and the flags of its low 5 bits. -/
def Shift.CountLow {z : OpSize} (op : Shift z) (d : BitVec z.bits) (c : U8) (fl : U32) : Prop :=
  (op.run d c).run () fl = (op.run d (lowCount c)).run () fl

theorem Shift.count_iff {z : OpSize} (op : Shift z) (d : BitVec z.bits) {c : U8}
    (hc : 32 ≤ c.toNat) (fl : U32) : op.CountLow d c fl ↔ op.CountHolds d c.toNat fl := by
  have hw : z.bits ≤ 32 := by cases z <;> decide
  have h8 : 8 ≤ z.bits := by cases z <;> decide
  have hlow := toNat_lowCount c
  have hlt : c.toNat % 32 < 32 := Nat.mod_lt _ (by decide)
  -- the result below the width, by the theorem on values
  have hresult : op.InRange (c.toNat % 32) →
      ((op.run d (lowCount c)).run () fl).1 = op.value d (op.count (c.toNat % 32)) := by
    intro hrange
    rw [← hlow] at hrange ⊢
    exact op.run_result d hrange fl
  cases op with
  | sar =>
    refine ⟨fun _ => trivial, fun _ => ?_⟩
    cases z with
    | byte => exact congrArg (fun x => Prog.run x () fl) (sar_agrees (by decide) d c)
    | word => exact congrArg (fun x => Prog.run x () fl) (sar_agrees (by decide) d c)
    | long => exact congrArg (fun x => Prog.run x () fl) (sar_agrees (by decide) d c)
  | shl =>
    have hiff : (shl : Shift z).CountLow d c fl ↔
        LeftAgrees d (((shl : Shift z).run d (lowCount c)).run () fl).1 c.toNat fl := by
      cases z with
      | byte => exact left_agrees hw h8 d _ _ hc fl
      | word => exact left_agrees hw h8 d _ _ hc fl
      | long => exact left_agrees hw h8 d _ _ hc fl
    exact hiff.trans (LeftAgrees.congr fun _ => hresult hlt)
  | shld hz fill =>
    have hiff : (shld hz fill).CountLow d c fl ↔
        LeftAgrees d (((shld hz fill).run d (lowCount c)).run () fl).1 c.toNat fl := by
      cases z with
      | byte => exact absurd rfl hz
      | word => exact left_agrees hw h8 d _ _ hc fl
      | long => exact left_agrees hw h8 d _ _ hc fl
    exact hiff.trans (LeftAgrees.congr fun h => hresult h)
  | shr =>
    have hiff : (shr : Shift z).CountLow d c fl ↔
        RightAgrees (z = .byte) (((shr : Shift z).run d (lowCount c)).run () fl).1
        c.toNat fl := by
      cases z with
      | byte => exact shrByte_agrees d hc fl
      | word => exact shifted_agrees hw h8 d _ _ hc fl
      | long => exact shifted_agrees hw h8 d _ _ hc fl
    exact hiff.trans (RightAgrees.congr fun _ => hresult hlt)
  | shrd hz fill =>
    have hiff : (shrd hz fill).CountLow d c fl ↔
        RightAgrees false (((shrd hz fill).run d (lowCount c)).run () fl).1
        c.toNat fl := by
      cases z with
      | byte => exact absurd rfl hz
      | word => exact shifted_agrees hw h8 d _ _ hc fl
      | long => exact shifted_agrees hw h8 d _ _ hc fl
    exact hiff.trans (RightAgrees.congr fun h => hresult h)

/-! ## Rotates -/

/-- Two results with their carries and overflows are equal when these are. -/
theorem rotateFlags_eq_iff {w : Nat} {out out' : BitVec w × U32} {fl : U32} {cf of cf' of' : Bool}
    (h : RotateFlags cf of fl out.2) (h' : RotateFlags cf' of' fl out'.2) :
    out = out' ↔ out.1 = out'.1 ∧ cf = cf' ∧ of = of' := by
  refine ⟨fun heq => ?_, ?_⟩
  · rw [heq] at h
    refine ⟨by rw [heq], ?_, ?_⟩
    · rw [← h.carry, h'.carry]
    · rw [← h.overflow, h'.overflow]
  · rintro ⟨hout, rfl, rfl⟩
    refine Prod.ext hout ?_
    apply BitVec.eq_of_getLsbD_eq
    intro i _
    by_cases hcf : i = Flag.cf.bit
    · rw [hcf]
      exact h.carry.trans h'.carry.symm
    by_cases hof : i = Flag.of.bit
    · rw [hof]
      exact h.overflow.trans h'.overflow.symm
    rw [h.rest i hcf hof, h'.rest i hcf hof]

theorem rotateFlags_self (fl : U32) : RotateFlags (carryOf fl) (overflowOf fl) fl fl :=
  ⟨rfl, rfl, fun _ _ _ => rfl⟩

/-- A circle of 33 bits which, turned by `k`, has each bit or its upper neighbour, has all bits
equal. -/
theorem circle_const {g : Nat → Bool} (hperiod : ∀ j, g (j + 33) = g j) {k : Nat} (hk : k ≤ 16)
    (hor : ∀ i ≤ 31, g (i + 33 - k) = (g i || g (i + 1))) (hlast : g (65 - k) = g 33) :
    (∀ i ≤ 32, g i = true) ∨ ∀ i ≤ 32, g i = false := by
  obtain ⟨m, hm⟩ : ∃ m, m + k = 32 := ⟨32 - k, by omega⟩
  have hnext : ∀ j, g j = true → g (j + m) = true := by
    intro j
    induction j using Nat.strongRecOn with
    | ind j ih =>
      intro hj
      rcases Nat.lt_or_ge j 33 with hlt | hge
      · rcases Nat.eq_zero_or_pos j with rfl | hpos
        · rw [← hperiod 0, Nat.zero_add, ← hlast, show 65 - k = 0 + m + 33 by omega, hperiod] at hj
          exact hj
        · have hstep := hor (j - 1) (by omega)
          rw [show j - 1 + 1 = j by omega, hj, Bool.or_true] at hstep
          rw [show j + m = j - 1 + 33 - k by omega, hstep]
      · have hback := ih (j - 33) (by omega)
        rw [← hperiod (j - 33), show j - 33 + 33 = j by omega] at hback
        have hsame := hback hj
        rw [← hperiod, show j - 33 + m + 33 = j + m by omega] at hsame
        exact hsame
  have hiter : ∀ t j, g j = true → g (j + m * t) = true := by
    intro t
    induction t with
    | zero => exact fun j hj => hj
    | succ t ih =>
      intro j hj
      have h := hnext _ (ih j hj)
      rwa [Nat.add_assoc, ← Nat.mul_succ] at h
  have hturns : ∀ t j, g (j + 33 * t) = g j := by
    intro t
    induction t with
    | zero => exact fun j => rfl
    | succ t ih =>
      intro j
      rw [Nat.mul_succ, ← Nat.add_assoc, hperiod, ih]
  have hshift : ∀ j, g (j + m) = g j := by
    intro j
    rw [Bool.eq_iff_iff]
    refine ⟨fun h => ?_, hnext j⟩
    have hround := hiter 32 (j + m) h
    rw [show j + m + m * 32 = j + 33 * m by omega, hturns] at hround
    exact hround
  have hmono : ∀ i ≤ 31, g i = true → g (i + 1) = true := by
    intro i hi hone
    have h := hor i hi
    rw [show i + 33 - k = i + 1 + m by omega, hshift, hone, Bool.true_or] at h
    exact h
  have hup : ∀ t i, i + t ≤ 32 → g i = true → g (i + t) = true := by
    intro t
    induction t with
    | zero => exact fun i _ hone => hone
    | succ t ih => exact fun i hi hone => hmono (i + t) (by omega) (ih i (by omega) hone)
  cases hzero : g 0 with
  | true =>
    refine Or.inl fun i hi => ?_
    have h := hup i 0 (by omega) hzero
    rwa [Nat.zero_add] at h
  | false =>
    cases htop : g 32 with
    | false =>
      refine Or.inr fun i hi => ?_
      by_contra hone
      have h := hup (32 - i) i (by omega) (by simpa using hone)
      rw [show i + (32 - i) = 32 by omega, htop] at h
      cases h
    | true =>
      -- the first one is below `k` and the last zero above it
      have hfirst : g k = true := by rw [← hshift, Nat.add_comm, hm, htop]
      have h := hup (32 - k - k) k (by omega) hfirst
      rw [show k + (32 - k - k) = 0 + m by omega, hshift, hzero] at h
      cases h

section Widths

variable {w : Nat}

/-- `OF` after `rcl_*` by `n`. -/
def rclOver (d : BitVec w) (fl : U32) (n : Nat) : Bool :=
  if n = 0 then overflowOf fl else n = 1 && (d.getLsbD (w - 1) ^^ d.getLsbD (w - 2))

/-- `OF` after `rcr_*` by `n`. -/
def rcrOver (d : BitVec w) (fl : U32) (n : Nat) : Bool :=
  if n = 1 then carryOf fl ^^ d.getLsbD (w - 1) else overflowOf fl

/-- When a rotate by `c` from 32 on and by `c` modulo 32 agree. The rotates of a word do but for the
flags of the counts 0 and 1, which look at the whole count. Those through the carry turn a circle
of one bit more, which 32 does not divide; a circle with a smaller period may look the same.
`rcl_long` by 32, its count modulo 33, shifts by 0 instead. -/
def Rotate.CountHolds (r : Rotate) (d : BitVec w) (c : Nat) (fl : U32) : Prop :=
  match r with
  | .rol =>
    (c % 32 = 0 → carryOf fl = d.getLsbD 0) ∧
      (c % 32 = 1 → overflowOf fl = (d.getLsbD (w - 1) ^^ d.getLsbD (w - 2)))
  | .ror =>
    (c % 32 = 0 → carryOf fl = d.getLsbD (w - 1)) ∧
      (c % 32 = 1 → overflowOf fl = (d.getLsbD 0 ^^ d.getLsbD (w - 1)))
  | .rcl =>
    (ring (carryOf fl) d).rotateLeft (c - c % 32) = ring (carryOf fl) d ∧
      (w = 32 ∧ c % 33 = 32 → ring (carryOf fl) d = 0 ∨ ring (carryOf fl) d = BitVec.allOnes _) ∧
      rclOver d fl (c % (w + 1)) = rclOver d fl (c % 32 % (w + 1))
  | .rcr =>
    (ring (carryOf fl) d).rotateLeft (c - c % 32) = ring (carryOf fl) d ∧
      rcrOver d fl (c % (w + 1)) = rcrOver d fl (c % 32 % (w + 1))

theorem rol_agrees (hw : w ≤ 32) (h2 : 2 ≤ w) (hdvd : w ∣ 32) (d : BitVec w) {c : U8}
    (hc : 32 ≤ c.toNat) (fl : U32) :
    (rolVal d c).run () fl = (rolVal d (lowCount c)).run () fl ↔
      Rotate.rol.CountHolds d c.toNat fl := by
  have hfull := rolVal_spec hw (by omega) d c fl
  have hspec := rolVal_spec hw (by omega) d (lowCount c) fl
  have hne : c ≠ 0 := by
    rintro rfl
    exact absurd hc (by decide)
  have hone : c ≠ 1 := by
    rintro rfl
    exact absurd hc (by decide)
  dsimp only at hfull hspec
  rw [if_neg hne, if_neg hone] at hfull
  -- both turn the word to the same place
  have hturn : d.rotateLeft c.toNat = d.rotateLeft (c.toNat % 32) := by
    rw [← BitVec.rotateLeft_mod_eq_rotateLeft, ← Nat.mod_mod_of_dvd c.toNat hdvd,
      BitVec.rotateLeft_mod_eq_rotateLeft]
  rw [hturn] at hfull
  rw [toNat_lowCount] at hspec
  unfold Rotate.CountHolds
  split at hspec
  case isTrue h =>
    rw [lowCount_eq_zero] at h
    have hself := rotateFlags_self fl
    rw [hspec, rotateFlags_eq_iff hfull.2 hself, hfull.1, h, rotateLeft_zero]
    refine ⟨?_, ?_⟩
    · rintro ⟨-, hcf, -⟩
      exact ⟨fun _ => hcf.symm, fun hone => by cases hone⟩
    · rintro ⟨hcf, -⟩
      exact ⟨rfl, (hcf rfl).symm, rfl⟩
  case isFalse h =>
    rw [lowCount_eq_zero] at h
    rw [rotateFlags_eq_iff hfull.2 hspec.2, hfull.1, hspec.1]
    by_cases hlow : c.toNat % 32 = 1
    · have hfirst : (d.rotateLeft 1).getLsbD 0 = d.getLsbD (w - 1) := by
        rw [getLsbD_rotateLeft_mod _ _ (by omega), Nat.mod_eq_of_lt (by omega : 1 < w),
          if_pos (by decide), Nat.add_zero]
      have hlast : (d.rotateLeft 1).getLsbD (w - 1) = d.getLsbD (w - 2) := by
        rw [getLsbD_rotateLeft_mod _ _ (by omega), Nat.mod_eq_of_lt (by omega : 1 < w),
          if_neg (by omega), Nat.sub_sub]
      rw [if_pos (lowCount_eq_one.mpr hlow), hlow, hfirst, hlast]
      exact ⟨fun hof => ⟨fun hzero => absurd hzero (by decide), fun _ => hof.2.2⟩,
        fun hof => ⟨rfl, rfl, hof.2 rfl⟩⟩
    · rw [if_neg (fun hc1 => hlow (lowCount_eq_one.mp hc1))]
      exact ⟨fun _ => ⟨fun hzero => absurd hzero h, fun hc1 => absurd hc1 hlow⟩,
        fun _ => ⟨rfl, rfl, rfl⟩⟩

theorem ror_agrees (hw : w ≤ 32) (h2 : 2 ≤ w) (hdvd : w ∣ 32) (d : BitVec w) {c : U8}
    (hc : 32 ≤ c.toNat) (fl : U32) :
    (rorVal d c).run () fl = (rorVal d (lowCount c)).run () fl ↔
      Rotate.ror.CountHolds d c.toNat fl := by
  have hfull := rorVal_spec hw h2 d c fl
  have hspec := rorVal_spec hw h2 d (lowCount c) fl
  have hne : c ≠ 0 := by
    rintro rfl
    exact absurd hc (by decide)
  have hone : c ≠ 1 := by
    rintro rfl
    exact absurd hc (by decide)
  dsimp only at hfull hspec
  rw [if_neg hne, if_neg hone] at hfull
  have hturn : d.rotateRight c.toNat = d.rotateRight (c.toNat % 32) := by
    rw [← BitVec.rotateRight_mod_eq_rotateRight, ← Nat.mod_mod_of_dvd c.toNat hdvd,
      BitVec.rotateRight_mod_eq_rotateRight]
  rw [hturn] at hfull
  rw [toNat_lowCount] at hspec
  unfold Rotate.CountHolds
  split at hspec
  case isTrue h =>
    rw [lowCount_eq_zero] at h
    have hself := rotateFlags_self fl
    rw [hspec, rotateFlags_eq_iff hfull.2 hself, hfull.1, h, rotateRight_zero]
    refine ⟨?_, ?_⟩
    · rintro ⟨-, hcf, -⟩
      exact ⟨fun _ => hcf.symm, fun hone => by cases hone⟩
    · rintro ⟨hcf, -⟩
      exact ⟨rfl, (hcf rfl).symm, rfl⟩
  case isFalse h =>
    rw [lowCount_eq_zero] at h
    rw [rotateFlags_eq_iff hfull.2 hspec.2, hfull.1, hspec.1]
    by_cases hlow : c.toNat % 32 = 1
    · have hlast : (d.rotateRight 1).getLsbD (w - 1) = d.getLsbD 0 := by
        rw [BitVec.getLsbD_rotateRight, Nat.mod_eq_of_lt (by omega : 1 < w),
          decide_eq_false (by omega), cond_false, decide_eq_true (by omega), Bool.true_and,
          Nat.sub_self]
      have hsecond : (d.rotateRight 1).getLsbD (w - 2) = d.getLsbD (w - 1) := by
        rw [BitVec.getLsbD_rotateRight, Nat.mod_eq_of_lt (by omega : 1 < w),
          decide_eq_true (by omega), cond_true]
        congr 1
        omega
      rw [if_pos (lowCount_eq_one.mpr hlow), hlow, hlast, hsecond]
      exact ⟨fun hof => ⟨fun hzero => absurd hzero (by decide), fun _ => hof.2.2⟩,
        fun hof => ⟨rfl, rfl, hof.2 rfl⟩⟩
    · rw [if_neg (fun hc1 => hlow (lowCount_eq_one.mp hc1))]
      exact ⟨fun _ => ⟨fun hzero => absurd hzero h, fun hc1 => absurd hc1 hlow⟩,
        fun _ => ⟨rfl, rfl, rfl⟩⟩

/-- `OF` after `rcl_*`, from the operand. -/
theorem rclOverflow_eq (hw : w ≤ 32) (h2 : 2 ≤ w) (d : BitVec w) (fl : U32) {cnt : Nat}
    (h0 : cnt ≠ 0) : rclOverflow (carryOf fl) d cnt = rclOver d fl cnt := by
  unfold rclOverflow rclOver
  rw [if_neg h0]
  by_cases hone : cnt = 1
  · rw [hone, getLsbD_cShr _ (by omega), getLsbD_widen hw,
      getLsbD_rclRes hw _ d (by decide) (by omega) (by decide) (by omega), if_neg (by omega),
      Nat.add_zero, Nat.sub_sub]
  · rw [decide_eq_false hone, Bool.false_and, Bool.false_and]

/-- What `rcl_*` by less than 32 gives, as a turned circle. -/
theorem rclVal_circle (hw : w ≤ 32) (h2 : 2 ≤ w) (d : BitVec w) (s : U8)
    (hs : s.toNat % (w + 1) < 32) (fl : U32) :
    let out := (rclVal d s).run () fl
    ring (carryOf out.2) out.1 = (ring (carryOf fl) d).rotateLeft s.toNat ∧
      RotateFlags (carryOf out.2) (rclOver d fl (s.toNat % (w + 1))) fl out.2 := by
  have hspec := rclVal_spec d s fl
  have hmod := Nat.mod_lt s.toNat (by omega : 0 < w + 1)
  dsimp only at hspec ⊢
  rw [← BitVec.rotateLeft_mod_eq_rotateLeft]
  split at hspec
  case isTrue h =>
    rw [hspec, h, rotateLeft_zero]
    exact ⟨rfl, rotateFlags_self fl⟩
  case isFalse h =>
    obtain ⟨hval, hflags⟩ := hspec
    have hcarry := hflags.carry
    rw [rcl_ring hw _ _ (by omega) (by omega) (by omega), hval, hcarry]
    rw [rclOverflow_eq hw h2 d fl h] at hflags
    exact ⟨rfl, hflags⟩

/-- What `rcr_*` gives, as a turned circle. -/
theorem rcrVal_circle (hw : w ≤ 32) {high : U32 → Nat → U32} (hhigh : HighBits w high)
    (d : BitVec w) (s : U8) (fl : U32) :
    let out := (rcrVal high d s).run () fl
    ring (carryOf out.2) out.1 = (ring (carryOf fl) d).rotateRight s.toNat ∧
      RotateFlags (carryOf out.2) (rcrOver d fl (s.toNat % (w + 1))) fl out.2 := by
  have hspec := rcrVal_spec hw high d s fl
  have hmod := Nat.mod_lt s.toNat (by omega : 0 < w + 1)
  dsimp only at hspec ⊢
  rw [← BitVec.rotateRight_mod_eq_rotateRight]
  split at hspec
  case isTrue h =>
    rw [hspec, h, rotateRight_zero]
    exact ⟨rfl, rotateFlags_self fl⟩
  case isFalse h =>
    obtain ⟨hval, hflags⟩ := hspec
    have hcarry := hflags.carry
    rw [rcr_ring hw hhigh _ _ (by omega) (by omega), hval, hcarry]
    exact ⟨rfl, hflags⟩

/-- Two turned circles with their overflows. -/
theorem circle_eq_iff {out out' : BitVec w × U32} {fl : U32} {of of' : Bool}
    (h : RotateFlags (carryOf out.2) of fl out.2)
    (h' : RotateFlags (carryOf out'.2) of' fl out'.2) :
    out = out' ↔ ring (carryOf out.2) out.1 = ring (carryOf out'.2) out'.1 ∧ of = of' := by
  rw [rotateFlags_eq_iff h h']
  refine ⟨?_, ?_⟩
  · rintro ⟨hval, hcf, hof⟩
    rw [hval, hcf]
    exact ⟨rfl, hof⟩
  · rintro ⟨hring, hof⟩
    obtain ⟨hval, hcf⟩ := ring_inj hring
    exact ⟨hval, hcf, hof⟩

/-- Turning by `c` and by less is the same when the rest of the turn is none. -/
theorem rotateLeft_eq_iff {v : Nat} (x : BitVec v) {c k : Nat} (hk : k ≤ c) :
    x.rotateLeft c = x.rotateLeft k ↔ x.rotateLeft (c - k) = x := by
  have hsplit : x.rotateLeft c = (x.rotateLeft (c - k)).rotateLeft k := by
    rw [rotateLeft_rotateLeft, Nat.sub_add_cancel hk]
  rw [hsplit]
  refine ⟨fun h => ?_, fun h => by rw [h]⟩
  have hback := congrArg (fun y => y.rotateRight k) h
  simpa only [rotateRight_rotateLeft] using hback

theorem rotateRight_eq_iff {v : Nat} (x : BitVec v) {c k : Nat} (hk : k ≤ c) :
    x.rotateRight c = x.rotateRight k ↔ x.rotateLeft (c - k) = x := by
  have hsplit : ∀ y : BitVec v, (y.rotateRight k).rotateLeft c = y.rotateLeft (c - k) := by
    intro y
    rw [show c = k + (c - k) by omega, ← rotateLeft_rotateLeft, rotateLeft_rotateRight,
      Nat.add_sub_cancel_left]
  refine ⟨fun h => ?_, fun h => ?_⟩
  · rw [← hsplit, ← h, rotateLeft_rotateRight]
  · have hback := congrArg (fun y => y.rotateRight c) (hsplit x)
    rw [h] at hback
    simpa only [rotateRight_rotateLeft] using hback.symm

theorem rcr_agrees (hw : w ≤ 32) {high : U32 → Nat → U32} (hhigh : HighBits w high)
    (d : BitVec w) (c : U8) (fl : U32) :
    (rcrVal high d c).run () fl = (rcrVal high d (lowCount c)).run () fl ↔
      Rotate.rcr.CountHolds d c.toNat fl := by
  obtain ⟨hfull, hflags⟩ := rcrVal_circle hw hhigh d c fl
  obtain ⟨hlow, hflags'⟩ := rcrVal_circle hw hhigh d (lowCount c) fl
  rw [circle_eq_iff hflags hflags', hfull, hlow, toNat_lowCount,
    rotateRight_eq_iff _ (Nat.mod_le c.toNat 32)]
  rfl

theorem rcl_agrees_turn (hw : w ≤ 32) (h2 : 2 ≤ w) (d : BitVec w) {c : U8}
    (hs : c.toNat % (w + 1) < 32) (fl : U32) :
    (rclVal d c).run () fl = (rclVal d (lowCount c)).run () fl ↔
      Rotate.rcl.CountHolds d c.toNat fl := by
  have hlt : (lowCount c).toNat % (w + 1) < 32 := by
    rw [toNat_lowCount]
    exact Nat.lt_of_le_of_lt (Nat.mod_le _ _) (Nat.mod_lt _ (by decide))
  obtain ⟨hfull, hflags⟩ := rclVal_circle hw h2 d c hs fl
  obtain ⟨hlow, hflags'⟩ := rclVal_circle hw h2 d (lowCount c) hlt fl
  rw [circle_eq_iff hflags hflags', hfull, hlow, toNat_lowCount,
    rotateLeft_eq_iff _ (Nat.mod_le c.toNat 32)]
  unfold Rotate.CountHolds
  refine and_congr_right fun _ => ⟨fun hof => ⟨?_, hof⟩, And.right⟩
  rintro ⟨rfl, hcnt⟩
  omega

end Widths

/-- The circle after `rcl_long` by 32 has each bit or its upper neighbour. -/
theorem getLsbD_rclLong (cf : Bool) (d : U32) {i : Nat} (hi : i < 33) :
    (ring ((cShr (widen d) (32 - 32)).getLsbD 0) ((rclRes cf d 32).setWidth 32)).getLsbD i =
      if i = 32 then (ring cf d).getLsbD 0
      else (ring cf d).getLsbD i || (ring cf d).getLsbD (i + 1) := by
  have hwiden : widen d = d := BitVec.setWidth_eq d
  rw [getLsbD_ring, hwiden]
  by_cases htop : i = 32
  · rw [if_pos htop, if_pos htop, getLsbD_cShr _ (by decide), getLsbD_ring]
    rfl
  · have hlt : i < 32 := by omega
    have hkeep : cShl d 32 = d := BitVec.shiftLeft_zero d
    have hlow : (((cShl (widen d) 32).setWidth 32).setWidth 32 |||
        (cShr (widen d) (32 + 1 - 32) &&& (cShl 1 (32 - 1) - 1))).getLsbD i =
        (d.getLsbD i || decide (i < 31) && d.getLsbD (i + 1)) := by
      rw [hwiden, BitVec.getLsbD_or, BitVec.getLsbD_and, getLsbD_mask (by decide),
        getLsbD_cShr _ (by decide), hkeep, BitVec.setWidth_eq, BitVec.setWidth_eq, Bool.and_comm,
        Nat.add_comm]
    rw [if_neg htop, if_neg htop, getLsbD_ring, getLsbD_ring, if_neg htop, BitVec.setWidth_eq]
    have hbeyond : d.getLsbD 32 = false := BitVec.getLsbD_of_ge d 32 (by decide)
    unfold rclRes
    dsimp only
    split
    case isTrue h =>
      rw [BitVec.getLsbD_or, hlow, getLsbD_cShl_one (by decide), h]
      by_cases hlast : i = 31
      · simp [hlast]
      · simp [hlast, show i < 31 by omega]
    case isFalse h =>
      rw [hlow]
      by_cases hlast : i = 31
      · simp [hlast, h]
      · simp [hlast, show i < 31 by omega]

/-- A circle of equal bits. -/
theorem const_iff {v : Nat} (x : BitVec v) :
    (x = 0 ∨ x = BitVec.allOnes v) ↔ ∃ b, ∀ i < v, x.getLsbD i = b := by
  refine ⟨?_, ?_⟩
  · rintro (rfl | rfl)
    · exact ⟨false, fun i _ => BitVec.getLsbD_zero⟩
    · refine ⟨true, fun i hi => ?_⟩
      rw [BitVec.getLsbD_allOnes, decide_eq_true hi]
  · rintro ⟨b, hb⟩
    cases b with
    | false =>
      refine Or.inl (BitVec.eq_of_getLsbD_eq fun i hi => ?_)
      rw [hb i hi]
      exact BitVec.getLsbD_zero.symm
    | true =>
      refine Or.inr (BitVec.eq_of_getLsbD_eq fun i hi => ?_)
      rw [hb i hi, BitVec.getLsbD_allOnes, decide_eq_true hi]

theorem rotateLeft_const {v : Nat} {x : BitVec v} {b : Bool} (hb : ∀ i < v, x.getLsbD i = b)
    (n : Nat) : x.rotateLeft n = x := by
  apply BitVec.eq_of_getLsbD_eq
  intro i hi
  have hn := Nat.mod_lt n (by omega : 0 < v)
  rw [getLsbD_rotateLeft_mod _ _ hi, hb i hi]
  apply hb
  split <;> omega

/-- `rcl_long` by 32 is a turn by `k` of equal bits only. -/
theorem rclLong_turn (cf : Bool) (d : U32) {k : Nat} (hk : k ≤ 16) :
    ring ((cShr (widen d) (32 - 32)).getLsbD 0) ((rclRes cf d 32).setWidth 32) =
        (ring cf d).rotateLeft k ↔
      ∃ b, ∀ i < 33, (ring cf d).getLsbD i = b := by
  have hidx : ∀ i < 33, (if i < k % 33 then 33 - k % 33 + i else i - k % 33) =
      (i + 33 - k) % 33 := by
    intro i hi
    rw [Nat.mod_eq_of_lt (by omega : k < 33)]
    split <;> omega
  refine ⟨fun heq => ?_, ?_⟩
  · have hbit : ∀ i < 33, (if i = 32 then (ring cf d).getLsbD 0
        else (ring cf d).getLsbD i || (ring cf d).getLsbD (i + 1)) =
          (ring cf d).getLsbD ((i + 33 - k) % 33) := by
      intro i hi
      rw [← getLsbD_rclLong cf d hi, heq, getLsbD_rotateLeft_mod _ _ hi, hidx i hi]
    have hcircle := circle_const (g := fun j => (ring cf d).getLsbD (j % 33))
      (fun j => by simp) hk
      (fun i hi => by
        have h := hbit i (by omega)
        rw [if_neg (by omega)] at h
        rw [← h, Nat.mod_eq_of_lt (by omega : i < 33), Nat.mod_eq_of_lt (by omega : i + 1 < 33)])
      (hbit 32 (by decide)).symm
    rcases hcircle with hone | hzero
    · refine ⟨true, fun i hi => ?_⟩
      rw [← hone i (by omega), Nat.mod_eq_of_lt hi]
    · refine ⟨false, fun i hi => ?_⟩
      rw [← hzero i (by omega), Nat.mod_eq_of_lt hi]
  · rintro ⟨b, hb⟩
    rw [rotateLeft_const hb]
    apply BitVec.eq_of_getLsbD_eq
    intro i hi
    rw [getLsbD_rclLong cf d hi, hb i hi]
    split
    · exact hb 0 (by decide)
    · rw [hb (i + 1) (by omega), Bool.or_self]

theorem rclLong_agrees (d : U32) {c : U8} (hcnt : c.toNat % 33 = 32) (fl : U32) :
    (rclLong d c).run () fl = (rclLong d (lowCount c)).run () fl ↔
      Rotate.rcl.CountHolds d c.toNat fl := by
  have hk : c.toNat % 32 ≤ 16 := by
    have hlt := c.isLt
    obtain ⟨q, hq⟩ : ∃ q, c.toNat = 33 * q + 32 := ⟨c.toNat / 33, by omega⟩
    rw [hq, show 33 * q + 32 = q + 32 * (q + 1) by omega, Nat.add_mul_mod_self_left,
      Nat.mod_eq_of_lt (by omega)]
    omega
  have hlt : (lowCount c).toNat % (32 + 1) < 32 := by
    rw [toNat_lowCount]
    omega
  have hspec := rclVal_spec d c fl
  dsimp only at hspec
  rw [hcnt, if_neg (by decide), rclOverflow_eq (by decide) (by decide) d fl (by decide)] at hspec
  obtain ⟨hval, hflags⟩ := hspec
  obtain ⟨hlow, hflags'⟩ := rclVal_circle (by decide) (by decide) d (lowCount c) hlt fl
  have hcarry := hflags.carry
  rw [← hcarry] at hflags
  unfold rclLong
  rw [circle_eq_iff hflags hflags', hlow, hval, hcarry, toNat_lowCount, rclLong_turn _ d hk]
  unfold Rotate.CountHolds
  rw [const_iff, hcnt]
  refine ⟨?_, ?_⟩
  · rintro ⟨⟨b, hb⟩, hof⟩
    exact ⟨rotateLeft_const hb _, fun _ => ⟨b, hb⟩, hof⟩
  · rintro ⟨-, hconst, hof⟩
    exact ⟨hconst ⟨rfl, rfl⟩, hof⟩

/-- A count of 8 bits gives the result and the flags of its low 5 bits. -/
def Rotate.CountLow {z : OpSize} (r : Rotate) (d : BitVec z.bits) (c : U8) (fl : U32) : Prop :=
  (r.run z d c).run () fl = (r.run z d (lowCount c)).run () fl

theorem Rotate.count_iff {z : OpSize} (r : Rotate) (d : BitVec z.bits) {c : U8}
    (hc : 32 ≤ c.toNat) (fl : U32) : r.CountLow d c fl ↔ r.CountHolds d c.toNat fl := by
  have hw : z.bits ≤ 32 := by cases z <;> decide
  have h2 : 2 ≤ z.bits := by cases z <;> decide
  have hdvd : z.bits ∣ 32 := by cases z <;> decide
  have hcnt : ∀ {w : Nat}, w < 32 → c.toNat % (w + 1) < 32 := by
    intro w hlt
    have hmod := Nat.mod_lt c.toNat (by omega : 0 < w + 1)
    omega
  cases r with
  | rol => cases z <;> exact rol_agrees hw h2 hdvd d hc fl
  | ror => cases z <;> exact ror_agrees hw h2 hdvd d hc fl
  | rcl =>
    cases z with
    | byte => exact rcl_agrees_turn hw h2 d (hcnt (by decide)) fl
    | word => exact rcl_agrees_turn hw h2 d (hcnt (by decide)) fl
    | long =>
      by_cases h : c.toNat % 33 = 32
      · exact rclLong_agrees d h fl
      · have hmod := Nat.mod_lt c.toNat (by decide : 0 < 33)
        exact rcl_agrees_turn hw h2 d (by omega : c.toNat % (32 + 1) < 32) fl
  | rcr =>
    cases z with
    | byte => exact rcr_agrees (by decide) (highBits_narrow (w := 8) (by decide)) d c fl
    | word => exact rcr_agrees (by decide) (highBits_narrow (w := 16) (by decide)) d c fl
    | long => exact rcr_agrees (by decide) highBits_long d c fl

/-- Below 32 the count is its low 5 bits. -/
theorem lowCount_eq {c : U8} (hc : c.toNat < 32) : lowCount c = c := by
  apply BitVec.eq_of_toNat_eq
  rw [toNat_lowCount, Nat.mod_eq_of_lt hc]

/-- A rotate takes its count modulo 32 below 32, and else exactly when `CountHolds`. -/
theorem Rotate.countLow_iff {z : OpSize} (r : Rotate) (d : BitVec z.bits) (c : U8) (fl : U32) :
    r.CountLow d c fl ↔ c.toNat < 32 ∨ r.CountHolds d c.toNat fl := by
  by_cases hc : c.toNat < 32
  · unfold Rotate.CountLow
    rw [lowCount_eq hc]
    exact ⟨fun _ => Or.inl hc, fun _ => rfl⟩
  · rw [or_iff_right hc]
    exact r.count_iff d (Nat.le_of_not_lt hc) fl

/-- So does a shift. -/
theorem Shift.countLow_iff {z : OpSize} (op : Shift z) (d : BitVec z.bits) (c : U8) (fl : U32) :
    op.CountLow d c fl ↔ c.toNat < 32 ∨ op.CountHolds d c.toNat fl := by
  by_cases hc : c.toNat < 32
  · unfold Shift.CountLow
    rw [lowCount_eq hc]
    exact ⟨fun _ => Or.inl hc, fun _ => rfl⟩
  · rw [or_iff_right hc]
    exact op.count_iff d (Nat.le_of_not_lt hc) fl

end X86Emu
