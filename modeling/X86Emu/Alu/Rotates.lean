import X86Emu.Alu.Bits
import X86Emu.Lib.Rotate

/-!
# Rotates

The closed formulas of the rotate functions are rotations of a word, and of the word with the
carry flag as one more bit on top, by as many single bits as the count says.
-/

namespace X86Emu

open Lib

section Widths

variable {w : Nat}

/-! ## Rotates of a word -/

theorem rol_value (hw : w ≤ 32) (h1 : 0 < w) (d : BitVec w) (n : Nat) :
    (if n % w ≠ 0 then
        (cShl (widen d) (n % w) +
          (cShr (widen d) (w - n % w) &&& (cShl 1 (n % w) - 1))).setWidth w
      else d) = d.rotateLeft n := by
  have hlt := Nat.mod_lt n h1
  by_cases hzero : n % w = 0
  · rw [if_neg (not_not_intro hzero), rotateLeft_of_dvd d (Nat.dvd_of_mod_eq_zero hzero)]
  · rw [if_pos hzero]
    have hdisj : cShl (widen d) (n % w) &&&
        (cShr (widen d) (w - n % w) &&& (cShl 1 (n % w) - 1)) = 0 := by
      apply BitVec.eq_of_getLsbD_eq
      intro i hi
      rw [BitVec.getLsbD_and, BitVec.getLsbD_and, getLsbD_cShl _ (by omega) hi,
        getLsbD_mask (by omega)]
      by_cases h : n % w ≤ i
      · simp [Nat.not_lt_of_le h]
      · simp [h]
    rw [BitVec.add_eq_or_of_and_eq_zero _ _ hdisj]
    apply BitVec.eq_of_getLsbD_eq
    intro i hi
    rw [BitVec.getLsbD_setWidth, BitVec.getLsbD_or, BitVec.getLsbD_and,
      getLsbD_cShl _ (by omega) (by omega), getLsbD_cShr _ (by omega), getLsbD_mask (by omega),
      getLsbD_widen hw, getLsbD_widen hw, getLsbD_rotateLeft_mod _ _ hi]
    by_cases h : i < n % w
    · simp [h, hi, Nat.not_le_of_lt h]
    · simp [h, hi, Nat.le_of_not_lt h]

theorem ror_value (hw : w ≤ 32) (h1 : 0 < w) (d : BitVec w) (n : Nat) :
    (if n % w ≠ 0 then
        (cShl (widen d) (w - n % w) +
          (cShr (widen d) (n % w) &&& (cShl 1 (w - n % w) - 1))).setWidth w
      else d) = d.rotateRight n := by
  have hlt := Nat.mod_lt n h1
  have hleft := rol_value hw h1 d (w - n % w)
  rw [rotateRight_eq, ← hleft]
  by_cases hzero : n % w = 0
  · simp [hzero]
  · have hmod : (w - n % w) % w = w - n % w := Nat.mod_eq_of_lt (by omega)
    rw [hmod, if_pos hzero, if_pos (by omega), show w - (w - n % w) = n % w by omega]

/-! ## Rotates through the carry -/

/-- The word with the carry on top. -/
def ring (cf : Bool) (d : BitVec w) : BitVec (w + 1) := BitVec.cons cf d

theorem getLsbD_ring (cf : Bool) (d : BitVec w) (i : Nat) :
    (ring cf d).getLsbD i = if i = w then cf else d.getLsbD i :=
  BitVec.getLsbD_cons cf d i

/-- A ring is known by its word and its carry. -/
theorem eq_ring {cf : Bool} {d : BitVec w} {x : BitVec (w + 1)} (htop : x.getLsbD w = cf)
    (hlow : ∀ i < w, x.getLsbD i = d.getLsbD i) : x = ring cf d := by
  apply BitVec.eq_of_getLsbD_eq
  intro i hi
  rw [getLsbD_ring]
  split
  case isTrue h =>
    rw [h, htop]
  case isFalse h =>
    exact hlow i (by omega)

/-- The value of `rcl_*`. -/
def rclRes (cf : Bool) (d : BitVec w) (cnt : Nat) : U32 :=
  let res := ((cShl (widen d) cnt).setWidth w).setWidth 32 |||
    (cShr (widen d) (w + 1 - cnt) &&& (cShl 1 (cnt - 1) - 1))
  if cf then res ||| cShl 1 (cnt - 1) else res

/-- The bits that come round from the top; for the count 1 there are none. -/
theorem getLsbD_rclHigh (hw : w ≤ 32) (d : BitVec w) {cnt i : Nat} (h0 : 0 < cnt)
    (hcnt : cnt ≤ w) :
    (cShr (widen d) (w + 1 - cnt) &&& (cShl 1 (cnt - 1) - 1)).getLsbD i =
      (decide (i < cnt - 1) && d.getLsbD (w + 1 - cnt + i)) := by
  rw [BitVec.getLsbD_and, getLsbD_mask (by omega), Bool.and_comm]
  by_cases h : i < cnt - 1
  · rw [getLsbD_cShr _ (by omega), getLsbD_widen hw]
  · rw [decide_eq_false h, Bool.false_and, Bool.false_and]

theorem getLsbD_rclRes (hw : w ≤ 32) (cf : Bool) (d : BitVec w) {cnt i : Nat} (h0 : 0 < cnt)
    (hcnt : cnt ≤ w) (h32 : cnt < 32) (hi : i < w) :
    (rclRes cf d cnt).getLsbD i =
      if i < cnt then (if i = cnt - 1 then cf else d.getLsbD (w + 1 - cnt + i))
      else d.getLsbD (i - cnt) := by
  have hlow : (((cShl (widen d) cnt).setWidth w).setWidth 32 |||
      (cShr (widen d) (w + 1 - cnt) &&& (cShl 1 (cnt - 1) - 1))).getLsbD i =
      if i < cnt then decide (i < cnt - 1) && d.getLsbD (w + 1 - cnt + i)
      else d.getLsbD (i - cnt) := by
    rw [BitVec.getLsbD_or, getLsbD_rclHigh hw d h0 hcnt, BitVec.getLsbD_setWidth,
      BitVec.getLsbD_setWidth, getLsbD_cShl _ h32 (by omega), getLsbD_widen hw]
    by_cases h : i < cnt
    · simp [h, Nat.not_le_of_lt h]
    · simp [h, hi, Nat.le_of_not_lt h, show i < 32 by omega, show ¬i < cnt - 1 by omega]
  unfold rclRes
  cases cf with
  | true =>
    rw [if_pos rfl, BitVec.getLsbD_or, hlow, getLsbD_cShl_one (by omega)]
    by_cases h : i < cnt
    · by_cases hlast : i = cnt - 1
      · simp [hlast, h0]
      · simp [h, hlast, show i < cnt - 1 by omega]
    · simp [h, show i ≠ cnt - 1 by omega]
  | false =>
    rw [if_neg (by decide), hlow]
    by_cases h : i < cnt
    · by_cases hlast : i = cnt - 1
      · simp [hlast, h0]
      · simp [h, hlast, show i < cnt - 1 by omega]
    · simp [h]

theorem rcl_ring (hw : w ≤ 32) (cf : Bool) (d : BitVec w) {cnt : Nat} (h0 : 0 < cnt)
    (hcnt : cnt ≤ w) (h32 : cnt < 32) :
    (ring cf d).rotateLeft cnt =
      ring ((cShr (widen d) (w - cnt)).getLsbD 0) ((rclRes cf d cnt).setWidth w) := by
  have hmod : cnt % (w + 1) = cnt := Nat.mod_eq_of_lt (by omega)
  apply eq_ring
  · rw [getLsbD_rotateLeft_mod _ _ (Nat.lt_succ_self w), hmod, if_neg (by omega), getLsbD_ring,
      if_neg (by omega), getLsbD_cShr _ (by omega), getLsbD_widen hw, Nat.add_zero]
  · intro i hi
    rw [getLsbD_rotateLeft_mod _ _ (by omega), hmod, getLsbD_ring, BitVec.getLsbD_setWidth,
      decide_eq_true hi, Bool.true_and, getLsbD_rclRes hw cf d h0 hcnt h32 hi]
    by_cases h : i < cnt
    · by_cases hlast : i = cnt - 1
      · rw [if_pos h, if_pos (by omega), if_pos h, if_pos hlast]
      · rw [if_pos h, if_neg (by omega), if_pos h, if_neg hlast]
    · rw [if_neg h, if_neg (by omega), if_neg h]

/-- The value of `rcr_*`. -/
def rcrRes (high : U32 → Nat → U32) (cf : Bool) (d : BitVec w) (cnt : Nat) : U32 :=
  let res := (cShr (widen d) cnt &&& (cShl 1 (w - cnt) - 1)) ||| high (widen d) cnt
  if cf then res ||| cShl 1 (w - cnt) else res

/-- The bits that `rcr_*` brings in from the left. -/
def HighBits (w : Nat) (high : U32 → Nat → U32) : Prop :=
  ∀ (d : BitVec w) (cnt i : Nat), 0 < cnt → cnt ≤ w → i < w →
    (high (widen d) cnt).getLsbD i = (decide (w + 1 - cnt ≤ i) && d.getLsbD (i - (w + 1 - cnt)))

theorem getLsbD_rcrLow (hw : w ≤ 32) (d : BitVec w) {cnt i : Nat} (h0 : 0 < cnt)
    (hcnt : cnt ≤ w) :
    (cShr (widen d) cnt &&& (cShl 1 (w - cnt) - 1)).getLsbD i =
      (decide (i < w - cnt) && d.getLsbD (cnt + i)) := by
  rw [BitVec.getLsbD_and, getLsbD_mask (by omega), Bool.and_comm]
  by_cases h : i < w - cnt
  · rw [getLsbD_cShr _ (by omega), getLsbD_widen hw]
  · rw [decide_eq_false h, Bool.false_and, Bool.false_and]

theorem getLsbD_rcrRes (hw : w ≤ 32) {high : U32 → Nat → U32} (hhigh : HighBits w high) (cf : Bool)
    (d : BitVec w) {cnt i : Nat} (h0 : 0 < cnt) (hcnt : cnt ≤ w) (hi : i < w) :
    (rcrRes high cf d cnt).getLsbD i =
      if i < w + 1 - cnt then (if i = w - cnt then cf else d.getLsbD (cnt + i))
      else d.getLsbD (i - (w + 1 - cnt)) := by
  have hlow : ((cShr (widen d) cnt &&& (cShl 1 (w - cnt) - 1)) ||| high (widen d) cnt).getLsbD i =
      if i < w + 1 - cnt then decide (i < w - cnt) && d.getLsbD (cnt + i)
      else d.getLsbD (i - (w + 1 - cnt)) := by
    rw [BitVec.getLsbD_or, getLsbD_rcrLow hw d h0 hcnt, hhigh d cnt i h0 hcnt hi]
    by_cases h : i < w + 1 - cnt
    · simp [h, Nat.not_le_of_lt h]
    · simp [h, Nat.le_of_not_lt h, show ¬i < w - cnt by omega]
  unfold rcrRes
  cases cf with
  | true =>
    rw [if_pos rfl, BitVec.getLsbD_or, hlow, getLsbD_cShl_one (by omega)]
    by_cases h : i < w + 1 - cnt
    · by_cases hlast : i = w - cnt
      · rw [if_pos h, if_pos h, if_pos hlast, decide_eq_true hlast, Bool.or_true]
      · simp [h, hlast, show i < w - cnt by omega]
    · simp [h, show i ≠ w - cnt by omega]
  | false =>
    rw [if_neg (by decide), hlow]
    by_cases h : i < w + 1 - cnt
    · by_cases hlast : i = w - cnt
      · rw [if_pos h, if_pos h, if_pos hlast, decide_eq_false (by omega), Bool.false_and]
      · simp [h, hlast, show i < w - cnt by omega]
    · simp [h]

theorem rcr_ring (hw : w ≤ 32) {high : U32 → Nat → U32} (hhigh : HighBits w high) (cf : Bool)
    (d : BitVec w) {cnt : Nat} (h0 : 0 < cnt) (hcnt : cnt ≤ w) :
    (ring cf d).rotateRight cnt =
      ring ((cShr (widen d) (cnt - 1)).getLsbD 0) ((rcrRes high cf d cnt).setWidth w) := by
  have hmod : cnt % (w + 1) = cnt := Nat.mod_eq_of_lt (by omega)
  have hturn : (w + 1 - cnt) % (w + 1) = w + 1 - cnt := Nat.mod_eq_of_lt (by omega)
  rw [rotateRight_eq, hmod]
  apply eq_ring
  · rw [getLsbD_rotateLeft_mod _ _ (Nat.lt_succ_self w), hturn, if_neg (by omega), getLsbD_ring,
      if_neg (by omega), getLsbD_cShr _ (by omega), getLsbD_widen hw]
    congr 1
    omega
  · intro i hi
    rw [getLsbD_rotateLeft_mod _ _ (by omega), hturn, getLsbD_ring, BitVec.getLsbD_setWidth,
      decide_eq_true hi, Bool.true_and, getLsbD_rcrRes hw hhigh cf d h0 hcnt hi]
    by_cases h : i < w + 1 - cnt
    · have hidx : w + 1 - (w + 1 - cnt) + i = cnt + i := by omega
      rw [if_pos h, if_pos h, hidx]
      by_cases hlast : i = w - cnt
      · rw [if_pos (by omega), if_pos hlast]
      · rw [if_neg (by omega), if_neg hlast]
    · rw [if_neg h, if_neg (by omega), if_neg h]

end Widths

/-! ## The functions -/

/-- `CF` of a flags word. -/
def carryOf (fl : U32) : Bool := fl.getLsbD Flag.cf.bit

/-- `OF` of a flags word. -/
def overflowOf (fl : U32) : Bool := fl.getLsbD Flag.of.bit

/-- The bits of the flags that no rotate writes. -/
def SameRest (fl fl' : U32) : Prop :=
  ∀ i, i ≠ Flag.cf.bit → i ≠ Flag.of.bit → fl'.getLsbD i = fl.getLsbD i

/-- `CF` and `OF` after a rotate that writes `CF`, and `OF` in one case. -/
structure RotateFlags (cf : Bool) (of : Bool) (fl fl' : U32) : Prop where
  carry : carryOf fl' = cf
  overflow : overflowOf fl' = of
  rest : SameRest fl fl'

theorem rotateFlags_both (cf of : Bool) (fl : U32) :
    RotateFlags cf of fl ((do condSet cf .cf; condSet of .of : FlagOp Unit).run () fl).2 := by
  refine ⟨?_, ?_, ?_⟩
  · unfold carryOf
    simp only [Prog.run_bind, getLsbD_condSet]
    simp [Flag.bit]
  · unfold overflowOf
    simp only [Prog.run_bind, getLsbD_condSet]
    simp
  · intro i hcf hof
    simp only [Prog.run_bind, getLsbD_condSet, hcf, hof, if_false]

theorem rotateFlags_carry (cf : Bool) (fl : U32) :
    RotateFlags cf (overflowOf fl) fl ((condSet cf .cf).run () fl).2 := by
  refine ⟨?_, ?_, ?_⟩
  · unfold carryOf
    simp only [getLsbD_condSet, if_true]
  · unfold overflowOf
    simp only [getLsbD_condSet]
    simp [Flag.bit]
  · intro i hcf hof
    simp only [getLsbD_condSet, hcf, if_false]

section Widths

variable {w : Nat}

/-- `OF` after `rcl_*` by `cnt` bits. -/
def rclOverflow (cf : Bool) (d : BitVec w) (cnt : Nat) : Bool :=
  cnt = 1 && ((cShr (widen d) (w - cnt)).getLsbD 0 ^^ (rclRes cf d cnt).getLsbD (w - 1))

theorem rclVal_spec (d : BitVec w) (s : U8) (fl : U32) :
    let out := (rclVal d s).run () fl
    let cnt := s.toNat % (w + 1)
    if cnt = 0 then out = (d, fl)
    else out.1 = (rclRes (carryOf fl) d cnt).setWidth w ∧
      RotateFlags ((cShr (widen d) (w - cnt)).getLsbD 0) (rclOverflow (carryOf fl) d cnt) fl
        out.2 := by
  dsimp only
  unfold rclVal
  split
  case isTrue h =>
    rw [if_neg (not_not_intro h)]
    rfl
  case isFalse h =>
    rw [if_pos h]
    exact ⟨rfl, rotateFlags_both _ _ fl⟩

theorem rcrVal_spec (hw : w ≤ 32) (high : U32 → Nat → U32) (d : BitVec w) (s : U8) (fl : U32) :
    let out := (rcrVal high d s).run () fl
    let cnt := s.toNat % (w + 1)
    if cnt = 0 then out = (d, fl)
    else out.1 = (rcrRes high (carryOf fl) d cnt).setWidth w ∧
      RotateFlags ((cShr (widen d) (cnt - 1)).getLsbD 0)
        (if cnt = 1 then carryOf fl ^^ d.getLsbD (w - 1) else overflowOf fl) fl out.2 := by
  dsimp only
  unfold rcrVal
  split
  case isTrue h =>
    rw [if_neg (not_not_intro h)]
    rfl
  case isFalse h =>
    rw [if_pos h, ← getLsbD_widen hw d (w - 1)]
    by_cases hone : s.toNat % (w + 1) = 1
    · simp only [hone, if_true]
      exact ⟨rfl, rotateFlags_both _ _ fl⟩
    · simp only [hone, if_false]
      exact ⟨rfl, rotateFlags_carry _ fl⟩

/-- `rol_*` and `ror_*` write `OF` first, for the count 1. -/
theorem rotateFlags_one (one : Prop) [Decidable one] (cf of : Bool) (fl : U32) :
    let prog : FlagOp Unit := do
      if one then condSet of .of
      condSet cf .cf
    RotateFlags cf (if one then of else overflowOf fl) fl (prog.run () fl).2 := by
  dsimp only
  by_cases hone : one
  · simp only [hone, if_true]
    refine ⟨?_, ?_, ?_⟩
    · unfold carryOf
      simp only [Prog.run_bind, getLsbD_condSet, if_true]
    · unfold overflowOf
      simp only [Prog.run_bind, getLsbD_condSet]
      simp [Flag.bit]
    · intro i hcf hof
      simp only [Prog.run_bind, getLsbD_condSet, hcf, hof, if_false]
  · simp only [hone, if_false]
    exact rotateFlags_carry cf fl

theorem rolVal_spec (hw : w ≤ 32) (h1 : 0 < w) (d : BitVec w) (s : U8) (fl : U32) :
    let out := (rolVal d s).run () fl
    if s = 0 then out = (d, fl)
    else out.1 = d.rotateLeft s.toNat ∧
      RotateFlags (out.1.getLsbD 0)
        (if s = 1 then out.1.getLsbD 0 ^^ out.1.getLsbD (w - 1) else overflowOf fl) fl out.2 := by
  have hval := rol_value hw h1 d s.toNat
  dsimp only
  unfold rolVal
  split
  case isTrue h => rfl
  case isFalse h =>
    dsimp only
    simp only [hval]
    by_cases hone : s = 1
    · simp only [hone, if_true]
      exact ⟨rfl, rotateFlags_one True _ _ fl⟩
    · simp only [hone, if_false]
      exact ⟨rfl, rotateFlags_carry _ fl⟩

theorem rorVal_spec (hw : w ≤ 32) (h2 : 2 ≤ w) (d : BitVec w) (s : U8) (fl : U32) :
    let out := (rorVal d s).run () fl
    if s = 0 then out = (d, fl)
    else out.1 = d.rotateRight s.toNat ∧
      RotateFlags (out.1.getLsbD (w - 1))
        (if s = 1 then out.1.getLsbD (w - 1) ^^ out.1.getLsbD (w - 2) else overflowOf fl) fl
        out.2 := by
  have hval := ror_value hw (by omega) d s.toNat
  dsimp only
  unfold rorVal
  split
  case isTrue h => rfl
  case isFalse h =>
    dsimp only
    have hxor : ∀ x : BitVec w,
        xor2 (widen x >>> (w - 2)) = (x.getLsbD (w - 1) ^^ x.getLsbD (w - 2)) := by
      intro x
      rw [xor2_shift, getLsbD_widen hw, getLsbD_widen hw, show w - 2 + 1 = w - 1 by omega,
        Bool.xor_comm]
    simp only [hval, hxor]
    by_cases hone : s = 1
    · simp only [hone, if_true]
      exact ⟨rfl, rotateFlags_one True _ _ fl⟩
    · simp only [hone, if_false]
      exact ⟨rfl, rotateFlags_carry _ fl⟩

end Widths

/-! ## Iterated rotates -/

inductive Rotate
  | rol | ror | rcl | rcr
  deriving DecidableEq, Repr

/-- The four rotates of `op_B_byte`, `op_B_word` and `op_B_long`. -/
def Rotate.run (z : OpSize) : Rotate → BitVec z.bits → U8 → FlagOp (BitVec z.bits)
  | .rol => opB z 0
  | .ror => opB z 1
  | .rcl => opB z 2
  | .rcr => opB z 3

def Rotate.inverse : Rotate → Rotate
  | .rol => .ror
  | .ror => .rol
  | .rcl => .rcr
  | .rcr => .rcl

/-- A rotate by one bit of a word and the carry. -/
def Rotate.step {w : Nat} : Rotate → BitVec w × Bool → BitVec w × Bool
  | .rol, (d, _) => (d.rotateLeft 1, d.getLsbD (w - 1))
  | .ror, (d, _) => (d.rotateRight 1, d.getLsbD 0)
  | .rcl, (d, cf) =>
    let x := (ring cf d).rotateLeft 1
    (x.setWidth w, x.getLsbD w)
  | .rcr, (d, cf) =>
    let x := (ring cf d).rotateRight 1
    (x.setWidth w, x.getLsbD w)

section Widths

variable {w : Nat}

/-- The word and the carry of a ring. -/
theorem unring (x : BitVec (w + 1)) : ring (x.getLsbD w) (x.setWidth w) = x := by
  symm
  apply eq_ring rfl
  intro i hi
  rw [BitVec.getLsbD_setWidth, decide_eq_true hi, Bool.true_and]

theorem ring_inj {cf cf' : Bool} {d d' : BitVec w} (h : ring cf d = ring cf' d') :
    d = d' ∧ cf = cf' := by
  refine ⟨?_, ?_⟩
  · apply BitVec.eq_of_getLsbD_eq
    intro i hi
    have hbit := congrArg (fun x => x.getLsbD i) h
    simpa only [getLsbD_ring, if_neg (Nat.ne_of_lt hi)] using hbit
  · have hbit := congrArg (fun x => x.getLsbD w) h
    simpa only [getLsbD_ring, if_true] using hbit

theorem iterate_rcl (d : BitVec w) (cf : Bool) (n : Nat) :
    let p := (Rotate.step .rcl)^[n] (d, cf)
    ring p.2 p.1 = (ring cf d).rotateLeft n := by
  induction n with
  | zero => exact (rotateLeft_zero _).symm
  | succ n ih =>
    dsimp only at ih ⊢
    rw [Function.iterate_succ_apply', ← rotateLeft_rotateLeft, ← ih]
    exact unring _

theorem iterate_rcr (d : BitVec w) (cf : Bool) (n : Nat) :
    let p := (Rotate.step .rcr)^[n] (d, cf)
    ring p.2 p.1 = (ring cf d).rotateRight n := by
  induction n with
  | zero => exact (rotateRight_zero _).symm
  | succ n ih =>
    dsimp only at ih ⊢
    rw [Function.iterate_succ_apply', ← rotateRight_succ, ← ih]
    exact unring _

/-- The last bit that goes round is the lowest one then. -/
theorem iterate_rol (hw : 2 ≤ w) (d : BitVec w) (cf : Bool) (n : Nat) :
    (Rotate.step .rol)^[n] (d, cf) =
      (d.rotateLeft n, if n = 0 then cf else (d.rotateLeft n).getLsbD 0) := by
  induction n with
  | zero => rw [rotateLeft_zero]; rfl
  | succ n ih =>
    have hbit : (d.rotateLeft (n + 1)).getLsbD 0 = (d.rotateLeft n).getLsbD (w - 1) := by
      rw [← rotateLeft_rotateLeft, getLsbD_rotateLeft_mod _ _ (by omega),
        Nat.mod_eq_of_lt (by omega : 1 < w), if_pos (by omega)]
      rfl
    rw [Function.iterate_succ_apply', ih, if_neg (Nat.succ_ne_zero n), hbit,
      ← rotateLeft_rotateLeft]
    rfl

theorem iterate_ror (hw : 2 ≤ w) (d : BitVec w) (cf : Bool) (n : Nat) :
    (Rotate.step .ror)^[n] (d, cf) =
      (d.rotateRight n, if n = 0 then cf else (d.rotateRight n).getLsbD (w - 1)) := by
  induction n with
  | zero => rw [rotateRight_zero]; rfl
  | succ n ih =>
    have hbit : (d.rotateRight (n + 1)).getLsbD (w - 1) = (d.rotateRight n).getLsbD 0 := by
      rw [← rotateRight_succ, BitVec.getLsbD_rotateRight, Nat.mod_eq_of_lt (by omega : 1 < w),
        decide_eq_false (by omega), cond_false, decide_eq_true (by omega), Bool.true_and,
        Nat.sub_self]
    rw [Function.iterate_succ_apply', ih, if_neg (Nat.succ_ne_zero n), hbit, ← rotateRight_succ]
    rfl

/-- `OF` after a rotate by one bit, from the result and the carry. -/
def Rotate.overflow : Rotate → BitVec w → Bool → Bool
  | .rol, r, cf | .rcl, r, cf => r.getLsbD (w - 1) ^^ cf
  | .ror, r, _ | .rcr, r, _ => r.getLsbD (w - 1) ^^ r.getLsbD (w - 2)

/-- `out` is `d` rotated `n` times by one bit. -/
structure Rotate.Iterated (r : Rotate) (d : BitVec w) (n : Nat) (fl : U32) (out : BitVec w × U32) :
    Prop where
  value : (out.1, carryOf out.2) = r.step^[n] (d, carryOf fl)
  rest : SameRest fl out.2
  none : n = 0 → out.2 = fl
  one : n = 1 → overflowOf out.2 = r.overflow out.1 (carryOf out.2)

section

variable (hw : w ≤ 32) (h2 : 2 ≤ w) (d : BitVec w) (s : U8) (fl : U32)

include hw h2

theorem rolVal_iterated : Rotate.rol.Iterated d s.toNat fl ((rolVal d s).run () fl) := by
  have hspec := rolVal_spec hw (by omega) d s fl
  have hiter := iterate_rol h2 d (carryOf fl) s.toNat
  dsimp only at hspec
  split at hspec
  case isTrue h =>
    rw [hspec, h]
    refine ⟨rfl, fun i _ _ => rfl, fun _ => rfl, ?_⟩
    intro hone
    cases hone
  case isFalse h =>
    have hpos : s.toNat ≠ 0 := fun hzero => h (BitVec.eq_of_toNat_eq hzero)
    obtain ⟨hval, hflags⟩ := hspec
    refine ⟨?_, hflags.rest, fun hzero => absurd hzero hpos, ?_⟩
    · rw [hiter, if_neg hpos, hflags.carry, hval]
    · intro hone
      have hs : s = 1 := BitVec.eq_of_toNat_eq hone
      rw [hflags.overflow, hflags.carry, if_pos hs, Bool.xor_comm]
      rfl

theorem rorVal_iterated : Rotate.ror.Iterated d s.toNat fl ((rorVal d s).run () fl) := by
  have hspec := rorVal_spec hw h2 d s fl
  have hiter := iterate_ror h2 d (carryOf fl) s.toNat
  dsimp only at hspec
  split at hspec
  case isTrue h =>
    rw [hspec, h]
    refine ⟨rfl, fun i _ _ => rfl, fun _ => rfl, ?_⟩
    intro hone
    cases hone
  case isFalse h =>
    have hpos : s.toNat ≠ 0 := fun hzero => h (BitVec.eq_of_toNat_eq hzero)
    obtain ⟨hval, hflags⟩ := hspec
    refine ⟨?_, hflags.rest, fun hzero => absurd hzero hpos, ?_⟩
    · rw [hiter, if_neg hpos, hflags.carry, hval]
    · intro hone
      have hs : s = 1 := BitVec.eq_of_toNat_eq hone
      rw [hflags.overflow, if_pos hs]
      rfl

theorem rclVal_iterated (hs : s.toNat < 32) :
    Rotate.rcl.Iterated d s.toNat fl ((rclVal d s).run () fl) := by
  have hspec := rclVal_spec d s fl
  have hiter := iterate_rcl d (carryOf fl) s.toNat
  have hmod := Nat.mod_lt s.toNat (by omega : 0 < w + 1)
  have hle := Nat.mod_le s.toNat (w + 1)
  dsimp only at hspec hiter
  rw [← BitVec.rotateLeft_mod_eq_rotateLeft] at hiter
  split at hspec
  case isTrue h =>
    rw [hspec]
    refine ⟨?_, fun i _ _ => rfl, fun _ => rfl, ?_⟩
    · rw [h, rotateLeft_zero] at hiter
      obtain ⟨hd, hcf⟩ := ring_inj hiter
      exact Prod.ext hd.symm hcf.symm
    · intro hone
      rw [hone, Nat.mod_eq_of_lt (by omega)] at h
      cases h
  case isFalse h =>
    obtain ⟨hval, hflags⟩ := hspec
    refine ⟨?_, hflags.rest, ?_, ?_⟩
    · rw [rcl_ring hw _ _ (by omega) (by omega) (by omega), ← hval, ← hflags.carry] at hiter
      obtain ⟨hd, hcf⟩ := ring_inj hiter
      exact Prod.ext hd.symm hcf.symm
    · intro hzero
      rw [hzero] at h
      exact absurd (Nat.zero_mod _) h
    · intro hone
      have hcnt : s.toNat % (w + 1) = 1 := by rw [hone, Nat.mod_eq_of_lt (by omega)]
      rw [hflags.overflow, hflags.carry, hval]
      unfold rclOverflow Rotate.overflow
      dsimp only
      rw [decide_eq_true hcnt, Bool.true_and, Bool.xor_comm, BitVec.getLsbD_setWidth,
        decide_eq_true (by omega), Bool.true_and]

theorem rcrVal_iterated {high : U32 → Nat → U32} (hhigh : HighBits w high) :
    Rotate.rcr.Iterated d s.toNat fl ((rcrVal high d s).run () fl) := by
  have hspec := rcrVal_spec hw high d s fl
  have hiter := iterate_rcr d (carryOf fl) s.toNat
  have hmod := Nat.mod_lt s.toNat (by omega : 0 < w + 1)
  dsimp only at hspec hiter
  rw [← BitVec.rotateRight_mod_eq_rotateRight] at hiter
  split at hspec
  case isTrue h =>
    rw [hspec]
    refine ⟨?_, fun i _ _ => rfl, fun _ => rfl, ?_⟩
    · rw [h, rotateRight_zero] at hiter
      obtain ⟨hd, hcf⟩ := ring_inj hiter
      exact Prod.ext hd.symm hcf.symm
    · intro hone
      rw [hone, Nat.mod_eq_of_lt (by omega)] at h
      cases h
  case isFalse h =>
    obtain ⟨hval, hflags⟩ := hspec
    refine ⟨?_, hflags.rest, ?_, ?_⟩
    · rw [rcr_ring hw hhigh _ _ (by omega) (by omega), ← hval, ← hflags.carry] at hiter
      obtain ⟨hd, hcf⟩ := ring_inj hiter
      exact Prod.ext hd.symm hcf.symm
    · intro hzero
      rw [hzero] at h
      exact absurd (Nat.zero_mod _) h
    · intro hone
      have hcnt : s.toNat % (w + 1) = 1 := by rw [hone, Nat.mod_eq_of_lt (by omega)]
      rw [hflags.overflow, hval, hcnt, if_pos rfl]
      unfold Rotate.overflow
      dsimp only
      rw [BitVec.getLsbD_setWidth, BitVec.getLsbD_setWidth,
        getLsbD_rcrRes hw hhigh _ _ (by omega) (by omega) (by omega),
        getLsbD_rcrRes hw hhigh _ _ (by omega) (by omega) (by omega), if_pos (by omega),
        if_pos rfl, if_pos (by omega), if_neg (by omega), decide_eq_true (by omega),
        decide_eq_true (by omega), Bool.true_and, Bool.true_and,
        show 1 + (w - 2) = w - 1 by omega]

end

/-- A rotate back gives the word, and through the carry also the carry. -/
theorem inverse_iterate (r : Rotate) (h2 : 2 ≤ w) (d : BitVec w) (cf : Bool) (n : Nat) :
    let p := r.inverse.step^[n] (r.step^[n] (d, cf))
    p.1 = d ∧ (r = .rcl ∨ r = .rcr → p.2 = cf) := by
  cases r with
  | rol =>
    refine ⟨?_, by rintro (h | h) <;> cases h⟩
    show ((Rotate.step .ror)^[n] _).1 = d
    rw [iterate_rol h2, iterate_ror h2, rotateRight_rotateLeft]
  | ror =>
    refine ⟨?_, by rintro (h | h) <;> cases h⟩
    show ((Rotate.step .rol)^[n] _).1 = d
    rw [iterate_ror h2, iterate_rol h2, rotateLeft_rotateRight]
  | rcl =>
    have hthere := iterate_rcl d cf n
    obtain ⟨p, hp⟩ : ∃ p, p = (Rotate.step .rcl)^[n] (d, cf) := ⟨_, rfl⟩
    rw [← hp] at hthere ⊢
    have hback := iterate_rcr p.1 p.2 n
    dsimp only at hthere hback
    rw [hthere, rotateRight_rotateLeft] at hback
    obtain ⟨hd, hcf⟩ := ring_inj hback
    exact ⟨hd, fun _ => hcf⟩
  | rcr =>
    have hthere := iterate_rcr d cf n
    obtain ⟨p, hp⟩ : ∃ p, p = (Rotate.step .rcr)^[n] (d, cf) := ⟨_, rfl⟩
    rw [← hp] at hthere ⊢
    have hback := iterate_rcl p.1 p.2 n
    dsimp only at hthere hback
    rw [hthere, rotateLeft_rotateRight] at hback
    obtain ⟨hd, hcf⟩ := ring_inj hback
    exact ⟨hd, fun _ => hcf⟩

end Widths

theorem highBits_narrow {w : Nat} (hw : w < 32) :
    HighBits w fun d cnt => cShl d (w + 1 - cnt) := by
  intro d cnt i h0 hcnt hi
  rw [getLsbD_cShl _ (by omega) (by omega), getLsbD_widen (by omega)]

theorem highBits_long : HighBits 32 fun d cnt => if cnt ≠ 1 then cShl d (33 - cnt) else 0 := by
  intro d cnt i h0 hcnt hi
  by_cases hone : cnt = 1
  · subst hone
    simp [hi]
  · simp only [hone, ne_eq, not_false_eq_true, if_true]
    rw [getLsbD_cShl _ (by omega) (by omega), getLsbD_widen (by decide)]

theorem rcrByte_iterated (d s : U8) (fl : U32) :
    Rotate.rcr.Iterated d s.toNat fl ((rcrByte d s).run () fl) :=
  rcrVal_iterated (by decide) (by decide) d s fl (highBits_narrow (w := 8) (by decide))

theorem rcrWord_iterated (d : U16) (s : U8) (fl : U32) :
    Rotate.rcr.Iterated d s.toNat fl ((rcrWord d s).run () fl) :=
  rcrVal_iterated (by decide) (by decide) d s fl (highBits_narrow (w := 16) (by decide))

theorem rcrLong_iterated (d : U32) (s : U8) (fl : U32) :
    Rotate.rcr.Iterated d s.toNat fl ((rcrLong d s).run () fl) :=
  rcrVal_iterated (by decide) (by decide) d s fl highBits_long

theorem Rotate.run_iterated (r : Rotate) (z : OpSize) (d : BitVec z.bits) {s : U8}
    (hs : s.toNat < 32) (fl : U32) : r.Iterated d s.toNat fl ((r.run z d s).run () fl) := by
  have hw : z.bits ≤ 32 := by cases z <;> decide
  have h2 : 2 ≤ z.bits := by cases z <;> decide
  cases r with
  | rol => cases z <;> exact rolVal_iterated hw h2 d s fl
  | ror => cases z <;> exact rorVal_iterated hw h2 d s fl
  | rcl => cases z <;> exact rclVal_iterated hw h2 d s fl hs
  | rcr =>
    cases z with
    | byte => exact rcrByte_iterated d s fl
    | word => exact rcrWord_iterated d s fl
    | long => exact rcrLong_iterated d s fl

/-- Every rotate by `s` is `s` rotates by one bit, and the opposite rotate takes it back. -/
theorem rotate_iterates (r : Rotate) (z : OpSize) (d : BitVec z.bits) {s : U8}
    (hs : s.toNat < 32) (fl : U32) :
    let out := (r.run z d s).run () fl
    let back := (r.inverse.run z out.1 s).run () out.2
    r.Iterated d s.toNat fl out ∧ back.1 = d ∧
      (r = .rcl ∨ r = .rcr → carryOf back.2 = carryOf fl) := by
  have h2 : 2 ≤ z.bits := by cases z <;> decide
  have hthere := r.run_iterated z d hs fl
  have hback := r.inverse.run_iterated z ((r.run z d s).run () fl).1 hs
    ((r.run z d s).run () fl).2
  obtain ⟨hd, hcf⟩ := inverse_iterate r h2 d (carryOf fl) s.toNat
  rw [← hthere.value, ← hback.value] at hd hcf
  exact ⟨hthere, hd, hcf⟩

theorem rotate_iterates_rcl :
    let out := (Rotate.rcl.run .byte 0x81 9).run () 0
    let back := (Rotate.rcr.run .byte out.1 9).run () out.2
    Rotate.rcl.Iterated (0x81 : U8) (9 : U8).toNat 0 out ∧ back.1 = (0x81 : U8) ∧
      (Rotate.rcl = .rcl ∨ Rotate.rcl = .rcr → carryOf back.2 = carryOf 0) :=
  rotate_iterates .rcl .byte 0x81 (s := 9) (by decide) 0

end X86Emu
