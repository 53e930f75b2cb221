import Mathlib.Algebra.Group.Int.Defs
import Mathlib.Algebra.Group.Nat.Defs
import Mathlib.Logic.Function.Iterate
import Mathlib.Tactic.SplitIfs

/-!
# Shifts and rotations one bit at a time

A shift or a rotation of a word by `n` bits is `n` shifts or rotations by one bit. Rotations to
the left compose by adding their counts, and those to the right are rotations to the left by the
rest of the width.
-/

namespace X86Emu.Lib

variable {w : Nat}

/-! ## Shifts -/

theorem iterate_shiftLeft (x : BitVec w) (n : Nat) :
    (fun y : BitVec w => y <<< 1)^[n] x = x <<< n := by
  induction n with
  | zero => exact (BitVec.shiftLeft_zero x).symm
  | succ n ih => rw [Function.iterate_succ_apply', ih, BitVec.shiftLeft_add]

theorem iterate_shiftRight (x : BitVec w) (n : Nat) :
    (fun y : BitVec w => y >>> 1)^[n] x = x >>> n := by
  induction n with
  | zero => exact (BitVec.ushiftRight_zero x).symm
  | succ n ih => rw [Function.iterate_succ_apply', ih, BitVec.shiftRight_add]

theorem iterate_sshiftRight (x : BitVec w) (n : Nat) :
    (BitVec.sshiftRight · 1)^[n] x = x.sshiftRight n := by
  induction n with
  | zero => exact (BitVec.sshiftRight_zero).symm
  | succ n ih => rw [Function.iterate_succ_apply', ih, BitVec.sshiftRight_add]

/-- The quotient by a positive number is 0 or -1 in one period each. -/
theorem ediv_eq_zero_or (x : Int) {p : Int} (hp : 0 < p) :
    (x / p = 0 ↔ 0 ≤ x ∧ x < p) ∧ (x / p = -1 ↔ -p ≤ x ∧ x < 0) := by
  have hsplit := Int.mul_ediv_add_emod x p
  have hlow := Int.emod_nonneg x (Int.ne_of_gt hp)
  have hhigh := Int.emod_lt_of_pos x hp
  refine ⟨⟨?_, ?_⟩, ⟨?_, ?_⟩⟩
  · intro h
    rw [h, Int.mul_zero] at hsplit
    omega
  · rintro ⟨h0, h1⟩
    exact Int.ediv_eq_zero_of_lt h0 h1
  · intro h
    rw [h] at hsplit
    omega
  · rintro ⟨h0, h1⟩
    have hup : (x + 1 * p) / p = 0 := Int.ediv_eq_zero_of_lt (by omega) (by omega)
    rw [Int.add_mul_ediv_right _ _ (Int.ne_of_gt hp)] at hup
    omega

/-- A shift by fewer bits than the width shifts out all but the sign exactly when the number is
one of that many bits. -/
theorem sshiftRight_eq_iff (x : BitVec w) {c n : Nat} (hn : w ≤ n) :
    x.sshiftRight c = x.sshiftRight n ↔ -2 ^ c ≤ x.toInt ∧ x.toInt < 2 ^ c := by
  have hc : (0 : Int) < 2 ^ c := Int.pow_pos (by decide)
  have hbound : (2 : Int) ^ (w - 1) ≤ 2 ^ n := by
    have hle : 2 ^ (w - 1) ≤ 2 ^ n := Nat.pow_le_pow_right (by decide) (by omega)
    exact_mod_cast hle
  have hlow := BitVec.le_toInt x
  have hhigh := BitVec.toInt_lt (x := x)
  obtain ⟨hzero, hneg⟩ := ediv_eq_zero_or x.toInt hc
  obtain ⟨hzero', hneg'⟩ := ediv_eq_zero_or x.toInt (by omega : (0 : Int) < 2 ^ n)
  rw [← BitVec.toInt_inj, BitVec.toInt_sshiftRight, BitVec.toInt_sshiftRight,
    Int.shiftRight_eq_div_pow, Int.shiftRight_eq_div_pow]
  push_cast
  rcases Int.lt_or_le x.toInt 0 with h | h
  · rw [hneg'.mpr ⟨by omega, h⟩, hneg]
    omega
  · rw [hzero'.mpr ⟨h, by omega⟩, hzero]
    omega

/-! ## Rotations -/

/-- The bits of a rotation, counted round the word. -/
theorem getLsbD_rotateLeft_mod (x : BitVec w) (r : Nat) {i : Nat} (hi : i < w) :
    (x.rotateLeft r).getLsbD i = x.getLsbD (if i < r % w then w - r % w + i else i - r % w) := by
  rw [BitVec.getLsbD_rotateLeft]
  by_cases h : i < r % w
  · rw [decide_eq_true h, cond_true, if_pos h]
  · rw [decide_eq_false h, cond_false, if_neg h, decide_eq_true hi, Bool.true_and]

theorem mod_add_mod (a b : Nat) (hw : 0 < w) :
    (a + b) % w = if a % w + b % w < w then a % w + b % w else a % w + b % w - w := by
  have ha := Nat.mod_lt a hw
  have hb := Nat.mod_lt b hw
  rw [Nat.add_mod]
  split
  case isTrue h => exact Nat.mod_eq_of_lt h
  case isFalse h =>
    rw [Nat.mod_eq_sub_mod (by omega)]
    exact Nat.mod_eq_of_lt (by omega)

theorem rotateLeft_rotateLeft (x : BitVec w) (a b : Nat) :
    (x.rotateLeft a).rotateLeft b = x.rotateLeft (a + b) := by
  apply BitVec.eq_of_getLsbD_eq
  intro i hi
  have hw : 0 < w := by omega
  have ha := Nat.mod_lt a hw
  have hb := Nat.mod_lt b hw
  rw [getLsbD_rotateLeft_mod _ _ hi, getLsbD_rotateLeft_mod _ _ hi, mod_add_mod a b hw,
    getLsbD_rotateLeft_mod _ _ (by split <;> omega)]
  congr 1
  split_ifs <;> omega

theorem rotateLeft_zero (x : BitVec w) : x.rotateLeft 0 = x := by
  apply BitVec.eq_of_getLsbD_eq
  intro i hi
  rw [getLsbD_rotateLeft_mod _ _ hi]
  simp

/-- A rotation to the right as one to the left. -/
theorem rotateRight_eq (x : BitVec w) (r : Nat) : x.rotateRight r = x.rotateLeft (w - r % w) := by
  apply BitVec.eq_of_getLsbD_eq
  intro i hi
  have hw : 0 < w := by omega
  have hr := Nat.mod_lt r hw
  rw [getLsbD_rotateLeft_mod _ _ hi, BitVec.getLsbD_rotateRight]
  by_cases hzero : r % w = 0
  · simp [hzero, hi]
  · rw [Nat.mod_eq_of_lt (by omega : w - r % w < w)]
    by_cases h : i < w - r % w
    · rw [decide_eq_true h, cond_true, if_pos h]
      congr 1
      omega
    · rw [decide_eq_false h, cond_false, if_neg h, decide_eq_true hi, Bool.true_and]

/-- Whole turns change nothing. -/
theorem rotateLeft_of_dvd (x : BitVec w) {r : Nat} (h : w ∣ r) : x.rotateLeft r = x := by
  rw [← BitVec.rotateLeft_mod_eq_rotateLeft, Nat.mod_eq_zero_of_dvd h, rotateLeft_zero]

theorem rotateRight_rotateLeft (x : BitVec w) (r : Nat) :
    (x.rotateLeft r).rotateRight r = x := by
  rw [rotateRight_eq, rotateLeft_rotateLeft]
  rcases Nat.eq_zero_or_pos w with rfl | hw
  · exact Subsingleton.elim _ _
  · apply rotateLeft_of_dvd
    have hr := Nat.mod_lt r hw
    have hdiv := Nat.div_add_mod r w
    refine ⟨r / w + 1, ?_⟩
    rw [Nat.mul_add, Nat.mul_one]
    omega

theorem rotateLeft_rotateRight (x : BitVec w) (r : Nat) :
    (x.rotateRight r).rotateLeft r = x := by
  rw [rotateRight_eq, rotateLeft_rotateLeft, Nat.add_comm, ← rotateLeft_rotateLeft,
    ← rotateRight_eq, rotateRight_rotateLeft]

theorem rotateRight_succ (x : BitVec w) (n : Nat) :
    (x.rotateRight n).rotateRight 1 = x.rotateRight (n + 1) := by
  calc (x.rotateRight n).rotateRight 1
      = (((x.rotateRight (n + 1)).rotateLeft (n + 1)).rotateRight n).rotateRight 1 := by
        rw [rotateLeft_rotateRight]
    _ = x.rotateRight (n + 1) := by
        rw [Nat.add_comm n 1, ← rotateLeft_rotateLeft, rotateRight_rotateLeft,
          rotateRight_rotateLeft]

theorem rotateRight_zero (x : BitVec w) : x.rotateRight 0 = x := by
  rw [rotateRight_eq, Nat.zero_mod, Nat.sub_zero, rotateLeft_of_dvd x (Nat.dvd_refl w)]

end X86Emu.Lib
