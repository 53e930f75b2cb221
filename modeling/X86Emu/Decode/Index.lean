import X86Emu.Decode.Effective

/-!
# Index registers

The registers that the source names twice, such as `R_SI` and `R_ESI`, in the 16 bit width or in the
32 bit width. In the narrow width the upper half stays, and a sum is one modulo `2^16`.
-/

namespace X86Emu

open Lib

/-! ## Sums in one width -/

/-- The value of a register after `d` is added to it, to all of it or to its low half. -/
def idxAdd (wide : Bool) (d v : U32) : U32 :=
  if wide then v + d else setLo16 v (v.setWidth 16 + d.setWidth 16)

theorem idxAdd_zero (k : Bool) (v : U32) : idxAdd k 0 v = v := by
  unfold idxAdd
  split
  · exact BitVec.add_zero v
  · rw [show (0 : U32).setWidth 16 = 0 from rfl, show v.setWidth 16 + 0 = v.setWidth 16 from
      BitVec.add_zero _, setLo16_self]

theorem idxAdd_idxAdd (k : Bool) (d e v : U32) :
    idxAdd k e (idxAdd k d v) = idxAdd k (d + e) v := by
  unfold idxAdd
  split
  · exact BitVec.add_assoc v d e
  · rw [setWidth_setLo16, setLo16_setLo16, BitVec.setWidth_add _ _ (by decide), BitVec.add_assoc]

theorem toNat_setLo16 (v : U32) (x : U16) :
    (setLo16 v x).toNat = v.toNat / 0x10000 * 0x10000 + x.toNat := by
  unfold setLo16
  have hhigh : v.toNat / 2 ^ 16 < 2 ^ 16 := Nat.div_lt_of_lt_mul v.isLt
  rw [BitVec.toNat_append, BitVec.extractLsb'_toNat, Nat.shiftRight_eq_div_pow,
    Nat.mod_eq_of_lt hhigh, ← Nat.shiftLeft_add_eq_or_of_lt x.isLt]
  exact congrArg (· + x.toNat) (Nat.shiftLeft_eq _ 16)

theorem idxAdd_low (k : Bool) (d v : U32) :
    (idxAdd k d v).setWidth 16 = v.setWidth 16 + d.setWidth 16 := by
  unfold idxAdd
  split
  · exact BitVec.setWidth_add v d (by decide)
  · exact setWidth_setLo16 v _

theorem idxAdd_high (d v : U32) :
    (idxAdd false d v).extractLsb' 16 16 = v.extractLsb' 16 16 :=
  BitVec.extractLsb'_append_eq_left

theorem idxAdd_inj {k : Bool} {d v w : U32} : idxAdd k d v = idxAdd k d w ↔ v = w := by
  constructor
  · intro heq
    have hback : ∀ u, idxAdd k (-d) (idxAdd k d u) = u := by
      intro u
      rw [idxAdd_idxAdd, BitVec.add_right_neg]
      exact idxAdd_zero k u
    rw [← hback v, heq, hback]
  · exact fun heq => heq ▸ rfl

/-- The two widths differ when the low half overflows. -/
theorem idxAdd_widths (b k : Bool) {n : U32} (hn : n.toNat < 0x10000) (v : U32) :
    idxAdd b n v = idxAdd k n v ↔ b = k ∨ (v.setWidth 16).toNat + n.toNat < 0x10000 := by
  have hcarry : v + n = setLo16 v (v.setWidth 16 + n.setWidth 16) ↔
      (v.setWidth 16).toNat + n.toNat < 0x10000 := by
    rw [BitVec.toNat_eq, toNat_setLo16, BitVec.toNat_add, BitVec.toNat_add, BitVec.toNat_setWidth,
      BitVec.toNat_setWidth]
    have hv := v.isLt
    omega
  unfold idxAdd
  cases b with
  | true =>
    cases k with
    | true => simp
    | false => simpa using hcarry
  | false =>
    cases k with
    | true => simpa [eq_comm] using hcarry
    | false => simp

/-- Moves by two numbers of bytes are the same when the numbers are, in the width of the stack. -/
theorem idxAdd_bytes (k : Bool) (c d x v : U32) :
    idxAdd k (c + x) v = idxAdd k (d + x) v ↔
      if k then c = d else c.setWidth 16 = d.setWidth 16 := by
  have hlow : ∀ e, idxAdd false e v = setLo16 v (v.setWidth 16 + e.setWidth 16) := fun _ => rfl
  cases k with
  | true =>
    show v + (c + x) = v + (d + x) ↔ _
    rw [BitVec.add_right_inj, BitVec.add_left_inj]
    exact Iff.rfl
  | false =>
    show idxAdd false (c + x) v = idxAdd false (d + x) v ↔ c.setWidth 16 = d.setWidth 16
    constructor
    · intro heq
      have h16 := congrArg (BitVec.setWidth 16) heq
      rw [idxAdd_low, idxAdd_low, BitVec.setWidth_add _ _ (by decide),
        BitVec.setWidth_add _ _ (by decide)] at h16
      simpa using h16
    · intro heq
      rw [hlow, hlow, BitVec.setWidth_add _ _ (by decide), heq, BitVec.setWidth_add _ _ (by decide)]

theorem idxAdd_eq_self (k : Bool) (d v : U32) :
    idxAdd k d v = v ↔ if k then d = 0 else d.setWidth 16 = 0 := by
  have hzero : ∀ x : U32, x + 0 = x := BitVec.add_zero
  have hbytes := idxAdd_bytes k d 0 0 v
  rw [hzero, hzero, idxAdd_zero] at hbytes
  exact hbytes

/-- The bytes of `n + 1` steps. -/
theorem ofNat_succ_mul (n : Nat) (d : U32) :
    BitVec.ofNat 32 (n + 1) * d = BitVec.ofNat 32 n * d + d := by
  rw [BitVec.ofNat_add, BitVec.add_mul, BitVec.one_mul]

/-! ## Reading and writing -/

/-- `R_SI` or `R_ESI` -/
def Cpu.idx (c : Cpu) (wide : Bool) (r : Reg) : U32 :=
  if wide then c.gen r else (c.get16 r).setWidth 32

theorem setGen_self (r : Reg) (v : U32) (c : Cpu) : (c.setGen r v).gen r = v := by
  unfold Cpu.setGen
  exact Function.update_self r v c.gen

theorem setGen_ne {r r' : Reg} (hr : r' ≠ r) (v : U32) (c : Cpu) :
    (c.setGen r v).gen r' = c.gen r' := Function.update_of_ne (β := fun _ => U32) hr v c.gen

section

variable {h : Host}

theorem seen_getIdx (wide : Bool) (r : Reg) (s : St) :
    seen h (getIdx wide r) s = (s.cpu.idx wide r, s.view) := by
  cases wide <;> rfl

theorem seen_addIdx (wide : Bool) (r : Reg) (d : U32) (s : St) :
    seen h (addIdx wide r d) s =
      ((), (s.put fun c => c.setGen r (idxAdd wide d (c.gen r))).view) := by
  cases wide with
  | true => rfl
  | false =>
    have hlow : ((s.cpu.get16 r).setWidth 32 + d).setWidth 16 = s.cpu.get16 r + d.setWidth 16 := by
      rw [BitVec.setWidth_add _ _ (by decide), BitVec.setWidth_setWidth_of_le _ (by decide),
        BitVec.setWidth_eq]
    have hput : s.cpu.setGen r
        (setLo16 (s.cpu.gen r) (((s.cpu.get16 r).setWidth 32 + d).setWidth 16))
        = s.cpu.setGen r (idxAdd false d (s.cpu.gen r)) := by
      rw [hlow]
      rfl
    exact congrArg (fun c => ((), St.view { s with cpu := c })) hput

end

/-- A register less its own value in the width is 0 in the width. -/
theorem idxAdd_neg_idx (c : Cpu) (wide : Bool) (r : Reg) :
    idxAdd wide (-BitVec.ofNat 32 (c.idx wide r).toNat) (c.gen r) =
      if wide then 0 else setLo16 (c.gen r) 0 := by
  rw [BitVec.ofNat_toNat, BitVec.setWidth_eq]
  cases wide with
  | true => exact BitVec.add_right_neg (c.gen r)
  | false =>
    have hlow : (c.gen r).setWidth 16 + (-(c.get16 r).setWidth 32).setWidth 16 = (0 : U16) := by
      rw [BitVec.setWidth_neg_of_le (by decide), BitVec.setWidth_setWidth_of_le _ (by decide),
        BitVec.setWidth_eq]
      exact BitVec.add_right_neg (c.get16 r)
    exact congrArg (setLo16 (c.gen r)) hlow

end X86Emu
