import X86Emu.Decode.Seen

/-!
# Segment limits

`check_data_access` compares `ofs + size - 1`, a number of 32 bits, with the limit. That is the
offset of the last byte, unless the sum wraps around: then the access goes through when the wrapped
end is within the limit, although its last bytes are behind all offsets.
-/

namespace X86Emu

open Lib

/-- The accessors `fetch_data_*_abs` and `store_data_*_abs`. -/
inductive DataAccessor
  | fetchByte
  | fetchWord
  | fetchLong
  | storeByte (val : U8)
  | storeWord (val : U16)
  | storeLong (val : U32)
  deriving DecidableEq, Repr

def DataAccessor.width : DataAccessor → MemioWidth
  | .fetchByte | .storeByte _ => .b8
  | .fetchWord | .storeWord _ => .b16
  | .fetchLong | .storeLong _ => .b32

/-- How many bytes are accessed. -/
def DataAccessor.size (acc : DataAccessor) : Nat := acc.width.size.toNat

def DataAccessor.call : DataAccessor → SegReg → U32 → Emu Unit
  | .fetchByte, seg, ofs => do let _ ← fetchDataByteAbs seg ofs
  | .fetchWord, seg, ofs => do let _ ← fetchDataWordAbs seg ofs
  | .fetchLong, seg, ofs => do let _ ← fetchDataLongAbs seg ofs
  | .storeByte val, seg, ofs => storeDataByteAbs seg ofs val
  | .storeWord val, seg, ofs => storeDataWordAbs seg ofs val
  | .storeLong val, seg, ofs => storeDataLongAbs seg ofs val

/-- Some of `n` bytes from `ofs` on is behind the limit. -/
def Sel.Exceeded (sel : Sel) (ofs : U32) (n : Nat) : Prop :=
  ∃ i < n, sel.limit.toNat < ofs.toNat + i

/-- The interrupt slot after a raised `#GP`. -/
def Sel.gp (sel : Sel) : Intr :=
  ⟨0x0d, intrTypeFault ||| intrModeRestart ||| intrModeErrcode, sel.sel.setWidth 32⟩

/-- The program raises `#GP` for the segment. -/
def RaisesGp {α : Type} (h : Host) (x : Emu α) (seg : SegReg) (s : St) : Prop :=
  (x.run h s).2.intr = (s.cpu.seg seg).gp

theorem exceeded_iff (sel : Sel) (ofs : U32) {n : Nat} (hn : 0 < n) :
    sel.Exceeded ofs n ↔ sel.limit.toNat + 1 < ofs.toNat + n := by
  constructor
  · rintro ⟨i, hi, hlim⟩
    omega
  · intro hlim
    exact ⟨n - 1, by omega, by omega⟩

/-- What each accessor leaves in the interrupt slot. -/
theorem call_intr {inp : PortInput} {h : Host} (hh : h.Blind inp) (acc : DataAccessor)
    (seg : SegReg) (ofs : U32) (s : St) :
    ((acc.call seg ofs).run h s).2.intr = (s.checked seg ofs acc.width.size).intr := by
  have hfetch : ∀ z, seen h (fetchDataSizeAbs z seg ofs >>= fun _ => pure ()) s =
      ((), (s.loaded z.width seg ofs).view) := by
    intro z
    rw [seen_step hh (seen_fetchDataSizeAbs hh z seg ofs s), seen_pure]
  have hstore : ∀ z v, seen h (storeDataSizeAbs z seg ofs v) s =
      ((), (s.stored z.width seg ofs (v.setWidth 32)).view) :=
    fun z v => seen_storeDataSizeAbs hh z seg ofs v s
  have hcall : ∃ t : St, seen h (acc.call seg ofs) s = ((), t.view) ∧
      t.intr = (s.checked seg ofs acc.width.size).intr := by
    cases acc with
    | fetchByte => exact ⟨_, hfetch .byte, accessed_intr _ _ _ _ _⟩
    | fetchWord => exact ⟨_, hfetch .word, accessed_intr _ _ _ _ _⟩
    | fetchLong => exact ⟨_, hfetch .long, accessed_intr _ _ _ _ _⟩
    | storeByte val => exact ⟨_, hstore .byte val, accessed_intr _ _ _ _ _⟩
    | storeWord val => exact ⟨_, hstore .word val, accessed_intr _ _ _ _ _⟩
    | storeLong val => exact ⟨_, seen_storeDataAbs hh .b32 seg ofs val s, accessed_intr _ _ _ _ _⟩
  obtain ⟨t, hseen, hintr⟩ := hcall
  rw [← hintr]
  exact congrArg (fun r => St.intr (Prod.snd r)) hseen

/-- The interrupt slot tells what the check decides. -/
theorem checked_intr {s : St} (hidle : s.intr.type = 0) (seg : SegReg) (ofs size : U32) :
    (s.checked seg ofs size).intr = (s.cpu.seg seg).gp ↔
      (s.cpu.seg seg).limit < ofs + size - 1 := by
  unfold St.checked
  split
  · next hlim =>
    refine iff_of_true ?_ hlim
    unfold St.raisedGp St.raised
    dsimp only
    rw [if_pos hidle]
    rfl
  · next hlim =>
    refine iff_of_false ?_ hlim
    intro hgp
    rw [hgp] at hidle
    exact absurd hidle (by decide : intrTypeFault ||| intrModeRestart ||| intrModeErrcode ≠ 0)

/-- The end of the access as the check computes it. -/
theorem toNat_end (ofs : U32) (width : MemioWidth) :
    (ofs + width.size - 1).toNat = (ofs.toNat + width.size.toNat - 1) % 2 ^ 32 := by
  have hlast : ofs + width.size - 1 = ofs + (width.size - 1) := by
    rw [BitVec.sub_eq_add_neg, BitVec.add_assoc, ← BitVec.sub_eq_add_neg]
  have hwidth : (width.size - 1).toNat = width.size.toNat - 1 ∧ 0 < width.size.toNat := by
    cases width <;> decide
  rw [hlast, BitVec.toNat_add, hwidth.1, Nat.add_sub_assoc hwidth.2]

/-- An accessor raises `#GP` for the bytes behind the limit if and only if the last offset is a
number of 32 bits, or the wrapped one is behind the limit too. -/
theorem limit_enforced_iff {inp : PortInput} {h : Host} (hh : h.Blind inp) {s : St}
    (hidle : s.intr.type = 0) (acc : DataAccessor) (seg : SegReg) (ofs : U32) :
    (RaisesGp h (acc.call seg ofs) seg s ↔ (s.cpu.seg seg).Exceeded ofs acc.size) ↔
      ofs.toNat + acc.size ≤ 2 ^ 32 ∨
        (s.cpu.seg seg).limit.toNat < (ofs.toNat + acc.size - 1) % 2 ^ 32 := by
  have hlim := (s.cpu.seg seg).limit.isLt
  have hofs := ofs.isLt
  have hsize : 0 < acc.size ∧ acc.size ≤ 4 := by
    unfold DataAccessor.size
    cases acc.width <;> decide
  rw [RaisesGp, call_intr hh, checked_intr hidle, exceeded_iff _ _ hsize.1, BitVec.lt_def,
    toNat_end]
  unfold DataAccessor.size at *
  omega

/-- A word at the last offset of the data segment after a reset. -/
theorem limit_enforced_iff_word :
    RaisesGp (defaultHost fun _ _ _ => 0) (DataAccessor.fetchWord.call .ds 0xffff) .ds
        { cpu := resetCpu } ↔ (resetCpu.seg .ds).Exceeded 0xffff 2 :=
  (limit_enforced_iff (defaultHost_default _).blind rfl .fetchWord .ds 0xffff).mpr
    (Or.inl (by decide))

/-- A word at offset 0xffffffff of the data segment after a reset, an expand-up segment: no `#GP`,
although both bytes are behind the limit. -/
theorem limit_enforced_fails :
    let s : St := { cpu := resetCpu }
    (s.cpu.seg .ds).acc.getLsbD 2 = false ∧
      ¬(RaisesGp (defaultHost fun _ _ _ => 0) (DataAccessor.fetchWord.call .ds 0xffffffff)
          .ds s ↔
        (s.cpu.seg .ds).Exceeded 0xffffffff 2) := by
  intro s
  refine ⟨by decide, ?_⟩
  intro hiff
  have hgp : RaisesGp (defaultHost fun _ _ _ => 0)
      (DataAccessor.fetchWord.call .ds 0xffffffff) .ds s :=
    hiff.mpr ⟨0, by decide, by decide⟩
  rw [RaisesGp, call_intr (defaultHost_default fun _ _ _ => 0).blind, checked_intr rfl] at hgp
  exact absurd hgp (by decide)

end X86Emu
