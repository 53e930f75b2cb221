import X86Emu.Memory.Refinement

/-!
# Access marks

An access that does not write leaves the data, the permissions and the `VALID` bits, and what it
returns only depends on these. So the values in memory may be read off the state before a
sequence of such accesses.
-/

namespace X86Emu

open Lib

/-- The permissions and the `VALID` bit of an attribute. -/
def permAll : U8 := permRwx ||| permValid

/-- Only the access bits of the cell are changed. -/
structure Cell.Marked (c c' : Cell) : Prop where
  perm : c'.attr &&& permAll = c.attr &&& permAll
  data : c'.data = c.data

namespace Cell.Marked

theorem refl (c : Cell) : c.Marked c := ⟨rfl, rfl⟩

theorem trans {c₁ c₂ c₃ : Cell} (h₁ : c₁.Marked c₂) (h₂ : c₂.Marked c₃) : c₁.Marked c₃ :=
  ⟨h₂.perm.trans h₁.perm, h₂.data.trans h₁.data⟩

theorem mark (c : Cell) {m : U8} (hm : m &&& permAll = 0#8) :
    c.Marked { c with attr := c.attr ||| m } := by
  refine ⟨?_, rfl⟩
  show (c.attr ||| m) &&& permAll = _
  rw [BitVec.and_or_distrib_right, hm, BitVec.or_zero]

/-- The permissions and the `VALID` bit are part of the bits that stay. -/
theorem has_eq {c c' : Cell} (h : c.Marked c') {m : U8} (hm : m &&& permAll = m) :
    c'.attr.has m = c.attr.has m := by
  have hpart : ∀ a : U8, a &&& m = (a &&& permAll) &&& m := by
    intro a
    rw [BitVec.and_assoc, BitVec.and_comm permAll m, hm]
  unfold U8.has
  rw [hpart, h.perm, ← hpart]

/-- The byte rule of a read only depends on what stays. -/
theorem fetch {c c' : Cell} (h : c.Marked c') {perm acc : U8} (hperm : perm &&& permAll = perm)
    (hacc : acc &&& permAll = 0#8) :
    (Cell.fetch perm acc c').1 = (Cell.fetch perm acc c).1 ∧
      c.Marked (Cell.fetch perm acc c).2 := by
  have hbit : permValid &&& permAll = permValid := by decide
  have hvalid : (c'.attr ||| acc).has permValid = (c.attr ||| acc).has permValid := by
    have hmark := (mark c hacc).has_eq hbit
    have hmark' := (mark c' hacc).has_eq hbit
    dsimp only at hmark hmark'
    rw [hmark, hmark', h.has_eq hbit]
  unfold Cell.fetch
  rw [h.has_eq hperm, hvalid, h.data]
  split
  · split
    · exact ⟨rfl, mark c hacc⟩
    · exact ⟨rfl, (mark c hacc).trans (mark { c with attr := c.attr ||| acc } (by decide))⟩
  · exact ⟨rfl, refl c⟩

/-- So does that of a write. -/
theorem write {c c' : Cell} (h : c.Marked c') (v : U8) :
    (Cell.write v c).1 = (Cell.write v c').1 ∧ (Cell.write v c).2.Marked (Cell.write v c').2 := by
  have hattr : ∀ m : U8, (c'.attr ||| m) &&& permAll = (c.attr ||| m) &&& permAll := by
    intro m
    rw [BitVec.and_or_distrib_right, BitVec.and_or_distrib_right, h.perm]
  unfold Cell.write
  rw [h.has_eq (show permW &&& permAll = permW by decide)]
  split
  · exact ⟨rfl, hattr _, rfl⟩
  · exact ⟨rfl, hattr _, h.data⟩

end Cell.Marked

/-- The rule of every access that does not write. -/
theorem rule_marked {kind : MemioKind} (hkind : kind ≠ .w) (bits : MemioBits) (v : U8)
    {c c' : Cell} (h : c.Marked c') :
    (Cell.rule kind bits v c').1 = (Cell.rule kind bits v c).1 ∧
      c.Marked (Cell.rule kind bits v c).2 := by
  cases kind with
  | r =>
    cases bits with
    | b8noperm => exact ⟨by rw [Cell.rule, Cell.readNoperm, Cell.readNoperm, h.data], .refl c⟩
    | _ => exact h.fetch (by decide) (by decide)
  | w => exact absurd rfl hkind
  | x => exact h.fetch (by decide) (by decide)
  | i => exact ⟨rfl, .refl c⟩
  | o => exact ⟨rfl, .refl c⟩

/-! ## The memory -/

/-- Only access bits are changed. -/
structure Mem.Marked (mem mem' : Mem) : Prop where
  hostLoc : mem'.hostLoc = mem.hostLoc
  cells : ∀ a, (mem.flat a).Marked (mem'.flat a)

namespace Mem.Marked

theorem refl (mem : Mem) : mem.Marked mem := ⟨rfl, fun a => .refl (mem.flat a)⟩

theorem trans {mem₁ mem₂ mem₃ : Mem} (h₁ : mem₁.Marked mem₂) (h₂ : mem₂.Marked mem₃) :
    mem₁.Marked mem₃ :=
  ⟨h₂.hostLoc.trans h₁.hostLoc, fun a => (h₁.cells a).trans (h₂.cells a)⟩

theorem sep {mem mem' : Mem} (h : mem.Marked mem') (hsep : mem.Sep) : mem'.Sep :=
  hsep.congr h.hostLoc

/-- The same store to both. -/
theorem store {mem mem' : Mem} (h : mem.Marked mem') (hsep : mem.Sep) {bits : MemioBits}
    (hbits : bits ≠ .b8noperm) (addr val : U32) :
    (mem.access .w bits addr val).2.Marked (mem'.access .w bits addr val).2 := by
  have hop : ∀ v (c c' : Cell), c.Marked c' →
      (Cell.rule .w bits v c).1 = (Cell.rule .w bits v c').1 ∧
        (Cell.rule .w bits v c).2.Marked (Cell.rule .w bits v c').2 := by
    intro v c c' hc
    rw [rule_write hbits v]
    exact hc.write v
  refine ⟨?_, fun a => ?_⟩
  · rw [(access_attr mem' .w bits addr val).1, (access_attr mem .w bits addr val).1]
    exact h.hostLoc
  · rw [(access_refines (Or.inl hsep) bits addr val).2,
      (access_refines (Or.inl (h.sep hsep)) bits addr val).2]
    exact (onCells_related (g := id) hop (accessBytes .w bits addr val) h.cells).2 a

variable {kind : MemioKind} (hkind : kind ≠ .w) (bits : MemioBits) (addr val : U32)

include hkind

theorem access (mem : Mem) : mem.Marked (mem.access kind bits addr val).2 := by
  refine ⟨(access_attr mem kind bits addr val).1, fun a => ?_⟩
  rw [(access_refines (Or.inr hkind) bits addr val).2]
  exact onCells_keeps Cell.Marked.refl Cell.Marked.trans
    (fun v c => (rule_marked hkind bits v (.refl c)).2) _ mem.flat a

/-- The value and the error of an access only depend on what stays. -/
theorem access_result {mem mem' : Mem} (h : mem.Marked mem') :
    (mem'.access kind bits addr val).1 = (mem.access kind bits addr val).1 := by
  have hop : ∀ v (c c' : Cell), c'.Marked c →
      (Cell.rule kind bits v c).1 = (Cell.rule kind bits v c').1 ∧
        (Cell.rule kind bits v c').2.Marked (Cell.rule kind bits v c).2 := by
    intro v c c' hc
    obtain ⟨hres, hstay'⟩ := rule_marked hkind bits v hc
    have hstay := (rule_marked hkind bits v (.refl c)).2
    refine ⟨hres, ?_⟩
    exact ⟨(hstay.perm.trans hc.perm).trans hstay'.perm.symm,
      (hstay.data.trans hc.data).trans hstay'.data.symm⟩
  have hres := (onCells_related (E := fun c c' : Cell => c'.Marked c) (g := id) hop
    (accessBytes kind bits addr val) h.cells).1
  rw [List.map_id, List.map_id] at hres
  rw [(access_refines (Or.inr hkind) bits addr val).1,
    (access_refines (Or.inr hkind) bits addr val).1]
  unfold Flat.access
  dsimp only
  rw [hres]

end Mem.Marked

end X86Emu
