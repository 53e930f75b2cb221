import X86Emu.Memory.Marked
import X86Emu.Memory.PortAccess

/-!
# Alike memories and ports

Two memories with the same data, permissions and `VALID` bits at every address, and two port maps
with the same permissions, answer every access alike and stay alike. Access marks, counters and
which pages are allocated make no difference.
-/

namespace X86Emu

open Lib

/-! ## Memory -/

theorem Cell.Marked.symm {c c' : Cell} (h : c.Marked c') : c'.Marked c :=
  ⟨h.perm.symm, h.data.symm⟩

/-- The rule of every access does the same to cells that differ in access bits. -/
theorem Cell.Marked.rule {c c' : Cell} (h : c.Marked c') (kind : MemioKind) (bits : MemioBits)
    (v : U8) :
    (Cell.rule kind bits v c).1 = (Cell.rule kind bits v c').1 ∧
      (Cell.rule kind bits v c).2.Marked (Cell.rule kind bits v c').2 := by
  by_cases hkind : kind = .w
  · subst hkind
    cases bits with
    | b8noperm =>
      have hattr : ∀ m : U8, (c'.attr ||| m) &&& permAll = (c.attr ||| m) &&& permAll := by
        intro m
        rw [BitVec.and_or_distrib_right, BitVec.and_or_distrib_right, h.perm]
      exact ⟨rfl, hattr _, rfl⟩
    | _ => exact h.write v
  · obtain ⟨hres, hstay⟩ := rule_marked hkind bits v h
    have hstay' := (rule_marked hkind bits v (.refl c')).2
    exact ⟨hres.symm, hstay.symm.trans (h.trans hstay')⟩

/-- The pages of both lie apart, and at every address only access bits differ. -/
structure Mem.Alike (mem mem' : Mem) : Prop where
  sep : mem.Sep
  sep' : mem'.Sep
  cells : ∀ a, (mem.flat a).Marked (mem'.flat a)

namespace Mem.Alike

variable {mem mem' : Mem}

theorem refl (hsep : mem.Sep) : mem.Alike mem := ⟨hsep, hsep, fun _ => ⟨rfl, rfl⟩⟩

theorem trans {mem₂ : Mem} (h : mem.Alike mem') (h' : mem'.Alike mem₂) : mem.Alike mem₂ :=
  ⟨h.sep, h'.sep', fun a => (h.cells a).trans (h'.cells a)⟩

theorem symm (h : mem.Alike mem') : mem'.Alike mem := ⟨h.sep', h.sep, fun a => (h.cells a).symm⟩

theorem congr {mem₁ mem₁' : Mem} (h : mem.Alike mem') (hs : mem.SameCells mem₁)
    (hs' : mem'.SameCells mem₁') : mem₁.Alike mem₁' where
  sep := h.sep.congr hs.hostLoc
  sep' := h.sep'.congr hs'.hostLoc
  cells a := by
    rw [hs.flat, hs'.flat]
    exact h.cells a

/-- An access returns the same. -/
theorem access (h : mem.Alike mem') (kind : MemioKind) (bits : MemioBits) (addr val : U32) :
    (mem.access kind bits addr val).1 = (mem'.access kind bits addr val).1 ∧
      (mem.access kind bits addr val).2.Alike (mem'.access kind bits addr val).2 := by
  obtain ⟨hres, hflat⟩ := access_refines (Or.inl h.sep) bits addr val
  obtain ⟨hres', hflat'⟩ := access_refines (Or.inl h.sep') bits addr val
  have hop : ∀ v (c c' : Cell), c.Marked c' →
      (Cell.rule kind bits v c).1 = (Cell.rule kind bits v c').1 ∧
        (Cell.rule kind bits v c).2.Marked (Cell.rule kind bits v c').2 :=
    fun v _ _ hc => hc.rule kind bits v
  obtain ⟨hcell, hcells⟩ := onCells_related (g := id) hop (accessBytes kind bits addr val) h.cells
  rw [List.map_id, List.map_id] at hcell
  refine ⟨?_, ?_, ?_, fun a => ?_⟩
  · rw [hres, hres']
    unfold Flat.access
    dsimp only
    rw [hcell]
  · exact h.sep.congr (access_attr mem kind bits addr val).1
  · exact h.sep'.congr (access_attr mem' kind bits addr val).1
  · rw [hflat, hflat']
    exact hcells a

end Mem.Alike

/-! ## Ports -/

/-- The permissions, the privilege and the accesses made so far are the same. -/
structure Io.Alike (io io' : Io) : Prop where
  perm : ∀ p a, a &&& permRwx = a → (io'.map p).has a = (io.map p).has a
  iopl : io'.ioplOk = io.ioplOk
  needed : io'.ioplNeeded = io.ioplNeeded
  events : io'.events = io.events

namespace Io.Alike

variable {io io' : Io}

theorem refl (io : Io) : io.Alike io := ⟨fun _ _ _ => rfl, rfl, rfl, rfl⟩

theorem symm (h : io.Alike io') : io'.Alike io :=
  ⟨fun p a ha => (h.perm p a ha).symm, h.iopl.symm, h.needed.symm, h.events.symm⟩

theorem trans {io₂ : Io} (h : io.Alike io') (h' : io'.Alike io₂) : io.Alike io₂ where
  perm p a ha := (h'.perm p a ha).trans (h.perm p a ha)
  iopl := h'.iopl.trans h.iopl
  needed := h'.needed.trans h.needed
  events := h'.events.trans h.events

theorem allows (h : io.Alike io') (a : PortAccess) (q : U16) :
    io'.allows a.perm q = io.allows a.perm q := by
  unfold Io.allows
  rw [h.perm q _ (permRwx_perm a), h.iopl]

/-- The same accesses of the host. -/
theorem served (h : io.Alike io') {a : PortAccess} {io₁ io₁' : Io}
    (hs : io.Served io₁ (io.grants a) (io.refusals a))
    (hs' : io'.Served io₁' (io'.grants a) (io'.refusals a)) : io₁.Alike io₁' where
  perm p m hm := by rw [hs.has_eq hm, hs'.has_eq hm, h.perm p m hm]
  iopl := by rw [hs.iopl, hs'.iopl, h.iopl]
  needed := by rw [hs.needed, hs'.needed, h.needed]
  events := by rw [hs.events, hs'.events, h.events, grants_congr (h.allows a)]

end Io.Alike

section Values

variable {s t : St} (h : s.io.Alike t.io) (inp : PortInput) (addr : U32)

include h

theorem vmIByte_alike : (vmIByte inp s addr).1 = (vmIByte inp t addr).1 ∧
    (vmIByte inp s addr).2.io.Alike (vmIByte inp t addr).2.io := by
  have hio := h.served (vmIByte_served inp s addr 0).served (vmIByte_served inp t addr 0).served
  refine ⟨?_, hio⟩
  unfold vmIByte
  dsimp only
  rw [h.perm _ _ (by decide), h.iopl, h.events]
  split <;> rfl

theorem vmIWord_alike : (vmIWord inp s addr).1 = (vmIWord inp t addr).1 := by
  obtain ⟨hval₀, h₁⟩ := vmIByte_alike h inp ((addr.setWidth 16 : U16).setWidth 32)
  obtain ⟨hval₁, _⟩ := vmIByte_alike h₁ inp ((addr.setWidth 16 : U16).setWidth 32 + 1)
  unfold vmIWord
  dsimp only
  rw [h.perm _ _ (by decide), h.perm _ _ (by decide), h.iopl, h.events, hval₀, hval₁]
  split <;> rfl

theorem vmIDword_alike : (vmIDword inp s addr).1 = (vmIDword inp t addr).1 := by
  obtain ⟨hval₀, h₁⟩ := vmIByte_alike h inp ((addr.setWidth 16 : U16).setWidth 32)
  obtain ⟨hval₁, h₂⟩ := vmIByte_alike h₁ inp ((addr.setWidth 16 : U16).setWidth 32 + 1)
  obtain ⟨hval₂, h₃⟩ := vmIByte_alike h₂ inp ((addr.setWidth 16 : U16).setWidth 32 + 2)
  obtain ⟨hval₃, _⟩ := vmIByte_alike h₃ inp ((addr.setWidth 16 : U16).setWidth 32 + 3)
  unfold vmIDword
  dsimp only
  rw [h.perm _ _ (by decide), h.perm _ _ (by decide), h.perm _ _ (by decide),
    h.perm _ _ (by decide), h.iopl, h.events, hval₀, hval₁, hval₂, hval₃]
  split <;> rfl

end Values

/-! ## The handler -/

theorem vmPortAccess_alike (inp : PortInput) {s t : St} (h : s.io.Alike t.io) (kind : MemioKind)
    (bits : MemioBits) (addr val : U32) :
    (vmPortAccess inp s kind bits addr val).1 = (vmPortAccess inp t kind bits addr val).1 := by
  unfold vmPortAccess
  split
  · exact congrArg (BitVec.setWidth 32) (vmIByte_alike h inp addr).1
  · exact congrArg (BitVec.setWidth 32) (vmIWord_alike h inp addr)
  · exact vmIDword_alike h inp addr
  · rfl
  · rfl
  · rfl
  · rfl

section Handler

variable (inp : PortInput) {s t : St} (hmem : s.mem.Alike t.mem) (hio : s.io.Alike t.io)
  (kind : MemioKind) (bits : MemioBits) (addr val : U32)

include hmem hio

theorem vmMemio_val :
    (vmMemio inp s kind bits addr val).1.1 = (vmMemio inp t kind bits addr val).1.1 := by
  have hres := congrArg Prod.fst (hmem.access kind bits addr val).1
  have hclear : ({ s with mem := { s.mem with invalid := false } } : St).io.Alike
      ({ t with mem := { t.mem with invalid := false } } : St).io := hio
  cases kind with
  | r | w | x => exact hres
  | i | o => exact vmPortAccess_alike inp hclear _ bits addr val

/-- `vm_memio` returns the same for alike memories and ports, and leaves them alike. -/
theorem vmMemio_alike :
    (vmMemio inp s kind bits addr val).1 = (vmMemio inp t kind bits addr val).1 ∧
      (vmMemio inp s kind bits addr val).2.mem.Alike (vmMemio inp t kind bits addr val).2.mem ∧
      (vmMemio inp s kind bits addr val).2.io.Alike (vmMemio inp t kind bits addr val).2.io := by
  obtain ⟨hres, haccess⟩ := hmem.access kind bits addr val
  have hval := vmMemio_val inp hmem hio kind bits addr val
  have hmem' := haccess.congr (vmMemio_mem inp s kind bits addr val)
    (vmMemio_mem inp t kind bits addr val)
  cases ha : kind.portAccess bits addr (vmMemio inp s kind bits addr val).1.1 with
  | none =>
    refine ⟨?_, hmem', ?_⟩
    · cases kind with
      | r | w | x => exact hres
      | i | o => cases bits <;> first | rfl | cases ha
    · rw [vmMemio_io inp s ha, vmMemio_io inp t ha]
      exact hio
  | some a =>
    have hs := vmMemio_served inp s ha
    have ht := vmMemio_served inp t (hval ▸ ha)
    refine ⟨Prod.ext hval ?_, hmem', hio.served hs.served ht.served⟩
    rw [vmMemio_invalid, vmMemio_invalid, Bool.eq_iff_iff, hs.invalid, ht.invalid,
      refusals_congr (hio.allows a)]

end Handler

end X86Emu
