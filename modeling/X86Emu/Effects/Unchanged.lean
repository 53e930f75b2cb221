import X86Emu.Effects.Frame
import X86Emu.Memory.Refinement
import X86Emu.Run.Steps

/-!
# Programs that change nothing

A program that writes nothing leaves the registers, the flags and the data of the memory as they
were. What remains to it are `EIP`, the mode, the texts, the attributes of the bytes it reads and
the pending interrupt.
-/

namespace X86Emu

open Lib

/-- The register file without `EIP`, the decoder's own fields and the entry that stands for a
missing segment register. -/
def Cpu.bare (c : Cpu) : Cpu :=
  { c with
    seg := Function.update c.seg .noseg {}
    eip := 0
    mode := {}
    defaultSeg := none
    savedEip := 0
    savedCs := 0
    decodeSeg := [] }

/-- Registers, flags and the data of the memory are the same. -/
structure Unchanged (s t : St) : Prop where
  cpu : t.cpu.bare = s.cpu.bare
  data : ∀ a, (t.mem.flat a).data = (s.mem.flat a).data

/-- A host with the default memory handler whose flush function changes nothing. -/
structure Host.Passive (inp : PortInput) (h : Host) : Prop where
  memio : h.memio = vmMemio inp
  flush : ∀ {f}, h.flush = some f → ∀ s t, Unchanged s (f s t)

namespace Unchanged

theorem refl (s : St) : Unchanged s s := ⟨rfl, fun _ => rfl⟩

theorem trans {s t u : St} (h₁ : Unchanged s t) (h₂ : Unchanged t u) : Unchanged s u :=
  ⟨h₂.cpu.trans h₁.cpu, fun a => (h₂.data a).trans (h₁.data a)⟩

/-- Equal registers and equal memory. -/
theorem of_eq {s t : St} (hcpu : t.cpu.bare = s.cpu.bare) (hmem : t.mem = s.mem) : Unchanged s t :=
  ⟨hcpu, fun a => by rw [hmem]⟩

theorem gen {s t : St} (hst : Unchanged s t) : t.cpu.gen = s.cpu.gen := by
  have hgen := congrArg Cpu.gen hst.cpu
  exact hgen

variable {inp : PortInput} {h : Host} (hh : h.Passive inp)

include hh

theorem callMemio {kind : MemioKind} (hkind : kind ≠ .w) (bits : MemioBits) (addr val : U32)
    (s : St) : Unchanged s (callMemio kind bits addr val h s).2 := by
  obtain ⟨mem, io, hframe⟩ := vmMemio_frame inp s kind bits addr val
  have hcells := vmMemio_mem inp s kind bits addr val
  have hdata := access_data s.mem hkind bits addr val
  unfold X86Emu.callMemio
  rw [hh.memio]
  dsimp only
  rw [hframe] at hcells ⊢
  refine ⟨rfl, fun a => ?_⟩
  exact (congrArg (fun fl : Flat => (fl a).data) hcells.flat).trans (hdata a)

theorem logBlind : LogBlind h Unchanged where
  refl := refl
  trans := trans
  log _ _ := of_eq rfl rfl
  flush hf := hh.flush hf

/-- The primitive operations that write nothing. -/
theorem keeps : Keeps h Unchanged mayUd := KeepsRule.keeps {
  toLogBlind := logBlind hh
  aside := fun hst => by
    cases hst
    exact of_eq rfl rfl
  read := fun hkind width addr val s => callMemio hh hkind _ addr val s
  write := fun hf => absurd hf (by decide)
  data := fun hf => absurd hf (by decide)
  flags := fun hf => absurd hf (by decide)
  eflg := fun hf => absurd hf (by decide)
  seg := fun hf => absurd hf (by decide)
  crx := fun hf => absurd hf (by decide)
  cpuid := fun hf => absurd hf (by decide)
  rdmsr := fun hf => absurd hf (by decide)
  wrmsr := fun hf => absurd hf (by decide) }

end Unchanged

end X86Emu
