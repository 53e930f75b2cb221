import X86Emu.Memory.Bytes
import X86Emu.Memory.Marked

/-!
# Instruction bytes

What a fetch does to every byte of the memory: the bytes of a wide fetch are those of single ones,
each with its own permission, error and mark.
-/

namespace X86Emu

open Lib

/-- A fetch of one byte. -/
def Cell.exec : Cell → (U8 × Bool) × Cell := Cell.fetch permX accExec

/-- The byte fetched; one that is not executable is 0xff. -/
theorem exec_val (c : Cell) : c.exec.1.1 = if c.attr.has permX then c.data else 0xff := by
  unfold Cell.exec Cell.fetch
  split
  · split <;> rfl
  · rfl

/-- A second fetch finds the same byte and leaves no other mark. -/
theorem exec_exec (c : Cell) : c.exec.2.exec = c.exec := by
  have hacc : accExec &&& permAll = 0#8 := by decide
  have hinv : accInvalid &&& permAll = 0#8 := by decide
  have hx : ∀ {c c' : Cell}, c.Marked c' → c'.attr.has permX = c.attr.has permX := fun h =>
    h.has_eq (by decide)
  have hvalid : ∀ {c c' : Cell}, c.Marked c' → c'.attr.has permValid = c.attr.has permValid :=
    fun h => h.has_eq (by decide)
  have hmark := Cell.Marked.mark c hacc
  unfold Cell.exec Cell.fetch
  split
  case isTrue hperm =>
    split
    case isTrue hv =>
      dsimp only
      rw [BitVec.or_assoc, BitVec.or_self, hx hmark, if_pos hperm, if_pos hv]
    case isFalse hv =>
      have hmark' := Cell.Marked.mark { c with attr := c.attr ||| accExec } hinv
      have hattr : c.attr ||| accExec ||| accInvalid ||| accExec =
          c.attr ||| accExec ||| accInvalid := by
        rw [BitVec.or_assoc, BitVec.or_comm accInvalid, ← BitVec.or_assoc,
          BitVec.or_assoc c.attr, BitVec.or_self]
      dsimp only
      rw [hattr, hvalid hmark', if_neg hv, hx (hmark.trans hmark'), if_pos hperm,
        BitVec.or_assoc, BitVec.or_self]
  case isFalse => rfl

section

variable {bits : MemioBits} (hbits : bits ≠ .b8noperm)

include hbits

theorem rule_exec (v : U8) : Cell.rule .x bits v = Cell.exec := by
  cases bits with
  | b8noperm => exact absurd rfl hbits
  | _ => rfl

/-- The value of a fetch and whether it fails. -/
theorem access_exec (mem : Mem) (addr val : U32) : (mem.access .x bits addr val).1 =
    (leVal ((addrs (accessWidth .x bits) addr).map fun a => (mem.flat a).exec.1.1),
      (addrs (accessWidth .x bits) addr).any fun a => (mem.flat a).exec.1.2) := by
  have hres := onCells_results (Cell.rule .x bits) (accessBytes_nodup .x bits addr val) mem.flat
  rw [(access_refines (Or.inr (by decide)) bits addr val).1]
  unfold Flat.access
  dsimp only
  rw [if_pos (Or.inr ⟨rfl, hbits⟩), hres, ← map_fst_addrBytes _ addr val]
  simp only [rule_exec hbits, List.map_map, List.any_map]
  rfl

/-- The cells after a fetch. -/
theorem flat_exec (mem : Mem) (addr val : U32) (a : U32) : (mem.access .x bits addr val).2.flat a =
    if a ∈ addrs (accessWidth .x bits) addr then (mem.flat a).exec.2 else mem.flat a := by
  rw [(access_refines (Or.inr (by decide)) bits addr val).2]
  unfold Flat.access
  dsimp only
  split
  case isTrue hmem =>
    rw [← map_fst_addrBytes _ addr val, List.mem_map] at hmem
    obtain ⟨⟨b, v⟩, hb, rfl⟩ := hmem
    rw [onCells_mem _ (accessBytes_nodup .x bits addr val) mem.flat hb, rule_exec hbits]
  case isFalse hmem =>
    rw [← map_fst_addrBytes _ addr val] at hmem
    exact onCells_frame _ _ mem.flat hmem

end

end X86Emu
