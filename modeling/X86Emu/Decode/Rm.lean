import X86Emu.Decode.Effective

/-!
# ModRM operands

The operands that the bytes at `EIP` name: registers, a memory operand, an immediate behind it. An
instruction that only fetches its bytes and reads its operands leaves everything but `EIP`, two bits
of the mode, the attributes of memory and the pending interrupt.
-/

namespace X86Emu

open Lib

/-! ## Instruction bytes at later states -/

section

variable (s : St) (width w : MemioWidth) (eip : U32)

@[simp] theorem fetched_code : (s.fetched width).code w eip = s.code w eip :=
  code_congr (t := s.fetched width) (fetched_marked s width) rfl w eip

@[simp] theorem fetched_gen : (s.fetched width).cpu.gen = s.cpu.gen := (rfl)

@[simp] theorem fetched_dataSeg : (s.fetched width).cpu.dataSeg = s.cpu.dataSeg := (rfl)

@[simp] theorem fetched_eip : (s.fetched width).cpu.eip = s.cpu.advance width.size.toNat := (rfl)

end

/-! ## What the bytes name -/

/-- An operand of an instruction. -/
inductive Operand (z : OpSize)
  | reg (r : BitVec 3)
  | mem (seg : SegReg) (ofs : U32)
  | imm (v : BitVec z.bits)

/-- The value of an operand. -/
def Operand.val {z : OpSize} (o : Operand z) (s : St) : BitVec z.bits :=
  match o with
  | reg r => s.cpu.getReg z r
  | mem seg ofs => (s.dataVal z.width seg ofs).setWidth z.bits
  | imm v => v

/-- A value written to an operand. -/
def St.write (s : St) {z : OpSize} (o : Operand z) (v : BitVec z.bits) : St :=
  match o with
  | .reg r => s.put (·.setReg z r v)
  | .mem seg ofs => s.stored z.width seg ofs (v.setWidth 32)
  | .imm _ => s

/-- The ModRM byte at `EIP`. -/
def St.modrm (s : St) : ModRm := .ofByte ((s.code .b8 s.cpu.eip).setWidth 8)

/-- The address form of the ModRM byte. -/
def St.rmForm (s : St) : AddrForm :=
  addrForm s.cpu.mode.addr32 s.modrm.mod s.modrm.regl
    ((s.code .b8 (s.cpu.advance 1)).setWidth 8)

/-- The address of the memory operand. -/
def St.rmAddress (s : St) : U32 :=
  s.rmForm.address s.cpu (s.disp s.rmForm.disp (s.cpu.advance (if s.rmForm.sib then 2 else 1)))

/-- The segment of the memory operand. -/
def St.rmSeg (s : St) : SegReg :=
  s.cpu.defaultSeg.getD (if s.cpu.mode.segDsSs || s.rmForm.onStack then .ss else .ds)

/-- The operand of `mod` and `rm`. -/
def St.rm (s : St) (z : OpSize) : Operand z :=
  if s.modrm.mod = 3 then .reg s.modrm.regl else .mem s.rmSeg s.rmAddress

/-- The length of the ModRM byte and what belongs to it. -/
def St.rmLength (s : St) : Nat := if s.modrm.mod = 3 then 1 else 1 + s.rmForm.length

/-- The immediate behind `n` bytes, and a sign-extended byte there. -/
def St.immAt (s : St) (z : OpSize) (n : Nat) : BitVec z.bits :=
  (s.code z.width (s.cpu.advance n)).setWidth z.bits

def St.imm8At (s : St) (z : OpSize) (n : Nat) : BitVec z.bits :=
  ((s.code .b8 (s.cpu.advance n)).setWidth 8).signExtend z.bits

/-! ## States reached by reading -/

/-- The state is reached by instruction fetches and reads of operands. -/
inductive Reads (s : St) : St → Prop
  | refl : Reads s s
  | fetched {t : St} (h : Reads s t) (width : MemioWidth) : Reads s (t.fetched width)
  | onStack {t : St} (h : Reads s t) : Reads s (t.put Cpu.setSegDsSs)
  | loaded {t : St} (h : Reads s t) (width : MemioWidth) (seg : SegReg) (ofs : U32) :
      Reads s (t.loaded width seg ofs)

namespace Reads

variable {s t : St}

theorem decoded (h : Reads s t) (form : AddrForm) : Reads s (t.decoded form) := by
  have hsib : Reads s (if form.sib then t.fetched .b8 else t) := by
    split
    · exact h.fetched .b8
    · exact h
  have hdisp : Reads s ((if form.sib then t.fetched .b8 else t).fetchedDisp form.disp) := by
    cases form.disp with
    | none => exact hsib
    | some width => exact hsib.fetched width
  unfold St.decoded
  generalize (if form.sib then t.fetched .b8 else t).fetchedDisp form.disp = u at hdisp
  dsimp only
  split
  · exact hdisp.onStack
  · exact hdisp

/-- Only access bits are changed in memory. -/
theorem marked (h : Reads s t) : s.mem.Marked t.mem := by
  induction h with
  | refl => exact .refl s.mem
  | fetched h width ih => exact ih.trans (fetched_marked _ width)
  | onStack h ih => exact ih
  | loaded h width seg ofs ih =>
    rw [loaded_mem]
    exact ih.trans (.access (by decide) _ _ _ _)

/-- Only `EIP` and two bits of the mode are changed in the register file. -/
theorem cpu (h : Reads s t) : ∃ eip segDsSs halted, t.cpu = { s.cpu with
    eip := eip, mode := { s.cpu.mode with segDsSs := segDsSs, halted := halted } } := by
  induction h with
  | refl => exact ⟨s.cpu.eip, s.cpu.mode.segDsSs, s.cpu.mode.halted, rfl⟩
  | fetched h width ih =>
    obtain ⟨eip, segDsSs, halted, hcpu⟩ := ih
    exact ⟨_, segDsSs, _, by rw [fetched_cpu, hcpu]⟩
  | onStack h ih =>
    obtain ⟨eip, segDsSs, halted, hcpu⟩ := ih
    exact ⟨eip, true, halted, by rw [put_cpu, hcpu]; rfl⟩
  | loaded h width seg ofs ih => rwa [loaded_cpu]

theorem getReg (h : Reads s t) (z : OpSize) (r : BitVec 3) :
    t.cpu.getReg z r = s.cpu.getReg z r := by
  obtain ⟨eip, segDsSs, halted, hcpu⟩ := h.cpu
  rw [hcpu]
  cases z <;> rfl

theorem eflg (h : Reads s t) : t.cpu.eflg = s.cpu.eflg := by
  obtain ⟨eip, segDsSs, halted, hcpu⟩ := h.cpu
  rw [hcpu]

theorem opSize (h : Reads s t) (wide : Bool) : t.cpu.mode.opSize wide = s.cpu.mode.opSize wide := by
  obtain ⟨eip, segDsSs, halted, hcpu⟩ := h.cpu
  rw [hcpu]
  rfl

/-- The values in memory are those before. -/
theorem dataVal (h : Reads s t) (width : MemioWidth) (seg : SegReg) (ofs : U32) :
    t.dataVal width seg ofs = s.dataVal width seg ofs := by
  obtain ⟨eip, segDsSs, halted, hcpu⟩ := h.cpu
  unfold St.dataVal Cpu.linear
  rw [hcpu, h.marked.access_result (by decide)]

theorem code (h : Reads s t) (width : MemioWidth) (eip : U32) :
    t.code width eip = s.code width eip := by
  obtain ⟨eip', segDsSs, halted, hcpu⟩ := h.cpu
  exact code_congr h.marked (by rw [hcpu]) width eip

/-- So are the values of operands. -/
theorem val (h : Reads s t) {z : OpSize} (o : Operand z) : o.val t = o.val s := by
  cases o with
  | reg r => exact h.getReg z r
  | mem seg ofs => exact congrArg (BitVec.setWidth z.bits) (h.dataVal z.width seg ofs)
  | imm v => rfl

/-- The rest of the state is the same, but the pending interrupt. -/
theorem rest (h : Reads s t) :
    ∃ cpu mem intr, t = { s with cpu := cpu, mem := mem, intr := intr } := by
  induction h with
  | refl => exact ⟨s.cpu, s.mem, s.intr, rfl⟩
  | fetched h width ih =>
    obtain ⟨cpu, mem, intr, rfl⟩ := ih
    exact ⟨_, _, intr, rfl⟩
  | onStack h ih =>
    obtain ⟨cpu, mem, intr, rfl⟩ := ih
    exact ⟨_, mem, intr, rfl⟩
  | loaded h width seg ofs ih =>
    obtain ⟨cpu, mem, intr, rfl⟩ := ih
    unfold St.loaded St.checked
    split
    · exact ⟨cpu, _, _, rfl⟩
    · exact ⟨cpu, _, intr, rfl⟩

theorem trans {u : St} (h : Reads s t) (h' : Reads t u) : Reads s u := by
  induction h' with
  | refl => exact h
  | fetched _ width ih => exact ih.fetched width
  | onStack _ ih => exact ih.onStack
  | loaded _ width seg ofs ih => exact ih.loaded width seg ofs

end Reads

/-! ## Reading a ModRM operand -/

theorem address_congr {c c' : Cpu} (hgen : c'.gen = c.gen) (haddr : c'.mode.addr32 = c.mode.addr32)
    (form : AddrForm) (disp : U32) : form.address c' disp = form.address c disp := by
  unfold AddrForm.address
  rw [hgen, haddr]

theorem advance_fetched (s : St) (width : MemioWidth) (n : Nat) :
    (s.fetched width).cpu.advance n = s.cpu.advance (width.size.toNat + n) :=
  advance_add s.cpu width.size.toNat n _ rfl

/-- The address after the ModRM byte is fetched. -/
theorem ea_fetched (s : St) (form : AddrForm) : (s.fetched .b8).ea form =
    form.address s.cpu (s.disp form.disp (s.cpu.advance (if form.sib then 2 else 1))) := by
  show form.address (s.fetched .b8).cpu _ = form.address s.cpu _
  rw [address_congr (c := s.cpu) rfl rfl, disp_congr (fetched_marked s .b8) rfl]
  refine congrArg (fun eip => form.address s.cpu (s.disp form.disp eip)) ?_
  split
  · exact advance_fetched s .b8 1
  · rfl

/-- The state after the bytes of the operand. -/
def St.rmFetched (s : St) : St := (s.fetched .b8).decoded s.rmForm

theorem rmFetched_reads (s : St) : Reads s s.rmFetched := (Reads.refl.fetched .b8).decoded s.rmForm

theorem rmFetched_dataSeg (s : St) : s.rmFetched.cpu.dataSeg = s.rmSeg :=
  decoded_dataSeg (s.fetched .b8) s.rmForm

/-- No limit is checked when the bytes are fetched. -/
theorem rmFetched_intr (s : St) : s.rmFetched.intr = s.intr := by
  unfold St.rmFetched St.decoded
  cases s.rmForm.onStack <;> cases s.rmForm.sib <;> cases s.rmForm.disp <;> rfl

/-- The state after the operand in memory is read. -/
theorem rmLoaded_reads (s : St) (z : OpSize) :
    Reads s (s.rmFetched.loaded z.width s.rmSeg s.rmAddress) ∧
      (s.rmFetched.loaded z.width s.rmSeg s.rmAddress).cpu.dataSeg = s.rmSeg := by
  constructor
  · exact (rmFetched_reads s).loaded z.width s.rmSeg s.rmAddress
  · rw [loaded_cpu, rmFetched_dataSeg]

theorem rmFetched_eip {s : St} (hmod : s.modrm.mod ≠ 3) :
    s.rmFetched.cpu.eip = s.cpu.advance s.rmLength := by
  unfold St.rmFetched St.rmLength
  rw [decoded_eip, advance_fetched, if_neg hmod]
  rfl

section

variable {inp : PortInput} {h : Host} (hh : h.Blind inp)

include hh

theorem seen_modrm (s : St) : seen h fetchDecodeModrm s = (s.modrm, (s.fetched .b8).view) :=
  seen_fetchDecodeModrm hh s

theorem seen_rmAddress {s : St} (hmod : s.modrm.mod ≠ 3) :
    seen h (decodeRmAddress s.modrm.mod s.modrm.regl) (s.fetched .b8) =
      (s.rmAddress, s.rmFetched.view) := by
  have hform : addrForm (s.fetched .b8).cpu.mode.addr32 s.modrm.mod s.modrm.regl
      (((s.fetched .b8).code .b8 (s.fetched .b8).cpu.eip).setWidth 8) = s.rmForm := by
    rw [fetched_code]
    rfl
  rw [seen_decodeRmAddress hh hmod, hform, ea_fetched]
  rfl

end

end X86Emu
