import X86Emu.Ops.Stack

/-!
# Instructions that move the stack pointer

All instructions that push or pop, with the number of bytes that the architecture documents for the
operand size. The stack segment alone should decide whether `SP` or `ESP` moves. `popa`, the
returns with an immediate, `enter` and interrupts through gates of the other size differ, and
`St.stackRight` says when they do not.
-/

namespace X86Emu

open Lib

/-! ## The documented bytes -/

/-- The gate of an interrupt in protected mode, when it is a present interrupt or trap gate. -/
def St.idtGate (s : St) (nr : U8) : Option Descr :=
  let ofs : U32 := nr.setWidth 32 <<< 3
  let dl := (s.mem.access .r .b32 (s.cpu.idtBase + ofs) 0).1
  let dh := (s.mem.access .r .b32 (s.cpu.idtBase + ofs + 4) 0).1
  let d := parseDescriptor dl.1 dh.1
  if ofs + 7 ≤ s.cpu.idtLimit ∧ !dl.2 ∧ !dh.2 ∧ !d.invalid ∧ d.p ∧ d.iGate then some d else none

/-- The bytes of the frame of an interrupt: three words in real mode and through a 16 bit gate,
three dwords through a 32 bit gate. -/
def St.intBytes (s : St) (nr : U8) : Option U32 :=
  if s.cpu.prot then (s.idtGate nr).map fun d => if d.isI386 then 12 else 6 else some 6

/-- The operand size in bytes. -/
def St.bytes (s : St) : U32 := dataBytes s.cpu.mode.data32

/-- The instructions that move the stack pointer, by their opcode byte, and by how much they are
documented to move it; those whose destination is the stack pointer itself are left out. -/
inductive StackForm (s : St) : U8 → U32 → Prop
  | pushSeg {op : U8} (hop : op ∈ [0x06, 0x0e, 0x16, 0x1e]) : StackForm s op (-s.bytes)
  | popSeg {op : U8} (hop : op ∈ [0x07, 0x17, 0x1f]) : StackForm s op s.bytes
  | pushFsGs (hop : (s.code .b8 s.cpu.eip).setWidth 8 ∈ [(0xa0 : U8), 0xa8]) :
      StackForm s 0x0f (-s.bytes)
  | popFsGs (hop : (s.code .b8 s.cpu.eip).setWidth 8 ∈ [(0xa1 : U8), 0xa9]) :
      StackForm s 0x0f s.bytes
  | pushReg (r : BitVec 3) : StackForm s (0x50 + r.setWidth 8) (-s.bytes)
  | popReg (r : BitVec 3) (hr : r ≠ 4) : StackForm s (0x58 + r.setWidth 8) s.bytes
  | pushAll : StackForm s 0x60 (-(8 * s.bytes))
  | popAll : StackForm s 0x61 (8 * s.bytes)
  | pushImm {op : U8} (hop : op ∈ [0x68, 0x6a]) : StackForm s op (-s.bytes)
  | popRm (hreg : s.modrm.regh = 0) (hdst : ¬(s.modrm.mod = 3 ∧ s.modrm.regl = 4)) :
      StackForm s 0x8f s.bytes
  | callFar : StackForm s 0x9a (-(2 * s.bytes))
  | pushf : StackForm s 0x9c (-s.bytes)
  | popf : StackForm s 0x9d s.bytes
  | retNearImm : StackForm s 0xc2 (s.bytes + (s.immAt .word 0).setWidth 32)
  | retNear : StackForm s 0xc3 s.bytes
  | enter : StackForm s 0xc8 (-(BitVec.ofNat 32 ((s.immAt .byte 2 &&& 0x1f).toNat + 1) * s.bytes +
      (s.immAt .word 0).setWidth 32))
  | leave : StackForm s 0xc9 (s.cpu.gen .bp - s.cpu.gen .sp + s.bytes)
  | retFarImm : StackForm s 0xca (2 * s.bytes + (s.immAt .word 0).setWidth 32)
  | retFar : StackForm s 0xcb (2 * s.bytes)
  | int3 {n : U32} (hpend : s.intr.type = 0) (hn : s.intBytes 3 = some n) : StackForm s 0xcc (-n)
  | intImm {n : U32} (hpend : s.intr.type = 0) (hn : s.intBytes (s.immAt .byte 0) = some n) :
      StackForm s 0xcd (-n)
  | into {n : U32} (hpend : s.intr.type = 0) (hof : ((accessFlag .of).run () s.cpu.eflg).1 = true)
      (hn : s.intBytes 4 = some n) : StackForm s 0xce (-n)
  | iret : StackForm s 0xcf (3 * s.bytes)
  | callNear : StackForm s 0xe8 (-s.bytes)
  | callRm (hreg : s.modrm.regh = 2) : StackForm s 0xff (-s.bytes)
  | callFarRm (hreg : s.modrm.regh = 3) (hmod : s.modrm.mod ≠ 3) : StackForm s 0xff (-(2 * s.bytes))
  | pushRm (hreg : s.modrm.regh = 6) : StackForm s 0xff (-s.bytes)

/-- The opcodes that only raise the interrupt; it is delivered at the end of the instruction. -/
def isInt (op : U8) : Bool := op = 0xcc ∨ op = 0xcd ∨ op = 0xce

/-- An instruction after its prefixes and its opcode, with the delivery of a software interrupt. -/
def stackStep (h : Host) (op : U8) (s : St) : St :=
  if isInt op then handleInterrupt h (runHandler h op s) else runHandler h op s

/-- `n` bytes above `SP + d` do not reach the next 64K. -/
def St.staysIn (s : St) (d n : U32) : Prop :=
  (((s.cpu.gen .sp).setWidth 16 + d.setWidth 16 : U16)).toNat + n.toNat < 0x10000

instance (s : St) (d n : U32) : Decidable (s.staysIn d n) := inferInstanceAs (Decidable (_ < _))

/-- When the stack pointer moves as documented. -/
def St.stackRight (s : St) (op : U8) : Prop :=
  match op.toNat with
  | 0x61 => s.cpu.mode.data32 = s.cpu.mode.stack32 ∨ s.staysIn (3 * s.bytes) s.bytes
  | 0xc2 => s.cpu.mode.data32 = s.cpu.mode.stack32 ∨
      s.staysIn s.bytes ((s.immAt .word 0).setWidth 32)
  | 0xca => s.cpu.mode.data32 = s.cpu.mode.stack32 ∨
      s.staysIn (2 * s.bytes) ((s.immAt .word 0).setWidth 32)
  | 0xc8 => s.cpu.mode.data32 = s.cpu.mode.stack32
  | 0xcc => s.intBytes 3 = some s.cpu.frameBytes
  | 0xcd => s.intBytes (s.immAt .byte 0) = some s.cpu.frameBytes
  | 0xce => s.intBytes 4 = some s.cpu.frameBytes
  | _ => True

/-! ## The forms -/

section

variable {inp : PortInput} {h : Host} (hh : h.Blind inp)

theorem stackStep_eq {op : U8} {f : Handler} {s : St} (hf : x86emuOptab[op.toNat]? = some f)
    (hint : isInt op = false) : stackStep h op s = ((f op).run h s).2 := by
  unfold stackStep
  rw [hint, if_neg (by decide)]
  show ((oneByte op).run h s).2 = _
  rw [oneByte_eq op hf]

/-- An instruction that moves the stack pointer in one width. -/
theorem plain_iff {op : U8} {f : Handler} {d : U32} {s : St}
    (hf : x86emuOptab[op.toNat]? = some f) (hint : isInt op = false) (hright : s.stackRight op)
    (hmoved : Moved (idxAdd s.cpu.mode.stack32 d) s ((f op).run h s).2) :
    (stackStep h op s).cpu.gen .sp = idxAdd s.cpu.mode.stack32 d (s.cpu.gen .sp) ↔
      s.stackRight op := by
  rw [stackStep_eq hf hint]
  exact iff_of_true hmoved.sp hright

/-- An instruction that moves the stack pointer in the width of the stack, and then by `n` in the
width of the operand. -/
theorem widths_iff {op : U8} {f : Handler} {d n : U32} {s : St}
    (hf : x86emuOptab[op.toNat]? = some f) (hint : isInt op = false) (hn : n.toNat < 0x10000)
    (hmoved : Moved (fun v => idxAdd s.cpu.mode.data32 n (idxAdd s.cpu.mode.stack32 d v)) s
      ((f op).run h s).2) :
    (stackStep h op s).cpu.gen .sp = idxAdd s.cpu.mode.stack32 (d + n) (s.cpu.gen .sp) ↔
      s.cpu.mode.data32 = s.cpu.mode.stack32 ∨ s.staysIn d n := by
  rw [stackStep_eq hf hint, hmoved.sp, ← idxAdd_idxAdd, idxAdd_widths _ _ hn, idxAdd_low]
  rfl

include hh

theorem popAll_iff (s : St) :
    (stackStep h 0x61 s).cpu.gen .sp =
      idxAdd s.cpu.mode.stack32 (8 * s.bytes) (s.cpu.gen .sp) ↔ s.stackRight 0x61 := by
  have hbytes : s.bytes.toNat < 0x10000 := by
    unfold St.bytes dataBytes
    split <;> decide
  have hsum : ∀ n : U32, 8 * n = 3 * n + n + 4 * n := fun n => by bv_omega
  have hmoved : (stackStep h 0x61 s).cpu.gen .sp = idxAdd s.cpu.mode.stack32 (4 * s.bytes)
      (idxAdd s.cpu.mode.data32 s.bytes (idxAdd s.cpu.mode.stack32 (3 * s.bytes)
        (s.cpu.gen .sp))) := by
    rw [stackStep_eq (f := Op.popAll) rfl rfl]
    exact (popAll_moves hh 0x61 s rfl rfl).sp
  rw [hmoved, hsum, ← idxAdd_idxAdd, ← idxAdd_idxAdd, idxAdd_inj, idxAdd_widths _ _ hbytes,
    idxAdd_low]
  rfl

theorem enter_iff (s : St) :
    (stackStep h 0xc8 s).cpu.gen .sp =
      idxAdd s.cpu.mode.stack32
        (-(BitVec.ofNat 32 ((s.immAt .byte 2 &&& 0x1f).toNat + 1) * s.bytes +
        (s.immAt .word 0).setWidth 32)) (s.cpu.gen .sp) ↔ s.stackRight 0xc8 := by
  have hmoved : (stackStep h 0xc8 s).cpu.gen .sp = idxAdd s.cpu.mode.stack32
      (-dataBytes s.cpu.mode.stack32 +
        (BitVec.ofNat 32 (s.immAt .byte 2 &&& 0x1f).toNat * -s.bytes +
        -(s.immAt .word 0).setWidth 32)) (s.cpu.gen .sp) := by
    rw [stackStep_eq (f := Op.enter) rfl rfl]
    exact (enter_moved hh 0xc8 s).sp
  have hsum : ∀ (i : Nat) (n l : U32),
      -(BitVec.ofNat 32 (i + 1) * n + l) = -n + (BitVec.ofNat 32 i * -n + -l) := by
    intro i n l
    rw [ofNat_succ_mul, BitVec.mul_neg, BitVec.neg_add, BitVec.neg_add, BitVec.sub_eq_add_neg,
      BitVec.sub_eq_add_neg, BitVec.add_comm (-_) (-n), BitVec.add_assoc]
  have hsizes : ∀ b k : Bool, (if k then -dataBytes k = -dataBytes b
      else (-dataBytes k).setWidth 16 = (-dataBytes b).setWidth 16) ↔ b = k := by decide
  rw [hmoved, hsum, idxAdd_bytes]
  exact hsizes s.cpu.mode.data32 s.cpu.mode.stack32

/-- A software interrupt that is raised when nothing is pending, and delivered. -/
theorem int_iff (hdecl : h.Declines) {op nr : U8} {f : Handler} {n : U32} {s t : St}
    (hf : x86emuOptab[op.toNat]? = some f) (hint : isInt op = true) (hread : Reads s t)
    (hpend : s.intr.type = 0) (hintr : t.intr = s.intr)
    (hraise : seen h (f op) s = ((), (t.raised nr intrTypeSoft 0).view)) (hn : n = 6 ∨ n = 12) :
    (stackStep h op s).cpu.gen .sp = idxAdd s.cpu.mode.stack32 (-n) (s.cpu.gen .sp) ↔
      n = s.cpu.frameBytes := by
  have hstep : stackStep h op s = handleInterrupt h ((f op).run h s).2 := by
    unfold stackStep
    rw [hint, if_pos rfl]
    show handleInterrupt h ((oneByte op).run h s).2 = _
    rw [oneByte_eq op hf]
  have hview : ((f op).run h s).2.view = (t.raised nr intrTypeSoft 0).view :=
    congrArg Prod.snd hraise
  have hpending : ((f op).run h s).2.intr = ⟨nr, intrTypeSoft, 0⟩ := by
    refine (congrArg St.intr hview).trans ?_
    show (if t.intr.type = 0 then _ else _) = _
    rw [if_pos (hintr ▸ hpend)]
  have hsame : Moved id s ((f op).run h s).2 := by
    obtain ⟨eip, segDsSs, halted, hcpu⟩ := hread.cpu
    have hcpu' : ((f op).run h s).2.cpu = t.cpu := congrArg (·.cpu) hview
    exact ⟨by rw [hcpu', hcpu, id], by rw [hcpu', hcpu]; rfl⟩
  have hmoved := handleInterrupt_moved hh hdecl hpending
  have hframe : s.cpu.frameBytes = 6 ∨ s.cpu.frameBytes = 12 := by
    unfold Cpu.frameBytes
    split
    · exact Or.inr rfl
    · exact Or.inl rfl
  have hzero : ∀ v : U32, -v = -v + 0#32 := fun v => (BitVec.add_zero (-v)).symm
  rw [hstep, (hsame.trans hmoved).sp, hsame.stack32, hsame.frameBytes]
  show idxAdd _ (-s.cpu.frameBytes) (s.cpu.gen .sp) = _ ↔ _
  rw [hzero n, hzero s.cpu.frameBytes, idxAdd_bytes]
  generalize s.cpu.frameBytes = m at hframe
  generalize s.cpu.mode.stack32 = k
  rcases hn with rfl | rfl <;> rcases hframe with rfl | rfl <;> cases k <;> decide

omit hh in
theorem intBytes_cases {s : St} {nr : U8} {n : U32} (hn : s.intBytes nr = some n) :
    n = 6 ∨ n = 12 := by
  unfold St.intBytes at hn
  split at hn
  · obtain ⟨d, -, hd⟩ := Option.map_eq_some_iff.mp hn
    subst hd
    split
    · exact Or.inr rfl
    · exact Or.inl rfl
  · exact Or.inl (Option.some.inj hn).symm

theorem fsGs_iff {op2 : U8} {f : Handler} {d : U32} {s : St}
    (hop2 : (s.code .b8 s.cpu.eip).setWidth 8 = op2) (hf : x86emuOptab2[op2.toNat]? = some f)
    (hmoves : Moves h s.cpu.mode.data32 s.cpu.mode.stack32 (f op2) (idxAdd s.cpu.mode.stack32 d)) :
    (stackStep h 0x0f s).cpu.gen .sp = idxAdd s.cpu.mode.stack32 d (s.cpu.gen .sp) ↔
      s.stackRight 0x0f := by
  have hseen : seen h (Op.twoByte 0x0f) s = seen h (f op2) (s.fetched .b8) := by
    unfold Op.twoByte handlerAt
    rw [seen_step hh (seen_fetchByte hh s), hop2, List.getD_eq_getElem?_getD, hf]
    rfl
  exact plain_iff (f := Op.twoByte) rfl rfl trivial (moved_at (Reads.refl.fetched .b8) hseen hmoves)

omit hh in
/-- Group FF, by the program behind its ModRM byte. -/
theorem groupFf_iff {x : Emu Unit} {d : U32} {s : St}
    (hseen : seen h (Op.opcFfWordRm 0xff) s = seen h x (s.fetched .b8))
    (hmoves : Moves h s.cpu.mode.data32 s.cpu.mode.stack32 x (idxAdd s.cpu.mode.stack32 d)) :
    (stackStep h 0xff s).cpu.gen .sp = idxAdd s.cpu.mode.stack32 d (s.cpu.gen .sp) ↔
      s.stackRight 0xff :=
  plain_iff (f := Op.opcFfWordRm) rfl rfl trivial (moved_at (Reads.refl.fetched .b8) hseen hmoves)

theorem into_raised {s : St} (op : U8) (hof : ((accessFlag .of).run () s.cpu.eflg).1 = true) :
    seen h (Op.into op) s = ((), (s.raised 4 intrTypeSoft 0).view) := by
  have hflag : seen h (flags (accessFlag .of)) s = (true, s.view) := by
    rw [seen_flags, hof]
    rfl
  unfold Op.into
  rw [seen_step hh (seen_opDecode _ s), seen_step hh hflag, seen_ite, if_pos rfl]
  exact seen_intrRaise _ _ _ s

theorem stackStep_iff {s : St} {op : U8} {d : U32} (hdecl : isInt op = true → h.Declines)
    (hform : StackForm s op d) :
    (stackStep h op s).cpu.gen .sp = idxAdd s.cpu.mode.stack32 d (s.cpu.gen .sp) ↔
      s.stackRight op := by
  have himm : ((s.immAt .word 0).setWidth 32 : U32).toNat < 0x10000 := by
    rw [BitVec.toNat_setWidth]
    exact Nat.lt_of_le_of_lt (Nat.mod_le _ _) (s.immAt .word 0).isLt
  have htwo : ∀ n : U32, 2 * n = n + n := fun n => by bv_omega
  have hthree : ∀ n : U32, 3 * n = n + (n + n) := fun n => by bv_omega
  have hpush : ∀ n : U32, -(2 * n) = -n + -n := fun n => by bv_omega
  cases hform with
  | pushSeg hop =>
    simp only [List.mem_cons, List.not_mem_nil, or_false] at hop
    rcases hop with rfl | rfl | rfl | rfl
    · exact plain_iff (f := Op.pushEs) rfl rfl trivial (pushSeg_moves hh _ .es s rfl rfl)
    · exact plain_iff (f := Op.pushCs) rfl rfl trivial (pushSeg_moves hh _ .cs s rfl rfl)
    · exact plain_iff (f := Op.pushSs) rfl rfl trivial (pushSeg_moves hh _ .ss s rfl rfl)
    · exact plain_iff (f := Op.pushDs) rfl rfl trivial (pushSeg_moves hh _ .ds s rfl rfl)
  | popSeg hop =>
    simp only [List.mem_cons, List.not_mem_nil, or_false] at hop
    rcases hop with rfl | rfl | rfl
    · exact plain_iff (f := Op.popEs) rfl rfl trivial (popSeg_moves hh _ .es s rfl rfl)
    · exact plain_iff (f := Op.popSs) rfl rfl trivial (popSeg_moves hh _ .ss s rfl rfl)
    · exact plain_iff (f := Op.popDs) rfl rfl trivial (popSeg_moves hh _ .ds s rfl rfl)
  | pushFsGs hop =>
    simp only [List.mem_cons, List.not_mem_nil, or_false] at hop
    rcases hop with hop | hop
    · exact fsGs_iff hh (f := Op2.pushFs) hop rfl (pushSeg_moves hh _ .fs)
    · exact fsGs_iff hh (f := Op2.pushGs) hop rfl (pushSeg_moves hh _ .gs)
  | popFsGs hop =>
    simp only [List.mem_cons, List.not_mem_nil, or_false] at hop
    rcases hop with hop | hop
    · exact fsGs_iff hh (f := Op2.popFs) hop rfl (popSeg_moves hh _ .fs)
    · exact fsGs_iff hh (f := Op2.popGs) hop rfl (popSeg_moves hh _ .gs)
  | pushReg r =>
    rcases reg3_cases r with rfl | rfl | rfl | rfl | rfl | rfl | rfl | rfl
    · exact plain_iff (f := Op.pushAx) rfl rfl trivial (pushReg_moves hh _ _ .ax s rfl rfl)
    · exact plain_iff (f := Op.pushCx) rfl rfl trivial (pushReg_moves hh _ _ .cx s rfl rfl)
    · exact plain_iff (f := Op.pushDx) rfl rfl trivial (pushReg_moves hh _ _ .dx s rfl rfl)
    · exact plain_iff (f := Op.pushBx) rfl rfl trivial (pushReg_moves hh _ _ .bx s rfl rfl)
    · exact plain_iff (f := Op.pushSp) rfl rfl trivial (pushReg_moves hh _ _ .sp s rfl rfl)
    · exact plain_iff (f := Op.pushBp) rfl rfl trivial (pushReg_moves hh _ _ .bp s rfl rfl)
    · exact plain_iff (f := Op.pushSi) rfl rfl trivial (pushReg_moves hh _ _ .si s rfl rfl)
    · exact plain_iff (f := Op.pushDi) rfl rfl trivial (pushReg_moves hh _ _ .di s rfl rfl)
  | popReg r hr =>
    rcases reg3_cases r with rfl | rfl | rfl | rfl | rfl | rfl | rfl | rfl
    · exact plain_iff (f := Op.popAx) rfl rfl trivial (popReg_moves hh _ _ (by decide) s rfl rfl)
    · exact plain_iff (f := Op.popCx) rfl rfl trivial (popReg_moves hh _ _ (by decide) s rfl rfl)
    · exact plain_iff (f := Op.popDx) rfl rfl trivial (popReg_moves hh _ _ (by decide) s rfl rfl)
    · exact plain_iff (f := Op.popBx) rfl rfl trivial (popReg_moves hh _ _ (by decide) s rfl rfl)
    · exact absurd rfl hr
    · exact plain_iff (f := Op.popBp) rfl rfl trivial (popReg_moves hh _ _ (by decide) s rfl rfl)
    · exact plain_iff (f := Op.popSi) rfl rfl trivial (popReg_moves hh _ _ (by decide) s rfl rfl)
    · exact plain_iff (f := Op.popDi) rfl rfl trivial (popReg_moves hh _ _ (by decide) s rfl rfl)
  | pushAll => exact plain_iff (f := Op.pushAll) rfl rfl trivial (pushAll_moves hh _ s rfl rfl)
  | popAll => exact popAll_iff hh s
  | pushImm hop =>
    simp only [List.mem_cons, List.not_mem_nil, or_false] at hop
    rcases hop with rfl | rfl
    · exact plain_iff (f := Op.pushWordImm) rfl rfl trivial (pushWordImm_moves hh _ s rfl rfl)
    · exact plain_iff (f := Op.pushByteImm) rfl rfl trivial (pushByteImm_moves hh _ s rfl rfl)
  | popRm hreg hdst =>
    exact plain_iff (f := Op.popRm) rfl rfl trivial (popRm_moved hh _ hreg hdst)
  | callFar =>
    rw [hpush s.bytes]
    exact plain_iff (f := Op.callFarImm) rfl rfl trivial (callFarImm_moves hh _ s rfl rfl)
  | pushf => exact plain_iff (f := Op.pushfWord) rfl rfl trivial (pushfWord_moves hh _ s rfl rfl)
  | popf => exact plain_iff (f := Op.popfWord) rfl rfl trivial (popfWord_moves hh _ s rfl rfl)
  | retNearImm => exact widths_iff (f := Op.retNearImm) rfl rfl himm (retNearImm_moved hh _ s)
  | retNear => exact plain_iff (f := Op.retNear) rfl rfl trivial (retNear_moves hh _ s rfl rfl)
  | enter => exact enter_iff hh s
  | leave => exact plain_iff (f := Op.leave) rfl rfl trivial (leave_moved hh _ s)
  | retFarImm => exact widths_iff (f := Op.retFarImm) rfl rfl himm (retFarImm_moved hh _ s)
  | retFar =>
    rw [htwo s.bytes]
    exact plain_iff (f := Op.retFar) rfl rfl trivial (retFar_moves hh _ s rfl rfl)
  | int3 hpend hn =>
    have hraise : seen h (Op.int3 0xcc) s = ((), (s.raised 3 intrTypeSoft 0).view) := by
      unfold Op.int3
      rw [seen_step hh (seen_opDecode _ s)]
      exact seen_intrRaise 3 intrTypeSoft 0 s
    refine (int_iff hh (hdecl rfl) rfl rfl .refl hpend rfl hraise (intBytes_cases hn)).trans ?_
    show _ ↔ s.intBytes 3 = some _
    rw [hn, Option.some_inj]
  | intImm hpend hn =>
    have hraise : seen h (Op.intImm 0xcd) s =
        ((), ((s.fetched .b8).raised (s.immAt .byte 0) intrTypeSoft 0).view) := by
      unfold Op.intImm fetchImmByte St.immAt
      rw [seen_step hh (seen_opDecode _ s), seen_step hh (seen_fetchImm hh .byte s), advance_zero]
      exact seen_intrRaise _ intrTypeSoft 0 _
    refine (int_iff hh (hdecl rfl) rfl rfl (Reads.refl.fetched .b8) hpend rfl hraise
      (intBytes_cases hn)).trans ?_
    show _ ↔ s.intBytes (s.immAt .byte 0) = some _
    rw [hn, Option.some_inj]
  | into hpend hof hn =>
    refine (int_iff hh (hdecl rfl) (f := Op.into) rfl rfl .refl hpend rfl (into_raised hh 0xce hof)
      (intBytes_cases hn)).trans ?_
    show _ ↔ s.intBytes 4 = some _
    rw [hn, Option.some_inj]
  | iret =>
    rw [hthree s.bytes]
    exact plain_iff (f := Op.iret) rfl rfl trivial (iret_moves hh _ s rfl rfl)
  | callNear =>
    exact plain_iff (f := Op.callNearImm) rfl rfl trivial
      (callNearImm_moves hh _ s rfl rfl)
  | callRm hreg =>
    refine groupFf_iff (x := do opDecode "call "; Op.jumpRm Op.pushIp s.modrm) ?_ ?_
    · unfold Op.opcFfWordRm
      rw [seen_step hh (seen_modrm hh s), hreg]
      rfl
    · exact quiet_skip hh _ fun _ => jumpRm_moves hh (pushIp_moves hh) s.modrm
  | callFarRm hreg hmod =>
    rw [hpush s.bytes]
    refine groupFf_iff (x := do opDecode "call far "; Op.jumpFarRm Op.pushFar s.modrm) ?_ ?_
    · unfold Op.opcFfWordRm
      rw [seen_step hh (seen_modrm hh s), hreg]
      show seen h (if s.modrm.mod = 3 then _ else _) _ = _
      rw [if_neg hmod]
    · exact quiet_skip hh _ fun _ => jumpFarRm_moves hh (pushFar_moves hh) s.modrm
  | pushRm hreg =>
    refine groupFf_iff (x := do opDecode "push "; Op.pushRm s.modrm) ?_ ?_
    · unfold Op.opcFfWordRm
      rw [seen_step hh (seen_modrm hh s), hreg]
      rfl
    · exact quiet_skip hh _ fun _ => pushRm_moves hh s.modrm

end

/-- `int 3` in real mode. -/
theorem stackStep_iff_int3 :
    let s : St := { cpu := resetCpu }
    let h := defaultHost fun _ _ _ => 0
    (stackStep h 0xcc s).cpu.gen .sp =
      idxAdd s.cpu.mode.stack32 (-6) (s.cpu.gen .sp) ↔ s.stackRight 0xcc := by
  intro s h
  have hreal : s.cpu.prot = false := by decide
  have hbytes : s.intBytes 3 = some 6 := if_neg (by rw [hreal]; decide)
  exact stackStep_iff (defaultHost_default _).blind (fun _ => nofun) (.int3 rfl hbytes)

/-- `popa` of words across 64K on a 32 bit stack. -/
theorem stackStep_popAll_fails :
    ¬∀ (inp : PortInput) (h : Host), h.Blind inp → h.Declines → ∀ (s : St) (op : U8) (d : U32),
      StackForm s op d →
      (stackStep h op s).cpu.gen .sp = idxAdd s.cpu.mode.stack32 d (s.cpu.gen .sp) := by
  intro hclaim
  let h := defaultHost fun _ _ _ => 0
  let s : St :=
    { cpu := { resetCpu.setGen .sp 0xfff8 with mode := { resetCpu.mode with stack32 := true } } }
  have hright := (popAll_iff (h := h) (defaultHost_default _).blind s).mp
    (hclaim _ h (defaultHost_default _).blind nofun s 0x61 _ .popAll)
  have hcross : ¬(s.cpu.mode.data32 = s.cpu.mode.stack32 ∨ s.staysIn (3 * s.bytes) s.bytes) := by
    decide
  exact hcross hright

end X86Emu
