import X86Emu.Memory.Marked
import X86Emu.Ops.Operand
import X86Emu.Run.View

/-!
# What the decoder's functions do

One equation for each function of `decode.c` and each operand function: what it returns, and the
view of the state it leaves, as a function of the state it starts in. The states are
given by the operations `St.put`, `St.raised`, `St.accessed` and what is built from them. A host is
blind here, so memory accesses are those of `Mem.access`.
-/

namespace X86Emu

open Lib

/-! ## Operations on the view -/

/-- A write to the register file. -/
def St.put (s : St) (f : Cpu → Cpu) : St := { s with cpu := f s.cpu }

/-- A raised interrupt. -/
def St.raised (s : St) (nr : U8) (type err : U32) : St :=
  { s with intr := if s.intr.type = 0 then ⟨nr, type, err⟩ else s.intr }

/-- A raised `#GP`. -/
def St.raisedGp (s : St) (err : U32) : St :=
  s.raised 0x0d (intrTypeFault ||| intrModeRestart ||| intrModeErrcode) err

/-- A memory access. -/
def St.accessed (s : St) (kind : MemioKind) (width : MemioWidth) (addr val : U32) : St :=
  { s with mem := (s.mem.access kind width.bits addr val).2 }

/-- How many bytes an access has. -/
def MemioWidth.size : MemioWidth → U32
  | .b8 => 1
  | .b16 => 2
  | .b32 => 4

/-- `check_data_access` -/
def St.checked (s : St) (seg : SegReg) (ofs size : U32) : St :=
  if ofs + size - 1 > (s.cpu.seg seg).limit then s.raisedGp ((s.cpu.seg seg).sel.setWidth 32)
  else s

/-- The linear address of an offset in a segment. -/
def Cpu.linear (c : Cpu) (seg : SegReg) (ofs : U32) : U32 := (c.seg seg).base + ofs

/-- The value `fetch_data_*_abs` returns. -/
def St.dataVal (s : St) (width : MemioWidth) (seg : SegReg) (ofs : U32) : U32 :=
  (s.mem.access .r width.bits (s.cpu.linear seg ofs) 0).1.1

/-- `fetch_data_*_abs` -/
def St.loaded (s : St) (width : MemioWidth) (seg : SegReg) (ofs : U32) : St :=
  (s.checked seg ofs width.size).accessed .r width (s.cpu.linear seg ofs) 0

/-- `store_data_*_abs` -/
def St.stored (s : St) (width : MemioWidth) (seg : SegReg) (ofs val : U32) : St :=
  (s.checked seg ofs width.size).accessed .w width (s.cpu.linear seg ofs) val

/-- The next instruction pointer but `n` bytes. -/
def Cpu.advance (c : Cpu) (n : Nat) : U32 :=
  if c.mode.code32 then c.eip + BitVec.ofNat 32 n
  else setLo16 c.eip (c.ip + BitVec.ofNat 16 n)

/-- What an instruction fetch returns: the value, and whether it failed. -/
def St.codeRes (s : St) (width : MemioWidth) : U32 × Bool :=
  (s.mem.access .x width.bits (s.cpu.linear .cs s.cpu.eip) 0).1

/-- The instruction bytes at a value of `EIP`, as a number. -/
def St.code (s : St) (width : MemioWidth) (eip : U32) : U32 :=
  (s.mem.access .x width.bits (s.cpu.linear .cs eip) 0).1.1

/-- `fetch_byte`, `fetch_word` and `fetch_long` -/
def St.fetched (s : St) (width : MemioWidth) : St :=
  (s.accessed .x width (s.cpu.linear .cs s.cpu.eip) 0).put fun c =>
    { c with
      eip := c.advance width.size.toNat
      mode := { c.mode with halted := c.mode.halted || (s.codeRes width).2 } }

/-! ### Their parts -/

section

variable (s : St) (f g : Cpu → Cpu) (nr : U8) (type err : U32) (kind : MemioKind)
  (width : MemioWidth) (addr val : U32) (seg : SegReg) (ofs size : U32)

@[simp] theorem put_cpu : (s.put f).cpu = f s.cpu := (rfl)
@[simp] theorem put_mem : (s.put f).mem = s.mem := (rfl)
@[simp] theorem put_intr : (s.put f).intr = s.intr := (rfl)
theorem put_congr {s : St} {f g : Cpu → Cpu} (h : f s.cpu = g s.cpu) : s.put f = s.put g :=
  congrArg (fun c => { s with cpu := c }) h

theorem put_put : (s.put f).put g = s.put fun c => g (f c) := (rfl)

@[simp] theorem raised_cpu : (s.raised nr type err).cpu = s.cpu := (rfl)
@[simp] theorem raised_mem : (s.raised nr type err).mem = s.mem := (rfl)

@[simp] theorem raisedGp_cpu : (s.raisedGp err).cpu = s.cpu := (rfl)
@[simp] theorem raisedGp_mem : (s.raisedGp err).mem = s.mem := (rfl)

@[simp] theorem accessed_cpu : (s.accessed kind width addr val).cpu = s.cpu := (rfl)
@[simp] theorem accessed_mem :
    (s.accessed kind width addr val).mem = (s.mem.access kind width.bits addr val).2 := (rfl)
@[simp] theorem accessed_intr : (s.accessed kind width addr val).intr = s.intr := (rfl)

@[simp] theorem checked_cpu : (s.checked seg ofs size).cpu = s.cpu := by
  unfold St.checked
  split <;> rfl

@[simp] theorem checked_mem : (s.checked seg ofs size).mem = s.mem := by
  unfold St.checked
  split <;> rfl

@[simp] theorem loaded_cpu : (s.loaded width seg ofs).cpu = s.cpu := checked_cpu s seg ofs _

@[simp] theorem loaded_mem : (s.loaded width seg ofs).mem =
    (s.mem.access .r width.bits (s.cpu.linear seg ofs) 0).2 := by
  rw [St.loaded, accessed_mem, checked_mem]

@[simp] theorem stored_cpu : (s.stored width seg ofs val).cpu = s.cpu := checked_cpu s seg ofs _

@[simp] theorem stored_mem : (s.stored width seg ofs val).mem =
    (s.mem.access .w width.bits (s.cpu.linear seg ofs) val).2 := by
  rw [St.stored, accessed_mem, checked_mem]

@[simp] theorem fetched_cpu : (s.fetched width).cpu = { s.cpu with
    eip := s.cpu.advance width.size.toNat
    mode := { s.cpu.mode with halted := s.cpu.mode.halted || (s.codeRes width).2 } } := (rfl)

@[simp] theorem fetched_mem : (s.fetched width).mem =
    (s.mem.access .x width.bits (s.cpu.linear .cs s.cpu.eip) 0).2 := (rfl)

@[simp] theorem fetched_intr : (s.fetched width).intr = s.intr := (rfl)

end

/-! ## Primitive operations -/

section

variable {α β : Type} {inp : PortInput} {h : Host}

theorem seen_pure (a : α) (s : St) : seen h (pure a) s = (a, s.view) := (rfl)

theorem seen_ite (c : Prop) [Decidable c] (x y : Emu α) (s : St) :
    seen h (if c then x else y) s = if c then seen h x s else seen h y s := by
  split <;> rfl

theorem seen_getCpu (s : St) : seen h getCpu s = (s.cpu, s.view) := (rfl)

theorem seen_getMode (s : St) : seen h getMode s = (s.cpu.mode, s.view) := (rfl)

theorem seen_getGen (r : Reg) (s : St) : seen h (getGen r) s = (s.cpu.gen r, s.view) := (rfl)

theorem seen_get16 (r : Reg) (s : St) : seen h (get16 r) s = (s.cpu.get16 r, s.view) := (rfl)

theorem seen_get8 (r : Reg8) (s : St) : seen h (get8 r) s = (s.cpu.get8 r, s.view) := (rfl)

theorem seen_getEip (s : St) : seen h getEip s = (s.cpu.eip, s.view) := (rfl)

theorem seen_setGen (r : Reg) (v : U32) (s : St) :
    seen h (setGen r v) s = ((), (s.put (·.setGen r v)).view) := (rfl)

def Cpu.set16 (c : Cpu) (r : Reg) (v : U16) : Cpu := c.setGen r (setLo16 (c.gen r) v)

theorem seen_set16 (r : Reg) (v : U16) (s : St) :
    seen h (set16 r v) s = ((), (s.put (·.set16 r v)).view) := (rfl)

def Cpu.set8 (c : Cpu) (r : Reg8) (v : U8) : Cpu :=
  c.setGen r.parent.1
    (if r.parent.2 then setHi8 (c.gen r.parent.1) v else setLo8 (c.gen r.parent.1) v)

theorem seen_setEip (v : U32) (s : St) :
    seen h (setEip v) s = ((), (s.put fun c => { c with eip := v }).view) := (rfl)

theorem seen_setEflg (v : U32) (s : St) :
    seen h (setEflg v) s = ((), (s.put fun c => { c with eflg := v }).view) := (rfl)

theorem seen_setSel (ref : SelRef) (v : Sel) (s : St) :
    seen h (setSel ref v) s = ((), (s.put (·.setSel ref v)).view) := (rfl)

def Cpu.setSegDsSs (c : Cpu) : Cpu := { c with mode := { c.mode with segDsSs := true } }

@[simp] theorem setSegDsSs_gen (c : Cpu) : c.setSegDsSs.gen = c.gen := (rfl)

@[simp] theorem setSegDsSs_eip (c : Cpu) : c.setSegDsSs.eip = c.eip := (rfl)

@[simp] theorem setSegDsSs_seg (c : Cpu) : c.setSegDsSs.seg = c.seg := (rfl)

theorem seen_setSegDsSs (s : St) :
    seen h setSegDsSs s = ((), (s.put Cpu.setSegDsSs).view) := (rfl)

/-- The flags word after a flag program. -/
def Cpu.flagged (c : Cpu) (x : FlagOp α) : Cpu := { c with eflg := (x.run () c.eflg).2 }

theorem seen_flags (x : FlagOp α) (s : St) :
    seen h (flags x) s = ((x.run () s.cpu.eflg).1, (s.put (·.flagged x)).view) := (rfl)

theorem seen_decode (t : List Char) (s : St) : seen h (decode t) s = ((), s.view) := (rfl)

theorem seen_opDecode (t : String) (s : St) : seen h (opDecode t) s = ((), s.view) := (rfl)

theorem seen_capture (bytes : List U8) (s : St) : seen h (capture bytes) s = ((), s.view) :=
  congrArg (Prod.mk ()) (view_capture bytes s)

theorem seen_stopFetch (addr : U32) (s : St) : seen h (stopFetch addr) s =
    ((), (s.put fun c => { c with mode := { c.mode with halted := true } }).view) := (rfl)

theorem seen_intrRaise (nr : U8) (type err : U32) (s : St) :
    seen h (intrRaise nr type err) s = ((), (s.raised nr type err).view) := by
  refine congrArg (Prod.mk ()) ?_
  show (x86emuIntrRaise nr type err s).view = _
  unfold x86emuIntrRaise St.raised
  dsimp only
  split <;> rfl

theorem seen_intrRaiseGp (err : U32) (s : St) :
    seen h (intrRaiseGp err) s = ((), (s.raisedGp err).view) := seen_intrRaise _ _ err s

variable (hh : h.Blind inp)

include hh

/-- A program that goes on from what an earlier one leaves. -/
theorem seen_step {x : Emu α} {f : α → Emu β} {a : α} {s t : St} (hx : seen h x s = (a, t.view)) :
    seen h (x >>= f) s = seen h (f a) t := by
  rw [seen_bind hh, hx, seen_view hh]

theorem seen_writeLog (thr : U32) (guard : Log → Bool) (text : St → List Char)
    (ht : ∀ s, (text s).length < thr.toNat) (s : St) :
    seen h (writeLog thr guard text ht) s = ((), s.view) :=
  congrArg (Prod.mk ()) (hh.logBlind.line thr guard text s)

theorem seen_memio {kind : MemioKind} (hkind : kind = .r ∨ kind = .w ∨ kind = .x)
    (width : MemioWidth) (addr val : U32) (s : St) :
    seen h (memio kind width addr val) s =
      ((s.mem.access kind width.bits addr val).1, (s.accessed kind width addr val).view) := by
  show ((callMemio kind width.bits addr val h s).1, (callMemio kind width.bits addr val h s).2.view)
    = _
  unfold callMemio
  rw [hh.memio]
  rcases hkind with rfl | rfl | rfl <;> rfl

theorem seen_loggedMemio {kind : MemioKind} (hkind : kind = .r ∨ kind = .w ∨ kind = .x)
    (width : MemioWidth) (addr val : U32) (s : St) :
    seen h (loggedMemio kind width addr val) s =
      ((s.mem.access kind width.bits addr val).1, (s.accessed kind width addr val).view) := by
  unfold loggedMemio
  rw [seen_step hh (seen_memio hh hkind width addr val s),
    seen_step hh (seen_writeLog hh _ _ _ _ _)]
  exact seen_pure _ _

/-! ## Instruction fetch -/

/-- The step of `EIP` over fetched bytes, and the copy of the bytes. -/
theorem seen_advance (width : MemioWidth) (val : U32) (s : St) :
    seen h (do
      let cpu ← getCpu
      if cpu.mode.code32 then setEip (cpu.eip + BitVec.ofNat 32 width.size.toNat)
      else setEip (setLo16 cpu.eip (cpu.ip + BitVec.ofNat 16 width.size.toNat))
      capture (valBytes width.size.toNat val)
      return val) s =
      (val, (s.put fun c => { c with eip := c.advance width.size.toNat }).view) := by
  cases hcode : s.cpu.mode.code32 <;>
  · simp only [seen_bind hh, seen_getCpu, hcode, if_true, if_false, Bool.false_eq_true, seen_setEip,
      seen_capture, seen_pure, seen_view hh]
    simp [St.put, Cpu.advance, hcode]

theorem seen_fetchCode (width : MemioWidth) (s : St) :
    seen h (fetchCode width width.size.toNat) s =
      (s.code width s.cpu.eip, (s.fetched width).view) := by
  have hstep := seen_advance hh width (s.code width s.cpu.eip)
  unfold fetchCode decodeMemio
  rw [seen_step hh (seen_getCpu s),
    seen_step hh (seen_loggedMemio hh (Or.inr (Or.inr rfl)) _ _ _ s)]
  dsimp only
  rw [seen_ite]
  split
  · next herr =>
    have hfail : (s.codeRes width).2 = true := herr
    rw [seen_step hh (seen_stopFetch _ _)]
    refine (hstep _).trans ?_
    simp only [St.fetched, hfail, put_put, Bool.or_true]
    rfl
  · next herr =>
    have hok : (s.codeRes width).2 = false := Bool.eq_false_iff.mpr herr
    refine (hstep _).trans ?_
    simp only [St.fetched, hok, Bool.or_false]
    rfl

theorem seen_fetchByte (s : St) :
    seen h fetchByte s = ((s.code .b8 s.cpu.eip).setWidth 8, (s.fetched .b8).view) :=
  seen_step hh (seen_fetchCode hh .b8 s)

theorem seen_fetchWord (s : St) :
    seen h fetchWord s = ((s.code .b16 s.cpu.eip).setWidth 16, (s.fetched .b16).view) :=
  seen_step hh (seen_fetchCode hh .b16 s)

theorem seen_fetchLong (s : St) :
    seen h fetchLong s = (s.code .b32 s.cpu.eip, (s.fetched .b32).view) := seen_fetchCode hh .b32 s

theorem seen_fetchSignedByte (s : St) : seen h fetchSignedByte s =
    (((s.code .b8 s.cpu.eip).setWidth 8).signExtend 32, (s.fetched .b8).view) :=
  seen_step hh (seen_fetchByte hh s)

theorem seen_fetchSignedWord (s : St) : seen h fetchSignedWord s =
    (((s.code .b16 s.cpu.eip).setWidth 16).signExtend 32, (s.fetched .b16).view) :=
  seen_step hh (seen_fetchWord hh s)

/-- The fields of a ModRM byte. -/
def ModRm.ofByte (v : U8) : ModRm := ⟨v.extractLsb' 6 2, v.extractLsb' 3 3, v.extractLsb' 0 3⟩

theorem seen_fetchDecodeModrm (s : St) : seen h fetchDecodeModrm s =
    (.ofByte ((s.code .b8 s.cpu.eip).setWidth 8), (s.fetched .b8).view) :=
  seen_step hh (seen_fetchByte hh s)

/-! ## Data access -/

omit hh in
/-- The segment of a memory operand. -/
def Cpu.dataSeg (c : Cpu) : SegReg := c.defaultSeg.getD (if c.mode.segDsSs then .ss else .ds)

omit hh in
theorem seen_getDataSegment (s : St) : seen h getDataSegment s = (s.cpu.dataSeg, s.view) := (rfl)

theorem seen_checkDataAccess (seg : SegReg) (ofs size : U32) (s : St) :
    seen h (checkDataAccess seg ofs size) s = ((), (s.checked seg ofs size).view) := by
  unfold checkDataAccess
  rw [seen_step hh (seen_writeLog hh _ _ _ _ s), seen_step hh (seen_getCpu s)]
  dsimp only
  rw [seen_ite, seen_intrRaiseGp, seen_pure]
  unfold St.checked
  split <;> rfl

theorem seen_fetchDataAbs (width : MemioWidth) (seg : SegReg) (ofs : U32) (s : St) :
    seen h (fetchDataAbs width width.size seg ofs) s =
      (s.dataVal width seg ofs, (s.loaded width seg ofs).view) := by
  unfold fetchDataAbs decodeMemio
  rw [seen_step hh (seen_checkDataAccess hh seg ofs width.size s), seen_step hh (seen_getCpu _),
    seen_step hh (seen_loggedMemio hh (Or.inl rfl) _ _ _ _), seen_pure, checked_cpu, checked_mem]
  rfl

theorem seen_storeDataAbs (width : MemioWidth) (seg : SegReg) (ofs val : U32) (s : St) :
    seen h (storeDataAbs width width.size seg ofs val) s =
      ((), (s.stored width seg ofs val).view) := by
  unfold storeDataAbs decodeMemio
  rw [seen_step hh (seen_checkDataAccess hh seg ofs width.size s), seen_step hh (seen_getCpu _),
    seen_step hh (seen_loggedMemio hh (Or.inr (Or.inl rfl)) _ _ _ _), seen_pure, checked_cpu]
  rfl

/-! ## Operands of one size -/

/-- The width of an access to an operand. -/
def OpSize.width : OpSize → MemioWidth
  | .byte => .b8
  | .word => .b16
  | .long => .b32

/-- The size of the word form or of the byte form. -/
def Mode.opSize (m : Mode) (wide : Bool) : OpSize :=
  if wide then if m.data32 then .long else .word else .byte

/-- The operand size in its register. -/
def Cpu.getReg (c : Cpu) : (z : OpSize) → BitVec 3 → BitVec z.bits
  | .byte, r => c.get8 (Reg8.ofBits r)
  | .word, r => c.get16 (Reg.ofBits r)
  | .long, r => c.gen (Reg.ofBits r)

def Cpu.setReg (c : Cpu) : (z : OpSize) → BitVec 3 → BitVec z.bits → Cpu
  | .byte, r, v => c.set8 (Reg8.ofBits r) v
  | .word, r, v => c.set16 (Reg.ofBits r) v
  | .long, r, v => c.setGen (Reg.ofBits r) v

section

omit hh

theorem seen_opSize (wide : Bool) (s : St) :
    seen h (opSize wide) s = (s.cpu.mode.opSize wide, s.view) := by
  cases wide with
  | false => rfl
  | true =>
    exact (rfl : seen h (opSize true) s =
      (if s.cpu.mode.data32 then .long else .word, s.view))

theorem seen_dataSize (s : St) : seen h dataSize s = (s.cpu.mode.opSize true, s.view) :=
  seen_opSize true s

theorem seen_decodeReg (z : OpSize) (r : BitVec 3) (s : St) :
    seen h (decodeReg z r) s = ((), s.view) := by
  cases z <;> rfl

theorem seen_getReg (z : OpSize) (r : BitVec 3) (s : St) :
    seen h (getReg z r) s = (s.cpu.getReg z r, s.view) := by
  cases z <;> rfl

theorem seen_setReg (z : OpSize) (r : BitVec 3) (v : BitVec z.bits) (s : St) :
    seen h (setReg z r v) s = ((), (s.put (·.setReg z r v)).view) := by
  cases z <;> rfl

end

theorem seen_fetchDataSizeAbs (z : OpSize) (seg : SegReg) (ofs : U32) (s : St) :
    seen h (fetchDataSizeAbs z seg ofs) s =
      ((s.dataVal z.width seg ofs).setWidth z.bits, (s.loaded z.width seg ofs).view) := by
  cases z with
  | byte => exact seen_step hh (seen_fetchDataAbs hh .b8 seg ofs s)
  | word => exact seen_step hh (seen_fetchDataAbs hh .b16 seg ofs s)
  | long =>
    rw [show (s.dataVal OpSize.long.width seg ofs).setWidth OpSize.long.bits =
      s.dataVal .b32 seg ofs from BitVec.setWidth_eq _]
    exact seen_fetchDataAbs hh .b32 seg ofs s

theorem seen_storeDataSizeAbs (z : OpSize) (seg : SegReg) (ofs : U32) (v : BitVec z.bits) (s : St) :
    seen h (storeDataSizeAbs z seg ofs v) s =
      ((), (s.stored z.width seg ofs (v.setWidth 32)).view) := by
  cases z with
  | byte => exact seen_storeDataAbs hh .b8 seg ofs _ s
  | word => exact seen_storeDataAbs hh .b16 seg ofs _ s
  | long =>
    rw [show v.setWidth 32 = v from BitVec.setWidth_eq v]
    exact seen_storeDataAbs hh .b32 seg ofs v s

theorem seen_fetchDataSize (z : OpSize) (ofs : U32) (s : St) :
    seen h (fetchDataSize z ofs) s = ((s.dataVal z.width s.cpu.dataSeg ofs).setWidth z.bits,
      (s.loaded z.width s.cpu.dataSeg ofs).view) := by
  rw [← seen_fetchDataSizeAbs hh z]
  cases z <;> exact seen_step hh (seen_getDataSegment s)

theorem seen_storeDataSize (z : OpSize) (ofs : U32) (v : BitVec z.bits) (s : St) :
    seen h (storeDataSize z ofs v) s =
      ((), (s.stored z.width s.cpu.dataSeg ofs (v.setWidth 32)).view) := by
  rw [← seen_storeDataSizeAbs hh z]
  cases z <;> exact seen_step hh (seen_getDataSegment s)

theorem seen_fetchSize (z : OpSize) (s : St) : seen h (fetchSize z) s =
    ((s.code z.width s.cpu.eip).setWidth z.bits, (s.fetched z.width).view) := by
  cases z with
  | byte => exact seen_fetchByte hh s
  | word => exact seen_fetchWord hh s
  | long =>
    rw [show (s.code OpSize.long.width s.cpu.eip).setWidth OpSize.long.bits =
      s.code .b32 s.cpu.eip from BitVec.setWidth_eq _]
    exact seen_fetchLong hh s

theorem seen_fetchImm (z : OpSize) (s : St) : seen h (fetchImm z) s =
    ((s.code z.width s.cpu.eip).setWidth z.bits, (s.fetched z.width).view) := by
  unfold fetchImm
  rw [seen_step hh (seen_fetchSize hh z s), seen_step hh (seen_decode _ _)]
  exact seen_pure _ _

theorem seen_fetchImmSigned (z : OpSize) (s : St) : seen h (fetchImmSigned z) s =
    (((s.code .b8 s.cpu.eip).setWidth 8).signExtend z.bits, (s.fetched .b8).view) := by
  unfold fetchImmSigned
  rw [seen_step hh (seen_fetchByte hh s), seen_step hh (seen_decode _ _)]
  exact seen_pure _ _

/-! ## The stack -/

section

omit hh

/-- The stack pointer as an offset. -/
def Cpu.spOfs (c : Cpu) : U32 :=
  if c.mode.stack32 then c.gen .sp else (c.get16 .sp).setWidth 32

/-- The stack pointer moved; the mode says how much of it. -/
def Cpu.moveSp (c : Cpu) (delta : U32) : Cpu :=
  if c.mode.stack32 then c.setGen .sp (c.gen .sp + delta)
  else c.set16 .sp (c.get16 .sp + delta.setWidth 16)

/-- `push_word` and `push_long` -/
def St.pushed (s : St) (width : MemioWidth) (val : U32) : St :=
  (s.put (·.moveSp (-width.size))).stored width .ss (s.cpu.moveSp (-width.size)).spOfs val

/-- The value `pop_word` and `pop_long` return. -/
def St.popVal (s : St) (width : MemioWidth) : U32 := s.dataVal width .ss s.cpu.spOfs

/-- `pop_word` and `pop_long` -/
def St.popped (s : St) (width : MemioWidth) : St :=
  (s.loaded width .ss s.cpu.spOfs).put (·.moveSp width.size)

@[simp] theorem pushed_cpu (s : St) (width : MemioWidth) (val : U32) :
    (s.pushed width val).cpu = s.cpu.moveSp (-width.size) := by
  rw [St.pushed, stored_cpu, put_cpu]

@[simp] theorem popped_cpu (s : St) (width : MemioWidth) :
    (s.popped width).cpu = s.cpu.moveSp width.size := by
  rw [St.popped, put_cpu, loaded_cpu]

end

omit hh in
/-- The move of the stack pointer as the push and pop functions write it. -/
theorem moveSp_sub (c : Cpu) (width : MemioWidth) : c.moveSp (-width.size) =
    if c.mode.stack32 then c.setGen .sp (c.gen .sp - BitVec.ofNat 32 width.size.toNat)
    else c.set16 .sp (c.get16 .sp - BitVec.ofNat 16 width.size.toNat) := by
  have hneg : ∀ v : U32, v - BitVec.ofNat 32 width.size.toNat = v + -width.size := by
    intro v
    rw [BitVec.ofNat_toNat, BitVec.setWidth_eq, BitVec.sub_eq_add_neg]
  have hneg16 : ∀ v : U16, v - BitVec.ofNat 16 width.size.toNat =
      v + (-width.size).setWidth 16 := by
    intro v
    rw [BitVec.sub_eq_add_neg]
    cases width <;> rfl
  rw [hneg, hneg16]
  rfl

omit hh in
theorem moveSp_add (c : Cpu) (width : MemioWidth) : c.moveSp width.size =
    if c.mode.stack32 then c.setGen .sp (c.gen .sp + BitVec.ofNat 32 width.size.toNat)
    else c.set16 .sp (c.get16 .sp + BitVec.ofNat 16 width.size.toNat) := by
  rw [BitVec.ofNat_toNat, BitVec.ofNat_toNat, BitVec.setWidth_eq]
  rfl

/-- A push whose store is known. -/
theorem seen_pushVal (width : MemioWidth) (val : U32) {store : U32 → Emu Unit}
    (hstore : ∀ ofs s, seen h (store ofs) s = ((), (s.stored width .ss ofs val).view)) (s : St) :
    seen h (pushVal width.size.toNat store) s = ((), (s.pushed width val).view) := by
  have hmove := moveSp_sub s.cpu width
  have hput : s.put (·.moveSp (-width.size)) = s.put fun _ => s.cpu.moveSp (-width.size) :=
    put_congr rfl
  unfold pushVal St.pushed
  rw [seen_step hh (seen_getMode s), seen_ite, hput, hmove]
  split
  · next hstack =>
    rw [seen_step hh (seen_getGen _ _), seen_step hh (seen_setGen _ _ _),
      seen_step hh (seen_getGen _ _), hstore]
    simp [Cpu.spOfs, Cpu.setGen, hstack, St.put]
  · next hstack =>
    rw [seen_step hh (seen_get16 _ _), seen_step hh (seen_set16 _ _ _),
      seen_step hh (seen_get16 _ _), hstore]
    simp [Cpu.spOfs, Cpu.set16, Cpu.setGen, hstack, St.put]

theorem seen_pushWord (w : U16) (s : St) :
    seen h (pushWord w) s = ((), (s.pushed .b16 (w.setWidth 32)).view) :=
  seen_pushVal hh .b16 _ (fun ofs s => seen_storeDataAbs hh .b16 .ss ofs _ s) s

theorem seen_pushLong (w : U32) (s : St) :
    seen h (pushLong w) s = ((), (s.pushed .b32 w).view) :=
  seen_pushVal hh .b32 _ (fun ofs s => seen_storeDataAbs hh .b32 .ss ofs _ s) s

/-- A pop whose read is known. -/
theorem seen_popVal (width : MemioWidth) {fetch : U32 → Emu α} {conv : U32 → α}
    (hfetch : ∀ ofs s, seen h (fetch ofs) s =
      (conv (s.dataVal width .ss ofs), (s.loaded width .ss ofs).view)) (s : St) :
    seen h (popVal width.size.toNat fetch) s = (conv (s.popVal width), (s.popped width).view) := by
  have hmove := moveSp_add s.cpu width
  have hput : (s.loaded width .ss s.cpu.spOfs).put (·.moveSp width.size) =
      (s.loaded width .ss s.cpu.spOfs).put fun _ => s.cpu.moveSp width.size :=
    put_congr (by rw [loaded_cpu])
  unfold popVal St.popped St.popVal
  rw [seen_step hh (seen_getMode s), seen_ite, hput, hmove]
  split
  · next hstack =>
    rw [show s.cpu.spOfs = s.cpu.gen .sp from if_pos hstack, seen_step hh (seen_getGen _ _),
      seen_step hh (hfetch _ _), seen_step hh (seen_getGen _ _), seen_step hh (seen_setGen _ _ _),
      loaded_cpu, seen_pure]
    refine congrArg (fun t : St => (_, t.view)) (put_congr ?_)
    rw [loaded_cpu]
  · next hstack =>
    rw [show s.cpu.spOfs = (s.cpu.get16 .sp).setWidth 32 from if_neg hstack,
      seen_step hh (seen_get16 _ _), seen_step hh (hfetch _ _), seen_step hh (seen_get16 _ _),
      seen_step hh (seen_set16 _ _ _), loaded_cpu, seen_pure]
    refine congrArg (fun t : St => (_, t.view)) (put_congr ?_)
    rw [loaded_cpu]

theorem seen_popWord (s : St) :
    seen h popWord s = ((s.popVal .b16).setWidth 16, (s.popped .b16).view) := by
  refine seen_popVal hh .b16 (fun ofs s => ?_) s
  exact seen_fetchDataSizeAbs hh .word .ss ofs s

theorem seen_popLong (s : St) : seen h popLong s = (s.popVal .b32, (s.popped .b32).view) := by
  have hfetch : ∀ ofs s, seen h (fetchDataLongAbs .ss ofs) s =
      (id (s.dataVal .b32 .ss ofs), (s.loaded .b32 .ss ofs).view) :=
    fun ofs s => seen_fetchDataAbs hh .b32 .ss ofs s
  exact seen_popVal hh .b32 hfetch s

end

end X86Emu
