import X86Emu.Lib.Generated
import X86Emu.Machine.Log
import X86Emu.Memory.Paged

/-!
# The emulator monad

Every opcode handler is an `Emu` program: a state transformer built from the primitive ones of
`EmuPrim`. `CpuWrite` lists the writes to the register file; the other primitives are the
memory handler, the disassembly and instruction buffers, the log writers, raising an
interrupt, and the host's CPUID and MSR handlers.

The flag primitives of `prim_ops.c` are `FlagOp` programs, which only read `EFLAGS` and set or
clear single flags.
-/

namespace X86Emu

open Lib

/-! ## Flag programs -/

/-- The primitive operations on the flags word. -/
inductive FlagPrim : ∀ {β : Type}, Trans Unit U32 β → Prop
  | access (f : Flag) : FlagPrim (fun _ fl => (fl.getLsbD f.bit, fl))
  | set (f : Flag) : FlagPrim (fun _ fl => ((), fl ||| f.mask))
  | clear (f : Flag) : FlagPrim (fun _ fl => ((), fl &&& ~~~f.mask))
  | toggle (f : Flag) : FlagPrim (fun _ fl => ((), fl ^^^ f.mask))

abbrev FlagOp : Type → Type := Prog FlagPrim

/-- `ACCESS_FLAG` -/
def accessFlag (f : Flag) : FlagOp Bool := .ofPrim _ (.access f)

/-- `SET_FLAG` -/
def setFlag (f : Flag) : FlagOp Unit := .ofPrim _ (.set f)

/-- `CLEAR_FLAG` -/
def clearFlag (f : Flag) : FlagOp Unit := .ofPrim _ (.clear f)

/-- `TOGGLE_FLAG` -/
def toggleFlag (f : Flag) : FlagOp Unit := .ofPrim _ (.toggle f)

/-- `CONDITIONAL_SET_FLAG` -/
def condSet (c : Bool) (f : Flag) : FlagOp Unit := if c then setFlag f else clearFlag f

/-! ## Primitive operations -/

/-- The segment caches `x86emu_set_seg_register` is called with. -/
inductive SelRef
  | seg (r : SegReg)
  | ldt
  deriving DecidableEq, Repr

def Cpu.getSel (c : Cpu) : SelRef → Sel
  | .seg r => c.seg r
  | .ldt => c.ldt

def Cpu.setSel (c : Cpu) (ref : SelRef) (v : Sel) : Cpu :=
  match ref with
  | .seg r => { c with seg := Function.update c.seg r v }
  | .ldt => { c with ldt := v }

def Cpu.setGen (c : Cpu) (r : Reg) (v : U32) : Cpu :=
  { c with gen := Function.update c.gen r v }

/-- The writes to the register file. -/
inductive CpuWrite : (Cpu → Cpu) → Prop
  | gen (r : Reg) (v : U32) : CpuWrite (fun c => c.setGen r v)
  | eip (v : U32) : CpuWrite (fun c => { c with eip := v })
  | eflg (v : U32) : CpuWrite (fun c => { c with eflg := v })
  | xmm (r : BitVec 3) (v : Fin 16 → U8) :
      CpuWrite (fun c => { c with xmm := Function.update c.xmm r v })
  | sel (ref : SelRef) (v : Sel) : CpuWrite (fun c => c.setSel ref v)
  | tr (v : U16) : CpuWrite (fun c => { c with tr := { c.tr with sel := v } })
  | crx (i : BitVec 3) (v : U32) :
      CpuWrite (fun c => { c with crx := Function.update c.crx i v })
  | drx (i : BitVec 3) (v : U32) :
      CpuWrite (fun c => { c with drx := Function.update c.drx i v })
  | gdt (base limit : U32) : CpuWrite (fun c => { c with gdtBase := base, gdtLimit := limit })
  | idt (base limit : U32) : CpuWrite (fun c => { c with idtBase := base, idtLimit := limit })
  | segDsSs : CpuWrite (fun c => { c with mode := { c.mode with segDsSs := true } })
  | stop : CpuWrite (fun c => { c with mode := { c.mode with halted := true } })

/-- `x86emu_intr_raise` -/
def x86emuIntrRaise (nr : U8) (type err : U32) (s : St) : St :=
  let s := { s with hist := .raise nr type err :: s.hist }
  if s.intr.type = 0 then { s with intr := ⟨nr, type, err⟩ } else s

/-- A call of `emu->memio`, recorded in `hist`. -/
def callMemio (kind : MemioKind) (bits : MemioBits) (addr val : U32) (h : Host) (s : St) :
    (U32 × Bool) × St :=
  let (res, s) := h.memio s kind bits addr val
  (res, { s with hist := .memio kind bits addr res.1 res.2 :: s.hist })

/-- `x86emu_stop` after a failed instruction fetch, which `hist` records. -/
def fetchStop (addr : U32) (s : St) : St :=
  { s with
    cpu := { s.cpu with mode := { s.cpu.mode with halted := true } }
    hist := .fetchError addr :: s.hist }

/-- A division of C is evaluated. -/
def recordDivision (d : CDivision) (s : St) : St := { s with divisions := d :: s.divisions }

/-- A handler of the host, when there is one; whether there is one. -/
def callHandler (f : Option (St → St)) (s : St) : Bool × St :=
  match f with
  | some f => (true, f s)
  | none => (false, s)

/-- The debug record of the short jump; `debug_len` is a positive signed byte. -/
def setDebugRecord (start : U32) (ofs : U8) (s : St) : St :=
  if (1 : Int) ≤ ofs.toInt then
    { s with debugStart := start, debugLen := ofs.signExtend 32 }
  else s

/-- `sizeof x86.instr_buf` -/
def instrBufSize : Nat := 32

/-- The capture of fetched bytes, all of them or none. -/
def captureBytes (bytes : List U8) (s : St) : St :=
  if s.instrBuf.length + bytes.length ≤ instrBufSize then
    { s with instrBuf := s.instrBuf ++ bytes }
  else s

/-- `msr_perm[u] |= a` -/
def St.markMsr (s : St) (u : Nat) (a : U8) : St :=
  { s with msrPerm := Function.update s.msrPerm u (s.msrPerm u ||| a) }

/-- The primitive operations of the opcode handlers. -/
inductive EmuPrim : ∀ {β : Type}, Trans Host St β → Prop
  | getCpu : EmuPrim (fun _ s => (s.cpu, s))
  | putCpu {f : Cpu → Cpu} (hf : CpuWrite f) :
      EmuPrim (fun _ s => ((), { s with cpu := f s.cpu }))
  | flags {α : Type} (x : FlagOp α) :
      EmuPrim (fun _ s => ((x.run () s.cpu.eflg).1,
        { s with cpu := { s.cpu with eflg := (x.run () s.cpu.eflg).2 } }))
  | disasm (t : List Char) : EmuPrim (fun _ s => ((), { s with disasm := s.disasm ++ t }))
  | capture (bytes : List U8) : EmuPrim (fun _ s => ((), captureBytes bytes s))
  | memio (kind : MemioKind) (width : MemioWidth) (addr val : U32) :
      EmuPrim (callMemio kind width.bits addr val)
  | fetchStop (addr : U32) : EmuPrim (fun _ s => ((), fetchStop addr s))
  | log (thr : U32) (guard : Log → Bool) (text : St → List Char)
      (ht : ∀ s, (text s).length < thr.toNat) :
      EmuPrim (fun h s => ((), logLine thr guard text h s))
  | raise (nr : U8) (type err : U32) :
      EmuPrim (fun _ s => ((), x86emuIntrRaise nr type err s))
  | division (d : CDivision) : EmuPrim (fun _ s => ((d.quot, d.rem), recordDivision d s))
  | cpuid : EmuPrim (fun h s => callHandler h.cpuid s)
  | hasCpuid : EmuPrim (fun h s => (h.cpuid.isSome, s))
  | rdmsr : EmuPrim (fun h s => callHandler h.rdmsr s)
  | wrmsr : EmuPrim (fun h s => callHandler h.wrmsr s)
  | rdtsc : EmuPrim (fun _ s => (s.msr 0x10, s.markMsr 0x10 accRead))
  | tracing (flag : U32) : EmuPrim (fun _ s => (s.log.has flag, s))
  | debugRecord (start : U32) (ofs : U8) :
      EmuPrim (fun _ s => ((), setDebugRecord start ofs s))

abbrev Emu : Type → Type := Prog EmuPrim

def getCpu : Emu Cpu := .ofPrim _ .getCpu

/-- The bits of `x86.mode`, read where the source uses a `MODE_*` macro. -/
def getMode : Emu Mode := do return (← getCpu).mode

def setGen (r : Reg) (v : U32) : Emu Unit := .ofPrim _ (.putCpu (.gen r v))
def setEip (v : U32) : Emu Unit := .ofPrim _ (.putCpu (.eip v))
def setEflg (v : U32) : Emu Unit := .ofPrim _ (.putCpu (.eflg v))
def setXmm (r : BitVec 3) (v : Fin 16 → U8) : Emu Unit := .ofPrim _ (.putCpu (.xmm r v))
def setSel (ref : SelRef) (v : Sel) : Emu Unit := .ofPrim _ (.putCpu (.sel ref v))
def setTr (v : U16) : Emu Unit := .ofPrim _ (.putCpu (.tr v))
def setCrx (i : BitVec 3) (v : U32) : Emu Unit := .ofPrim _ (.putCpu (.crx i v))
def setDrx (i : BitVec 3) (v : U32) : Emu Unit := .ofPrim _ (.putCpu (.drx i v))
def setGdt (base limit : U32) : Emu Unit := .ofPrim _ (.putCpu (.gdt base limit))
def setIdt (base limit : U32) : Emu Unit := .ofPrim _ (.putCpu (.idt base limit))
def setSegDsSs : Emu Unit := .ofPrim _ (.putCpu .segDsSs)

/-- `x86emu_stop` -/
def x86emuStop : Emu Unit := .ofPrim _ (.putCpu .stop)

/-- A flag program run on `EFLAGS`. -/
def flags {α : Type} (x : FlagOp α) : Emu α := .ofPrim _ (.flags x)

/-- Append to the disassembly: `OP_DECODE` and the `DECODE_HEX*` macros. -/
def decode (t : List Char) : Emu Unit := .ofPrim _ (.disasm t)

/-- `OP_DECODE` -/
def opDecode (t : String) : Emu Unit := decode t.toList

/-- `x86emu_stop` after an error of `memio` -/
def stopFetch (addr : U32) : Emu Unit := .ofPrim _ (.fetchStop addr)

def capture (bytes : List U8) : Emu Unit := .ofPrim _ (.capture bytes)

def memio (kind : MemioKind) (width : MemioWidth) (addr val : U32) : Emu (U32 × Bool) :=
  .ofPrim _ (.memio kind width addr val)

def writeLog (thr : U32) (guard : Log → Bool) (text : St → List Char)
    (ht : ∀ s, (text s).length < thr.toNat) : Emu Unit :=
  .ofPrim _ (.log thr guard text ht)

def intrRaise (nr : U8) (type err : U32) : Emu Unit := .ofPrim _ (.raise nr type err)

/-- `INTR_RAISE_DIV0` -/
def intrRaiseDiv0 : Emu Unit := intrRaise 0 (intrTypeSoft ||| intrModeRestart) 0

/-- `INTR_RAISE_SOFT` -/
def intrRaiseSoft (nr : U8) : Emu Unit := intrRaise nr intrTypeSoft 0

/-- `INTR_RAISE_GP` -/
def intrRaiseGp (err : U32) : Emu Unit :=
  intrRaise 0x0d (intrTypeFault ||| intrModeRestart ||| intrModeErrcode) err

/-- `INTR_RAISE_UD` -/
def intrRaiseUd : Emu Unit := intrRaise 0x06 (intrTypeFault ||| intrModeRestart) 0

/-- `/` and `%` of C on the same operands. -/
def cDivMod {w : Nat} (signed : Bool) (num den : BitVec w) : Emu (BitVec w × BitVec w) :=
  .ofPrim _ (.division ⟨signed, w, num, den⟩)

def callCpuid : Emu Bool := .ofPrim _ .cpuid
def hasCpuid : Emu Bool := .ofPrim _ .hasCpuid
def callRdmsr : Emu Bool := .ofPrim _ .rdmsr
def callWrmsr : Emu Bool := .ofPrim _ .wrmsr
def readTsc : Emu U64 := .ofPrim _ .rdtsc
def tracing (flag : U32) : Emu Bool := .ofPrim _ (.tracing flag)

def debugRecord (start : U32) (ofs : U8) : Emu Unit := .ofPrim _ (.debugRecord start ofs)

/-! ## Parts of registers -/

/-- The low 16 bits replaced. -/
def setLo16 (v : U32) (x : U16) : U32 := v.extractLsb' 16 16 ++ x

/-- The low byte replaced. -/
def setLo8 (v : U32) (x : U8) : U32 := v.extractLsb' 8 24 ++ x

/-- The second byte replaced. -/
def setHi8 (v : U32) (x : U8) : U32 := v.extractLsb' 16 16 ++ x ++ v.extractLsb' 0 8

def Cpu.get16 (c : Cpu) (r : Reg) : U16 := (c.gen r).setWidth 16

/-- The register a byte register is part of, and whether it is its second byte. -/
def Reg8.parent : Reg8 → Reg × Bool
  | .al => (.ax, false)
  | .cl => (.cx, false)
  | .dl => (.dx, false)
  | .bl => (.bx, false)
  | .ah => (.ax, true)
  | .ch => (.cx, true)
  | .dh => (.dx, true)
  | .bh => (.bx, true)

def Cpu.get8 (c : Cpu) (r : Reg8) : U8 :=
  (c.gen r.parent.1).extractLsb' (if r.parent.2 then 8 else 0) 8

/-- `R_IP` -/
def Cpu.ip (c : Cpu) : U16 := c.eip.setWidth 16

def getGen (r : Reg) : Emu U32 := do return (← getCpu).gen r
def get16 (r : Reg) : Emu U16 := do return (← getCpu).get16 r
def get8 (r : Reg8) : Emu U8 := do return (← getCpu).get8 r
def getEip : Emu U32 := do return (← getCpu).eip

def set16 (r : Reg) (v : U16) : Emu Unit := do
  setGen r (setLo16 (← getGen r) v)

def set8 (r : Reg8) (v : U8) : Emu Unit := do
  let old ← getGen r.parent.1
  setGen r.parent.1 (if r.parent.2 then setHi8 old v else setLo8 old v)

end X86Emu
