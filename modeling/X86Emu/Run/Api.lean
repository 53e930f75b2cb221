import X86Emu.Memory.Memio
import X86Emu.Run.Steps

/-!
# The interface

`x86emu_new`, `x86emu_reset`, the MSR handlers that `x86emu_new` installs, and sequences of calls
of the functions that write the log.
-/

namespace X86Emu

/-! ## Default handlers -/

/-- `R_ECX` as an index of `msr` -/
def St.msrIndex (s : St) : Nat := (s.cpu.gen .cx).toNat

def x86emuRdmsr (s : St) : St :=
  let v := s.msr s.msrIndex
  let cpu := (s.cpu.setGen .dx (v.extractLsb' 32 32)).setGen .ax (v.extractLsb' 0 32)
  { s with cpu := cpu }.markMsr s.msrIndex accRead

def x86emuWrmsr (s : St) : St :=
  (s.setMsr s.msrIndex ((s.cpu.gen .dx) ++ (s.cpu.gen .ax))).markMsr s.msrIndex accWrite

/-- The handlers of a new emulator, on a host whose ports return `inp`. -/
def defaultHost (inp : PortInput) : Host :=
  { memio := vmMemio inp, rdmsr := some x86emuRdmsr, wrmsr := some x86emuWrmsr }

/-- The handlers `x86emu_new` installs and no other callback, with any ports and clocks. -/
structure Host.Default (inp : PortInput) (h : Host) : Prop where
  memio : h.memio = vmMemio inp
  codeCheck : h.codeCheck = none
  cpuid : h.cpuid = none
  intr : h.intr = none
  flush : h.flush = none
  rdmsr : h.rdmsr = some x86emuRdmsr
  wrmsr : h.wrmsr = some x86emuWrmsr

theorem defaultHost_default (inp : PortInput) : (defaultHost inp).Default inp :=
  ⟨rfl, rfl, rfl, rfl, rfl, rfl, rfl⟩

/-- The default handlers change memory, ports, two registers and the MSRs. -/
theorem defaultHost_respects (inp : PortInput) {R : St → St → Prop}
    (memio : ∀ s mem io, R s { s with mem := mem, io := io })
    (rdmsr : ∀ s, R s (x86emuRdmsr s)) (wrmsr : ∀ s, R s (x86emuWrmsr s)) :
    (defaultHost inp).Respects R where
  memio s kind bits addr val := by
    obtain ⟨mem, io, hframe⟩ := vmMemio_frame inp s kind bits addr val
    show R s (vmMemio inp s kind bits addr val).2
    rw [hframe]
    exact memio s mem io
  codeCheck hf := by cases hf
  cpuid hf := by cases hf
  intr hf := by cases hf
  rdmsr hf s := by
    cases hf
    exact rdmsr s
  wrmsr hf s := by
    cases hf
    exact wrmsr s
  flush hf := by cases hf

/-! ## A new emulator -/

def resetSel (r : SegReg) : Sel :=
  match r with
  | .cs => { sel := 0xf000, base := 0xf0000, limit := 0xffff, acc := 0x9b }
  | .noseg => {}
  | _ => { limit := 0xffff, acc := 0x93 }

def resetCpu : Cpu :=
  { eflg := 2, seg := resetSel, eip := 0xfff0, gdtLimit := 0xffff, idtLimit := 0xffff }

/-- The permissions of the three counters. -/
def resetMsrPerm (u : Nat) : U8 := if 0x10 ≤ u ∧ u ≤ 0x12 then accExec else 0

def x86emuReset (s : St) : St :=
  { s with
    cpu := resetCpu
    msr := fun _ => 0
    msrPerm := resetMsrPerm
    instrBuf := []
    disasm := []
    intr := {}
    intrStats := fun _ => 0
    debugStart := 0
    debugLen := 0 }

/-- `x86emu_set_io_perm` for all ports -/
def setIoPermAll (h : Host) (perm : U32) (s : St) : St :=
  let needed := U8.has (perm.setWidth 8) (permR ||| permW)
  { s with io := { s.io with
    map := fun _ => perm.setWidth 8
    ioplNeeded := needed
    ioplOk := !(needed && !h.iopl3) } }

def x86emuNew (h : Host) (defMemPerm defIoPerm : U32) : St :=
  let s : St := { mem := emuMemNew defMemPerm, io := { ioplOk := false } }
  x86emuReset (if defIoPerm ≠ 0 then setIoPermAll h defIoPerm s else s)

/-- A memory in which everything is allowed and all pages hold the same bytes. -/
def fullMem (bytes : BitVec 12 → U8) : Mem :=
  { pdir := some fun _ => some fun _ =>
      { alloc := some { attr := fun _ => permRwx ||| permValid, own := bytes } } }

/-! ## Calls -/

/-- The calls that write the log, and the assignment of the trace flags. -/
inductive ApiCall
  | run (flags : U32) (fuel : Nat)
  | log (text : Option (List Char))
  | clearLog (flush : Bool)
  | dump (flags : U32)
  | setTrace (flags : U32)

def ApiCall.exec (h : Host) : ApiCall → St → St
  | .run flags fuel, s => (x86emuRun h flags fuel s).2
  | .log text, s => x86emuLog h text s
  | .clearLog flush, s => (x86emuClearLog h flush s).2
  | .dump flags, s => x86emuDump h flags s
  | .setTrace flags, s => s.setTrace fun _ => flags

def execCalls (h : Host) (calls : List ApiCall) (s : St) : St :=
  calls.foldl (fun s call => call.exec h s) s

end X86Emu
