import X86Emu.Ops.Table

/-!
# Register and code traces

`log_regs` and `log_code`, and the text of the exit messages.
-/

namespace X86Emu

open Lib

/-! ## Registers -/

/-- A label followed by 8 digits. -/
def field8 (label : String) (v : U32) : List Char := label.toList ++ decodeHex8 v

/-- A label followed by 4 digits. -/
def field4 (label : String) (v : U16) : List Char := label.toList ++ decodeHex4 (v.setWidth 32)

def genText (c : Cpu) : List Char :=
  field8 "\neax " (c.gen .ax) ++ field8 ", ebx " (c.gen .bx) ++
  field8 ", ecx " (c.gen .cx) ++ field8 ", edx " (c.gen .dx) ++
  field8 "\nesi " (c.gen .si) ++ field8 ", edi " (c.gen .di) ++
  field8 ", ebp " (c.gen .bp) ++ field8 ", esp " (c.gen .sp)

def segText (c : Cpu) : List Char :=
  field4 "\ncs " (c.seg .cs).sel ++ field4 ", ss " (c.seg .ss).sel ++
  field4 ", ds " (c.seg .ds).sel ++ field4 ", es " (c.seg .es).sel ++
  field4 ", fs " (c.seg .fs).sel ++ field4 ", gs " (c.seg .gs).sel

def Flag.text : Flag → String
  | .cf => " cf" | .pf => " pf" | .af => " af" | .zf => " zf" | .sf => " sf"
  | .tf => " tf" | .if' => " if" | .df => " df" | .of => " of"

/-- The flags `log_regs` names, in its order. -/
def namedFlags : List Flag := [.of, .df, .if', .sf, .zf, .af, .pf, .cf]

def flagsText (c : Cpu) : List Char :=
  namedFlags.flatMap fun f => flagText (c.flag f) f.text

def xmmLine (c : Cpu) (i : BitVec 3) : List Char :=
  "\n".toList ++ (xmmName i).toList ++ " ".toList ++ decodeHex32 (c.xmm i)

/-- `CR4_OSFXSR` is set -/
def Cpu.osfxsr (c : Cpu) : Bool := (c.crx 4).getLsbD 9

def xmmText (c : Cpu) : List Char :=
  if c.osfxsr then
    ((List.range 8).flatMap fun i => xmmLine c (BitVec.ofNat 3 i)) ++ "\n".toList
  else []

def regsText (c : Cpu) : List Char :=
  genText c ++ segText c ++ field8 "\neip " c.eip ++ field8 ", eflags " c.eflg ++
    flagsText c ++ xmmText c ++ "\n".toList

def logRegs (h : Host) (s : St) : St :=
  logLine 512 (·.has traceRegs) (fun s => regsText s.cpu) h s

/-! ## Code -/

/-- `R_TSC` -/
def St.tsc (s : St) : U64 := s.msr 0x10

/-- `R_LAST_REAL_TSC` -/
def St.lastRealTsc (s : St) : U64 := s.msr 0x11

/-- `R_REAL_TSC` -/
def St.realTsc (s : St) : U64 := s.msr 0x12

/-- `decode_hex` of a time stamp, of which it takes the low 32 bits -/
def tscText (v : U64) : List Char := decodeHex (v.setWidth 32)

def timeText (s : St) : List Char :=
  if s.log.has traceTime then " +".toList ++ tscText (s.realTsc - s.lastRealTsc) else []

def addrText (c : Cpu) : List Char :=
  decodeHex4 (c.savedCs.setWidth 32) ++ ":".toList ++
    (if c.mode.code32 then decodeHex8 c.savedEip else decodeHex4 c.savedEip)

/-- The instruction bytes, padded. -/
def bytesText (bytes : List U8) : List Char :=
  (bytes.flatMap fun b => decodeHex2 (b.setWidth 32)) ++
    List.replicate (2 * (12 - bytes.length)) ' '

def codeText (s : St) : List Char :=
  tscText s.tsc ++ timeText s ++ " ".toList ++ addrText s.cpu ++ " ".toList ++
    bytesText s.instrBuf ++ " ".toList ++ s.disasm ++ "\n".toList

def logCode (h : Host) (s : St) : St := logLine 512 (·.has traceCode) codeText h s

/-! ## Exit messages -/

def runTimeout : U32 := 1
def runMaxInstr : U32 := 2
def runNoExec : U32 := 4
def runNoCode : U32 := 8
def runLoopFlag : U32 := 16

/-- The messages at the end of `x86emu_run`, in order, with the bits of `rs` they stand for. -/
def exitMessages : List (U32 × String) :=
  [(runTimeout, "* timeout\n"), (runMaxInstr, "* too many instructions\n"),
   (runNoExec, "* memory not executable\n"), (runNoCode, "* no proper code\n"),
   (runLoopFlag, "* infinite loop\n")]

def exitText (rs : U32) : List Char :=
  exitMessages.flatMap fun (bit, text) => flagText (rs &&& bit ≠ 0) text

/-- The exit messages are written whatever space is left. -/
def logExit (rs : U32) (s : St) : St :=
  match s.log.buf with
  | none => s
  | some b => s.setBuf (b.put (exitText rs)).nul

end X86Emu
