import Mathlib.Algebra.Group.Nat.Defs
import Mathlib.Logic.Function.Basic
import X86Emu.Lib.Divide

/-!
# Data types of the emulator

The records of `include/x86emu.h`. Machine integers are bit vectors of the width they have in
the source. The bits of `x86.mode` are the fields of `Mode`; a general register is named by
`Reg` and its 16 and 8 bit parts by `Reg` and `Reg8`; a segment register by `SegReg`, where
`noseg` is the spare entry `seg[R_NOSEG_INDEX]`.

Some fields are not in the source. `St.hist` records the calls of the memory handler, the failed
instruction fetches, what was raised and delivered, and the instructions, `St.divisions` the
divisions that C evaluates, `LogBuf.lo` and `LogBuf.hi` bound the offsets at which a byte was
written into the log buffer, and `St.clock` counts the readings of the host's clocks. No function of
the model reads the first four.
-/

namespace X86Emu

abbrev U8 : Type := BitVec 8
abbrev U16 : Type := BitVec 16
abbrev U32 : Type := BitVec 32
abbrev U64 : Type := BitVec 64

/-- The bytes of an XMM register are numbered modulo 16. -/
instance xmmBytes : @NeZero Nat Zero.ofOfNat0 16 := ⟨by decide⟩

/-! ## Registers -/

/-- The general registers, in the order of the `reg` and `r/m` fields. -/
inductive Reg
  | ax | cx | dx | bx | sp | bp | si | di
  deriving DecidableEq, Repr

/-- The byte registers, in the order of the `reg` and `r/m` fields. -/
inductive Reg8
  | al | cl | dl | bl | ah | ch | dh | bh
  deriving DecidableEq, Repr

/-- The entries of `x86.seg`. -/
inductive SegReg
  | es | cs | ss | ds | fs | gs | noseg
  deriving DecidableEq, Repr

/-- `sel_t`: a selector with its descriptor cache. -/
structure Sel where
  base : U32 := 0
  limit : U32 := 0
  sel : U16 := 0
  acc : U16 := 0
  deriving DecidableEq, Repr

def accG (a : U16) : Bool := a.getLsbD 11
def accD (a : U16) : Bool := a.getLsbD 10
def accP (a : U16) : Bool := a.getLsbD 7
def accDpl (a : U16) : BitVec 2 := a.extractLsb' 5 2
def accS (a : U16) : Bool := a.getLsbD 4
def accE (a : U16) : Bool := a.getLsbD 3
def accEd (a : U16) : Bool := a.getLsbD 2
def accC (a : U16) : Bool := a.getLsbD 2
def accW (a : U16) : Bool := a.getLsbD 1
def accR (a : U16) : Bool := a.getLsbD 1
def accA (a : U16) : Bool := a.getLsbD 0

/-- The bits `_MODE_*` of `x86.mode`. -/
structure Mode where
  segDsSs : Bool := false
  repe : Bool := false
  repne : Bool := false
  data32 : Bool := false
  addr32 : Bool := false
  stack32 : Bool := false
  code32 : Bool := false
  halted : Bool := false
  deriving DecidableEq, Repr

/-- `MODE_REP` -/
def Mode.rep (m : Mode) : Bool := m.repe || m.repne

/-- The flags the emulator sets and clears one by one. -/
inductive Flag
  | cf | pf | af | zf | sf | tf | if' | df | of
  deriving DecidableEq, Repr

def Flag.bit : Flag → Nat
  | cf => 0
  | pf => 2
  | af => 4
  | zf => 6
  | sf => 7
  | tf => 8
  | if' => 9
  | df => 10
  | of => 11

def Flag.mask (f : Flag) : U32 := BitVec.twoPow 32 f.bit

/-- `F_ALWAYS_ON` -/
def fAlwaysOn : U32 := 2

/-- `F_MSK` -/
def fMsk : U32 := 0xfd5

/-- `FB_ID` -/
def fbId : U32 := 0x200000

/-- The registers and the decoder's view of the current instruction. -/
structure Cpu where
  gen : Reg → U32 := fun _ => 0
  eip : U32 := 0
  /-- `spc.FLAGS`, named `R_FLG` and `R_EFLG` -/
  eflg : U32 := 0
  xmm : BitVec 3 → Fin 16 → U8 := fun _ _ => 0
  seg : SegReg → Sel := fun _ => {}
  ldt : Sel := {}
  tr : Sel := {}
  crx : BitVec 3 → U32 := fun _ => 0
  drx : BitVec 3 → U32 := fun _ => 0
  gdtBase : U32 := 0
  gdtLimit : U32 := 0
  idtBase : U32 := 0
  idtLimit : U32 := 0
  mode : Mode := {}
  defaultSeg : Option SegReg := none
  savedEip : U32 := 0
  savedCs : U16 := 0
  decodeSeg : List Char := []

/-- `MODE_PROTECTED` -/
def Cpu.prot (c : Cpu) : Bool := (c.crx 0).getLsbD 0

/-- `ACCESS_FLAG` -/
def Cpu.flag (c : Cpu) (f : Flag) : Bool := c.eflg.getLsbD f.bit

/-- The pending interrupt: `intr_nr`, `intr_type` and `intr_errcode`. -/
structure Intr where
  nr : U8 := 0
  type : U32 := 0
  errcode : U32 := 0
  deriving DecidableEq, Repr

def intrTypeSoft : U32 := 1
def intrTypeFault : U32 := 2
def intrModeRestart : U32 := 0x100
def intrModeErrcode : U32 := 0x200

/-! ## Memory and ports -/

/-- What `page.data` points to: the second half of the page's own allocation, or an address of the
host given to `x86emu_set_page`. -/
inductive PageData
  | own
  | host (address : Nat)
  deriving DecidableEq, Repr

/-- The allocation of a page: its attributes and the data half behind them, `own`. -/
structure PageMem where
  attr : BitVec 12 → U8
  own : BitVec 12 → U8 := fun _ => 0
  data : PageData := .own

/-- `mem2_page_t`; `alloc` is `none` when `page.attr` and `page.data` are `NULL`, which they only
are together. -/
structure Page where
  alloc : Option PageMem := none
  defAttr : U8 := 0

abbrev PTable : Type := BitVec 10 → Page
abbrev PDir : Type := BitVec 10 → Option PTable

/-- `x86emu_mem_t`, together with the host memory that pages may be mapped to. -/
structure Mem where
  pdir : Option PDir := none
  invalid : Bool := false
  defAttr : U8 := 0
  host : Nat → U8 := fun _ => 0

inductive MemioKind
  | r | w | x | i | o
  deriving DecidableEq, Repr

inductive MemioBits
  | b8 | b16 | b32 | b8noperm
  deriving DecidableEq, Repr

/-- The widths of the accesses that instructions make. -/
inductive MemioWidth
  | b8 | b16 | b32
  deriving DecidableEq, Repr

def MemioWidth.bits : MemioWidth → MemioBits
  | b8 => .b8
  | b16 => .b16
  | b32 => .b32

/-- An access of the host's ports: `inb`, `inw`, `inl` or `outb`, `outw`, `outl`. -/
inductive PortEvent
  | inp (port : U16) (bits : MemioBits)
  | out (port : U16) (bits : MemioBits) (val : U32)
  deriving DecidableEq, Repr

structure Io where
  map : U16 → U8 := fun _ => 0
  statsI : U16 → U32 := fun _ => 0
  statsO : U16 → U32 := fun _ => 0
  ioplNeeded : Bool := false
  ioplOk : Bool := true
  /-- the port accesses made so far, the last one first -/
  events : List PortEvent := []

/-! ## Log -/

/-- The log buffer: `size`, the offset `ptr` of `log.ptr` in it, and the text below `ptr`. -/
structure LogBuf where
  size : U32
  ptr : Int := 0
  text : List Char := []
  /-- the lowest offset written so far -/
  lo : Int := 0
  /-- one more than the highest offset written so far -/
  hi : Int := 0
  deriving DecidableEq, Repr

/-- `emu->log`; `buf` is `none` when `log.buf` and `log.ptr` are `NULL`. -/
structure Log where
  trace : U32 := 0
  buf : Option LogBuf := none
  deriving DecidableEq, Repr

def traceRegs : U32 := 1
def traceCode : U32 := 2
def traceData : U32 := 4
def traceAcc : U32 := 8
def traceIo : U32 := 16
def traceInts : U32 := 32
def traceTime : U32 := 64
def traceDebug : U32 := 128

def Log.has (l : Log) (flag : U32) : Bool := l.trace &&& flag != 0

/-! ## The emulator -/

inductive Event
  | memio (kind : MemioKind) (bits : MemioBits) (addr val : U32) (err : Bool)
  | raise (nr : U8) (type errcode : U32)
  | deliver (nr : U8) (type : U32)
  | fetchError (addr : U32)
  | instr (op1 : U8)
  deriving DecidableEq, Repr

/-- `x86emu_t` without the handlers. -/
structure St where
  cpu : Cpu := {}
  msr : Nat → U64 := fun _ => 0
  msrPerm : Nat → U8 := fun _ => 0
  /-- the bytes of `instr_buf` below `instr_len` -/
  instrBuf : List U8 := []
  /-- the text in `disasm_buf` below `disasm_ptr` -/
  disasm : List Char := []
  intr : Intr := {}
  intrStats : U8 → U32 := fun _ => 0
  debugStart : U32 := 0
  debugLen : U32 := 0
  mem : Mem := {}
  io : Io := {}
  log : Log := {}
  timeout : U32 := 0
  maxInstr : U64 := 0
  clock : Nat := 0
  hist : List Event := []
  divisions : List Lib.CDivision := []

/-- The host: its ports, its clocks, and the handlers and the flush function it installs. -/
structure Host where
  memio : St → MemioKind → MemioBits → U32 → U32 → (U32 × Bool) × St
  codeCheck : Option (St → Bool × St) := none
  cpuid : Option (St → St) := none
  intr : Option (St → U8 → U32 → Bool × St) := none
  wrmsr : Option (St → St)
  rdmsr : Option (St → St)
  flush : Option (St → List Char → St) := none
  /-- `getiopl() == 3` -/
  iopl3 : Bool := true
  /-- the value of `tsc()` at its `n`-th reading -/
  tsc : Nat → U64 := fun _ => 0
  /-- the value of `time(NULL)` at its `n`-th reading -/
  time : Nat → Int := fun _ => 0
  /-- `%.2f` of the quotient of two time stamps -/
  ratio : U64 → U64 → List Char := fun _ _ => []

end X86Emu
