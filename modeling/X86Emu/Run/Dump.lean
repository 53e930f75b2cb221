import X86Emu.Run.Trace

/-!
# The dump

`x86emu_dump` and `dump_data`. Everything they write goes through `x86emu_log`.
-/

namespace X86Emu

/-! ## Formats -/

/-- A number in base 16, padded on the left. -/
def hexPad (pad : Char) (width n : Nat) : List Char :=
  let digits := Nat.toDigits 16 n
  List.replicate (width - digits.length) pad ++ digits

/-- `%08x` -/
def hex8 (v : U32) : List Char := hexPad '0' 8 v.toNat

/-- `%04x` -/
def hex4 (v : U32) : List Char := hexPad '0' 4 v.toNat

def logText (h : Host) (text : List Char) (s : St) : St := x86emuLog h (some text) s

def logStr (h : Host) (text : String) (s : St) : St := logText h text.toList s

/-- A `for` loop over `0, …, n - 1` on the state. -/
def stLoop (n : Nat) (body : Nat → St → St) (s : St) : St :=
  (List.range n).foldl (fun s i => body i s) s

/-! ## Memory -/

def dumpRegs : U32 := 1
def dumpMem : U32 := 2
def dumpAccMem : U32 := 4
def dumpInvMem : U32 := 8
def dumpAttr : U32 := 16
def dumpAscii : U32 := 32
def dumpIo : U32 := 64
def dumpInts : U32 := 128
def dumpTime : U32 := 256

/-- Which bytes `dump_data` shows. -/
inductive DumpKind
  | valid | accessed | invalid
  deriving DecidableEq, Repr

def DumpKind.shows (k : DumpKind) (attr : U8) : Bool :=
  match k with
  | .valid => attr.has permValid
  | .accessed => attr.has (accRead ||| accWrite ||| accExec ||| accInvalid)
  | .invalid => attr.has accInvalid

/-- `dump_flags & 0xff` -/
def dumpKind (flags : U32) : DumpKind :=
  if flags &&& dumpMem ≠ 0 then .valid
  else if flags &&& dumpAccMem ≠ 0 then .accessed
  else if flags &&& dumpInvMem ≠ 0 then .invalid
  else .valid

def permChar (attr perm acc : U8) (lower upper : Char) : Char :=
  if attr.has perm then if attr.has acc then upper else lower else ' '

def asciiChar (b : U8) : Char := if b < 0x20 ∨ 0x7f ≤ b then '.' else Char.ofNat b.toNat

def stripRight (t : List Char) : List Char := (t.reverse.dropWhile (· = ' ')).reverse

/-- One line of `dump_data`: data and attributes, both empty when no byte is shown. -/
def dumpData (k : DumpKind) (ascii : Bool) (bytes : List (U8 × U8)) : List Char × List Char :=
  let data := bytes.flatMap fun (d, a) =>
    [if a.has accInvalid then '*' else ' '] ++
      (if k.shows a then decodeHex2 (d.setWidth 32) else "  ".toList) ++ [' ']
  let chars := bytes.map fun (d, a) => if k.shows a then asciiChar d else ' '
  let attr := bytes.flatMap fun (_, a) =>
    if k.shows a then
      [permChar a permR accRead 'r' 'R', permChar a permW accWrite 'w' 'W',
       permChar a permX accExec 'x' 'X', ' ']
    else "    ".toList
  if bytes.any fun (_, a) => k.shows a then
    (stripRight (if ascii then data ++ "  ".toList ++ chars else data), stripRight attr)
  else ([], [])

/-- The bytes of one line of a page, with their attributes. -/
def dumpBytes (mem : Mem) (page : Page) (u2 : Nat) : List (U8 × U8) :=
  (List.range 16).map fun i =>
    let idx := BitVec.ofNat 12 (u2 + i)
    (mem.load page idx, page.attrAt idx)

def logDumpLine (h : Host) (flags : U32) (addr : Nat) (line : List Char × List Char) (s : St) :
    St :=
  if line.1 = [] then s
  else
    let s := logText h (hexPad '0' 8 addr ++ ": ".toList ++ line.1 ++ "\n".toList) s
    if flags &&& dumpAttr ≠ 0 then
      logText h ("          ".toList ++ line.2 ++ "\n".toList) s
    else s

/-- The page of a table entry that exists. -/
def Mem.page? (mem : Mem) (pdirIdx ptableIdx : Nat) : Option Page :=
  mem.pdir.bind fun pdir =>
    (pdir (BitVec.ofNat 10 pdirIdx)).map fun ptable => ptable (BitVec.ofNat 10 ptableIdx)

def dumpPage (h : Host) (flags : U32) (pdirIdx u1 : Nat) (s : St) : St :=
  match s.mem.page? pdirIdx u1 with
  | none => s
  | some page =>
    if page.alloc.isNone then s
    else
      stLoop 256 (fun i s =>
        let line := dumpData (dumpKind flags) (flags &&& dumpAscii ≠ 0)
          (dumpBytes s.mem page (16 * i))
        logDumpLine h flags (((pdirIdx * 1024) + u1) * 4096 + 16 * i) line s) s

def dumpMemory (h : Host) (flags : U32) (s : St) : St :=
  if s.mem.pdir.isSome ∧ flags &&& (dumpMem ||| dumpAccMem ||| dumpInvMem ||| dumpAttr) ≠ 0 then
    let s := logStr h "; - - memory\n" s
    let s := logStr h ";        " s
    let s := stLoop 16 (fun i => logText h (hexPad ' ' 4 i)) s
    let s := logStr h "\n" s
    let s := stLoop 1024 (fun i => stLoop 1024 (dumpPage h flags i)) s
    logStr h "\n" s
  else s

/-! ## Ports, interrupts and registers -/

def ioText (io : Io) (u : Nat) : List Char :=
  let port := BitVec.ofNat 16 u
  let attr := io.map port
  hexPad '0' 4 u ++ ": ".toList ++
    [if attr.has accInvalid then '*' else ' ', if attr.has permR then 'r' else ' ',
     if attr.has permW then 'w' else ' '] ++
    " in=".toList ++ hex8 (io.statsI port) ++ " out=".toList ++ hex8 (io.statsO port) ++ "\n".toList

def dumpPorts (h : Host) (flags : U32) (s : St) : St :=
  if flags &&& dumpIo ≠ 0 then
    let s := logStr h "; - - io accesses\n" s
    let s := stLoop 65536 (fun u s =>
      if (s.io.map (BitVec.ofNat 16 u)).has (accRead ||| accWrite ||| accInvalid) then
        logText h (ioText s.io u) s
      else s) s
    logStr h "\n" s
  else s

def dumpIntrs (h : Host) (flags : U32) (s : St) : St :=
  if flags &&& dumpInts ≠ 0 then
    let s := logStr h "; - - interrupt statistics\n" s
    let s := stLoop 256 (fun u s =>
      let n := s.intrStats (BitVec.ofNat 8 u)
      if n ≠ 0 then
        logText h ("int ".toList ++ hexPad '0' 2 u ++ ": ".toList ++ hex8 n ++ "\n".toList) s
      else s) s
    logStr h "\n" s
  else s

def msrText (s : St) (u : Nat) : List Char :=
  "msr[".toList ++ hexPad '0' 4 u ++ "] ".toList ++
    [if (s.msrPerm u).has accRead then 'r' else ' ',
     if (s.msrPerm u).has accWrite then 'w' else ' '] ++
    " ".toList ++ hexPad '0' 16 (s.msr u).toNat

/-- The comment after a time stamp counter. -/
def logMsrNote (h : Host) (u : Nat) (s : St) : St :=
  if u = 0x10 then logStr h " ; tsc" s
  else if u = 0x11 then logStr h " ; real tsc (previous)" s
  else if u = 0x12 then
    let s := logStr h " ; real tsc" s
    if s.tsc ≠ 0 then logText h (", ratio=".toList ++ h.ratio s.realTsc s.tsc) s else s
  else s

def dumpMsr (h : Host) (flags : U32) (u : Nat) (s : St) : St :=
  if 0x11 ≤ u ∧ u ≤ 0x12 ∧ flags &&& dumpTime = 0 then s
  else if s.msrPerm u ≠ 0 then logStr h "\n" (logMsrNote h u (logText h (msrText s u) s))
  else s

/-- Some model specific register is shown. -/
def anyMsr (flags : U32) (s : St) : Bool :=
  (List.range 0x800).any fun u =>
    !(0x11 ≤ u && u ≤ 0x12 && flags &&& dumpTime = 0) && s.msrPerm u ≠ 0

def labeled (l : List (String × List Char)) : List Char := l.flatMap fun (t, v) => t.toList ++ v

def crText (c : Cpu) : List Char :=
  labeled [("cr0=", hex8 (c.crx 0)), (" cr1=", hex8 (c.crx 1)), (" cr2=", hex8 (c.crx 2)),
    (" cr3=", hex8 (c.crx 3)), (" cr4=", hex8 (c.crx 4)), ("\n", [])]

def drText (c : Cpu) : List Char :=
  labeled [("dr0=", hex8 (c.drx 0)), (" dr1=", hex8 (c.drx 1)), (" dr2=", hex8 (c.drx 2)),
    (" dr3=", hex8 (c.drx 3)), (" dr6=", hex8 (c.drx 6)), (" dr7=", hex8 (c.drx 7)), ("\n\n", [])]

def tableText (name : String) (base limit : U32) : List Char :=
  labeled [(name, []), (".base=", hex8 base), (" ", []), (name, []), (".limit=", hex4 limit),
    ("\n", [])]

def selText (name : String) (v : Sel) (stop : String) : List Char :=
  labeled [(name, []), ("=", hex4 (v.sel.setWidth 32)), (" ", []), (name, []),
    (".base=", hex8 v.base), (" ", []), (name, []), (".limit=", hex8 v.limit), (" ", []),
    (name, []), (".acc=", hex4 (v.acc.setWidth 32)), (stop, [])]

def genDumpText (c : Cpu) (l : List (String × Reg)) : List Char :=
  labeled (l.map fun (t, r) => (t, hex8 (c.gen r))) ++ "\n".toList

/-- The lines of the register section that follow the model specific registers. -/
def regLines : List (St → List Char) := [
  fun s => crText s.cpu,
  fun s => drText s.cpu,
  fun s => tableText "gdt" s.cpu.gdtBase s.cpu.gdtLimit,
  fun s => tableText "idt" s.cpu.idtBase s.cpu.idtLimit,
  fun s => selText "tr" s.cpu.tr "\n",
  fun s => selText "ldt" s.cpu.ldt "\n\n",
  fun s => selText "cs" (s.cpu.seg .cs) "\n",
  fun s => selText "ss" (s.cpu.seg .ss) "\n",
  fun s => selText "ds" (s.cpu.seg .ds) "\n",
  fun s => selText "es" (s.cpu.seg .es) "\n",
  fun s => selText "fs" (s.cpu.seg .fs) "\n",
  fun s => selText "gs" (s.cpu.seg .gs) "\n\n",
  fun s => genDumpText s.cpu [("eax=", .ax), (" ebx=", .bx), (" ecx=", .cx), (" edx=", .dx)],
  fun s => genDumpText s.cpu [("esi=", .si), (" edi=", .di), (" ebp=", .bp), (" esp=", .sp)],
  fun s => labeled [("eip=", hex8 s.cpu.eip), (" eflags=", hex8 s.cpu.eflg)]]

def dumpRegisters (h : Host) (flags : U32) (s : St) : St :=
  if flags &&& dumpRegs ≠ 0 then
    let s := logStr h "; - - registers\n" s
    let shown := anyMsr flags s
    let s := stLoop 0x800 (dumpMsr h flags) s
    let s := if shown then logStr h "\n" s else s
    let s := regLines.foldl (fun s line => logText h (line s) s) s
    let fbuf := flagsText s.cpu
    let s := if fbuf ≠ [] then logText h (" ;".toList ++ fbuf) s else s
    logStr h "\n\n" s
  else s

def x86emuDump (h : Host) (flags : U32) (s : St) : St :=
  dumpRegisters h flags (dumpIntrs h flags (dumpPorts h flags (dumpMemory h flags s)))

end X86Emu
