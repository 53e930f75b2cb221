import X86Emu.Decode.Interrupt
import X86Emu.Run.Dump

/-!
# The run loop

`x86emu_run` and `emu_process_debug`. `prefixLoop` is the loop over the prefix bytes and
`runLoop` the outer loop. Both take fuel, as neither has to end; out of fuel they
return the state they have reached.
-/

namespace X86Emu

open Lib

/-! ## Host functions -/

/-- `x86emu_read_byte_noperm` -/
def readByteNoperm (h : Host) (addr : U32) (s : St) : U32 × St :=
  let (res, s) := callMemio .r .b8noperm addr 0xff h s
  (res.1, s)

/-- The little-endian number in `n` bytes. -/
def readBytesNoperm (h : Host) : (n : Nat) → U32 → St → U32 × St
  | 0, _, s => (0, s)
  | n + 1, addr, s =>
    let (lo, s) := readByteNoperm h addr s
    let (hi, s) := readBytesNoperm h n (addr + 1) s
    (lo + (hi <<< 8), s)

/-- `tsc()` -/
def hostTsc (h : Host) (s : St) : U64 × St := (h.tsc s.clock, { s with clock := s.clock + 1 })

/-- `time(NULL)` -/
def hostTime (h : Host) (s : St) : Int × St := (h.time s.clock, { s with clock := s.clock + 1 })

def St.setMsr (s : St) (u : Nat) (v : U64) : St := { s with msr := Function.update s.msr u v }

def St.halt (s : St) : St :=
  { s with cpu := { s.cpu with mode := { s.cpu.mode with halted := true } } }

def St.halted (s : St) : Bool := s.cpu.mode.halted

/-! ## The debug instruction -/

def putLog (t : List Char) (s : St) : St :=
  match s.log.buf with
  | none => s
  | some b => s.setBuf (b.put t)

/-- The bytes of the debug text go to the log one by one. -/
def debugChars (h : Host) : Nat → U32 → St → St
  | 0, _, s => s
  | n + 1, start, s =>
    let (c, s) := readByteNoperm h start s
    debugChars h n (start + 1) (putLog [Char.ofNat (c.extractLsb' 0 8).toNat] s)

def St.setTrace (s : St) (f : U32 → U32) : St :=
  { s with log := { s.log with trace := f s.log.trace } }

def debugCommand (h : Host) (type start len : U32) (s : St) : St :=
  match type.toNat with
  | 1 => putLog "\n".toList (debugChars h len.toNat start (putLog "\n".toList s))
  | 2 =>
    let (u, s) := readBytesNoperm h 4 start s
    s.setTrace (· ||| u)
  | 3 =>
    let (u, s) := readBytesNoperm h 4 start s
    s.setTrace (· &&& ~~~u)
  | 4 =>
    let (u, s) := readBytesNoperm h 4 start s
    x86emuDump h u s
  | 5 => { s with mem := s.mem.resetAccessStats }
  | _ => s

/-- The terminating zero: `**p = 0`. -/
def nulLog (s : St) : St :=
  match s.log.buf with
  | none => s
  | some b => s.setBuf b.nul

def emuProcessDebug (h : Host) (start len : U32) (s : St) : St :=
  match s.log.buf with
  | none => s
  | some b =>
    let (lf, s) := if b.free < 1024 then x86emuClearLog h true s else (b.free, s)
    if lf < 1024 then s
    else
      let (type, s) := readByteNoperm h start s
      nulLog (debugCommand h type (start + 1) (len - 1) s)

/-! ## Prefixes -/

def setOverride (r : SegReg) (s : St) : St :=
  { s with cpu := { s.cpu with
    decodeSeg := [r.letter, 's', ':', '['], defaultSeg := some r } }

def St.setMode (s : St) (f : Mode → Mode) : St :=
  { s with cpu := { s.cpu with mode := f s.cpu.mode } }

def St.opDecode (s : St) (t : String) : St := { s with disasm := s.disasm ++ t.toList }

/-- What a prefix byte does; `none` for every other byte. -/
def prefixEffect (op1 : U8) : Option (St → St) :=
  match op1.toNat with
  | 0x26 => some (setOverride .es)
  | 0x2e => some (setOverride .cs)
  | 0x36 => some (setOverride .ss)
  | 0x3e => some (setOverride .ds)
  | 0x64 => some (setOverride .fs)
  | 0x65 => some (setOverride .gs)
  | 0x66 => some (·.setMode fun m => { m with data32 := !m.data32 })
  | 0x67 => some (·.setMode fun m => { m with addr32 := !m.addr32 })
  | 0xf0 => some (·.opDecode "lock: ")
  | 0xf2 => some fun s => (s.opDecode "repne ").setMode fun m => { m with repne := true }
  | 0xf3 => some fun s => (s.opDecode "repe ").setMode fun m => { m with repe := true }
  | _ => none

/-- The opcode byte after the prefixes, if it is reached. -/
def prefixLoop (h : Host) : Nat → St → Option U8 × St
  | 0, s => (none, s)
  | n + 1, s =>
    let (op1, s) := fetchByte.run h s
    match prefixEffect op1 with
    | some f => prefixLoop h n (f s)
    | none => (some op1, s)

/-! ## Checks before an instruction -/

/-- What stays the same in one run. -/
structure RunEnv where
  flags : U32
  /-- `t0` -/
  start : Int := 0
  tscOfs : U64 := 0
  /-- how many bytes the prefix loop may read -/
  fuel : Nat

def RunEnv.has (e : RunEnv) (flag : U32) : Bool := e.flags &&& flag != 0

/-- The mode an instruction starts with. -/
def Cpu.startMode (c : Cpu) : Mode :=
  let code32 := accD (c.seg .cs).acc
  { data32 := code32, addr32 := code32, code32 := code32, stack32 := accD (c.seg .ss).acc }

def Cpu.startInstr (c : Cpu) : Cpu :=
  { c with
    mode := c.startMode
    defaultSeg := none
    savedCs := (c.seg .cs).sel
    savedEip := c.eip }

def startInstr (s : St) : St :=
  { s with disasm := [], instrBuf := [], cpu := s.cpu.startInstr }

def maxInstrReached (e : RunEnv) (s : St) : Bool :=
  e.has runMaxInstr && s.maxInstr ≠ 0 && s.maxInstr ≤ s.tsc

def timedOut (h : Host) (e : RunEnv) (s : St) : Bool × St :=
  if e.has runTimeout && s.timeout ≠ 0 && s.tsc &&& 0xffff = 0 then
    let (now, s) := hostTime h s
    (s.timeout.toNat < now - e.start, s)
  else (false, s)

def codeCheck (h : Host) (s : St) : Bool × St :=
  match h.codeCheck with
  | some f =>
    let (bad, s) := f s
    (bad || s.halted, s)
  | none => (false, s)

/-- The linear address of the next instruction byte. -/
def St.codeAddr (s : St) : U32 := (s.cpu.seg .cs).base + s.cpu.eip

/-- `ofs32` of the loop check: the length of the displacement and its value, or 0. -/
def loopOfs (h : Host) (op1 : U8) (s : St) : U32 × St :=
  if op1 = 0xeb then
    let (v, s) := readByteNoperm h s.codeAddr s
    ((v.extractLsb' 0 8).signExtend 32 + 1, s)
  else if op1 = 0xe9 then
    if s.cpu.mode.data32 then
      let (v, s) := readBytesNoperm h 4 s.codeAddr s
      (v + 4, s)
    else
      let (v, s) := readBytesNoperm h 2 s.codeAddr s
      ((v.extractLsb' 0 16).signExtend 32 + 2, s)
  else (0, s)

/-- The jump leads back to the instruction, or to a flag instruction before it. -/
def loopFound (h : Host) (ofs : U32) (s : St) : Bool × St :=
  let c := s.cpu
  if c.eip + ofs = c.savedEip then (true, s)
  else if c.eip + 1 + ofs = c.savedEip ∧ 1 ≤ c.savedEip then
    let (v, s) := readByteNoperm h ((c.seg .cs).base + c.savedEip - 1) s
    (0xf8 ≤ v.extractLsb' 0 8 && v.extractLsb' 0 8 ≤ 0xfd, s)
  else (false, s)

/-- `if(rs) x86emu_stop(emu)` -/
def haltIf (rs : U32) (s : St) : St := if rs ≠ 0 then s.halt else s

def checkLoop (h : Host) (e : RunEnv) (op1 : U8) (rs : U32) (s : St) : U32 × St :=
  if e.has runLoopFlag then
    let (ofs, s) := loopOfs h op1 s
    if ofs ≠ 0 then
      let (found, s) := loopFound h ofs s
      let rs := if found then rs ||| runLoopFlag else rs
      (rs, haltIf rs s)
    else (rs, s)
  else (rs, s)

def checkNoCode (h : Host) (e : RunEnv) (op1 : U8) (rs : U32) (s : St) : U32 × St :=
  if e.has runNoCode then
    if s.cpu.mode = {} ∧ op1 = 0 then
      let (v, s) := readByteNoperm h s.codeAddr s
      let rs := if v = 0 then rs ||| runNoCode else rs
      (rs, haltIf rs s)
    else (rs, haltIf rs s)
  else (rs, s)

/-! ## One instruction -/

/-- The handler of the opcode. -/
def runHandler (h : Host) (op1 : U8) (s : St) : St := ((handlerAt x86emuOptab op1 op1).run h s).2

def updateRealTsc (h : Host) (e : RunEnv) (s : St) : St :=
  let (now, s) := hostTsc h (s.setMsr 0x11 s.realTsc)
  s.setMsr 0x12 (now - e.tscOfs)

def processDebug (h : Host) (s : St) : St :=
  if s.debugLen ≠ 0 then
    { emuProcessDebug h s.debugStart s.debugLen s with debugStart := 0, debugLen := 0 }
  else s

/-- From the dispatch to the increment of the time stamp counter. -/
def execInstr (h : Host) (e : RunEnv) (op1 : U8) (s : St) : St :=
  let s := { s with hist := .instr op1 :: s.hist }
  let s := handleInterrupt h (runHandler h op1 s)
  let s := processDebug h (logCode h (updateRealTsc h e s))
  s.setMsr 0x10 (s.tsc + 1)

/-- How the checks before an instruction end. -/
inductive Checked
  /-- with `break` -/
  | stop (rs : U32)
  /-- within the prefix loop, out of fuel -/
  | prefixes
  /-- with the opcode to dispatch -/
  | exec (rs : U32) (op1 : U8)
  deriving DecidableEq, Repr

/-- The checks after the opcode has been read. -/
def checkOpcode (h : Host) (e : RunEnv) (rs : U32) (op1 : U8) (s : St) : Checked × St :=
  if s.halted then
    (.stop (rs ||| runNoExec), { s with cpu := { s.cpu with eip := s.cpu.savedEip } })
  else
    let (rs, s) := checkLoop h e op1 rs s
    let (rs, s) := checkNoCode h e op1 rs s
    (.exec rs op1, s)

/-- The state in which the prefix loop starts. -/
def startPrefixes (s : St) : St := { s with cpu := { s.cpu with decodeSeg := ['['] } }

/-- The prefixes and the opcode. -/
def readOpcode (h : Host) (e : RunEnv) (rs : U32) (s : St) : Checked × St :=
  match prefixLoop h e.fuel (startPrefixes s) with
  | (none, s) => (.prefixes, s)
  | (some op1, s) => checkOpcode h e rs op1 s

/-- The body of the loop of `x86emu_run` from `log_regs` up to the dispatch. -/
def runChecks (h : Host) (e : RunEnv) (rs : U32) (s : St) : Checked × St :=
  if maxInstrReached e s then (.stop (rs ||| runMaxInstr), s)
  else
    let (late, s) := timedOut h e s
    if late then (.stop (rs ||| runTimeout), s)
    else
      let (bad, s) := codeCheck h s
      if bad then (.stop (rs ||| runNoCode), s)
      else readOpcode h e rs s

/-- How an iteration of the run loop ends. -/
inductive Next
  /-- with the next iteration -/
  | more (rs : U32)
  /-- with `break` -/
  | stop (rs : U32)
  /-- within the prefix loop, out of fuel -/
  | prefixes
  deriving DecidableEq, Repr

/-- The body of the loop of `x86emu_run`. -/
def runIter (h : Host) (e : RunEnv) (rs : U32) (s : St) : Next × St :=
  match runChecks h e rs (logRegs h (startInstr s)) with
  | (.stop rs, s) => (.stop rs, s)
  | (.prefixes, s) => (.prefixes, s)
  | (.exec rs op1, s) =>
    let s := execInstr h e op1 s
    (if s.halted then .stop rs else .more rs, s)

/-- The loop of `x86emu_run`: the result when it has ended, and the state reached. -/
def runLoop (h : Host) (e : RunEnv) : Nat → U32 → St → Option U32 × St
  | 0, _, s => (none, s)
  | n + 1, rs, s =>
    match runIter h e rs s with
    | (.more rs, s) => runLoop h e n rs s
    | (.stop rs, s) => (some rs, s)
    | (.prefixes, s) => (none, s)

/-- The start of `x86emu_run`. -/
def beginRun (h : Host) (flags : U32) (fuel : Nat) (s : St) : RunEnv × St :=
  let (start, s) := hostTime h s
  let (now, s) := hostTsc h s
  let io := { s.io with ioplOk := !(s.io.ioplNeeded && !h.iopl3) }
  ({ flags, start, tscOfs := now - s.realTsc, fuel }, { s with io })

/-- The end of `x86emu_run`. -/
def endRun (h : Host) (e : RunEnv) (rs : U32) (s : St) : St :=
  let (now, s) := hostTsc h (logExit rs s)
  s.setMsr 0x12 (now - e.tscOfs)

/-- `x86emu_run` with `fuel` for either loop. -/
def x86emuRun (h : Host) (flags : U32) (fuel : Nat) (s : St) : Option U32 × St :=
  let (e, s) := beginRun h flags fuel s
  match runLoop h e fuel 0 s with
  | (some rs, s) => (some rs, endRun h e rs s)
  | (none, s) => (none, s)

end X86Emu
