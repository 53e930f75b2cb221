import X86Emu.Machine.Emu

/-!
# Instruction fetch and data access

The part of `decode.c` that reads instruction bytes and reads and writes data: `decode_memio` and
its log line, `fetch_*`, `check_data_access`, and the accessors built on them.
-/

namespace X86Emu

open Lib

/-! ## Memory accesses with their log line -/

def MemioKind.text : MemioKind → String
  | .r => "r ["
  | .w => "w ["
  | .x => "x ["
  | .i => "i ["
  | .o => "o ["

/-- The value in the log line, question marks when the access failed. -/
def memioValText (width : MemioWidth) (val : U32) (err : Bool) : List Char :=
  match width with
  | .b8 => if err then "??".toList else decodeHex2 val
  | .b16 => if err then "????".toList else decodeHex4 val
  | .b32 => if err then "????????".toList else decodeHex8 val

def memioText (kind : MemioKind) (width : MemioWidth) (addr val : U32) (err : Bool) : List Char :=
  kind.text.toList ++ decodeHex8 addr ++ "] = ".toList ++ memioValText width val err ++
    "\n".toList

def memioTraced (kind : MemioKind) (l : Log) : Bool :=
  match kind with
  | .i | .o => l.has traceIo
  | .r | .w | .x => l.has traceData

theorem length_memioValText (width : MemioWidth) (val : U32) (err : Bool) :
    (memioValText width val err).length ≤ 8 := by
  cases width <;> cases err <;> simp [memioValText]

theorem length_memioText (kind : MemioKind) (width : MemioWidth) (addr val : U32) (err : Bool) :
    (memioText kind width addr val err).length ≤ 24 := by
  have h := length_memioValText width val err
  have hk : kind.text.toList.length = 3 := by cases kind <;> rfl
  simp only [memioText, List.length_append, hk, length_decodeHex8]
  have h₁ : "] = ".toList.length = 4 := rfl
  have h₂ : "\n".toList.length = 1 := rfl
  omega

/-- The common body of `decode_memio` and `emu_memio`. -/
def loggedMemio (kind : MemioKind) (width : MemioWidth) (addr val : U32) : Emu (U32 × Bool) := do
  let (val, err) ← memio kind width addr val
  writeLog 1024 (memioTraced kind) (fun _ => memioText kind width addr val err)
    (fun _ => Nat.lt_of_le_of_lt (length_memioText kind width addr val err) (by decide))
  return (val, err)

def decodeMemio : MemioKind → MemioWidth → U32 → U32 → Emu (U32 × Bool) := loggedMemio

def emuMemio : MemioKind → MemioWidth → U32 → U32 → Emu (U32 × Bool) := loggedMemio

/-! ## Instruction fetch -/

/-- The bytes of a fetched value that are kept in `instr_buf`. -/
def valBytes (n : Nat) (val : U32) : List U8 :=
  (List.range n).map fun i => val.extractLsb' (8 * i) 8

/-- The common body of `fetch_byte`, `fetch_word` and `fetch_long`. -/
def fetchCode (width : MemioWidth) (n : Nat) : Emu U32 := do
  let cpu ← getCpu
  let addr := (cpu.seg .cs).base + cpu.eip
  let (val, err) ← decodeMemio .x width addr 0
  if err then stopFetch addr
  let cpu ← getCpu
  if cpu.mode.code32 then
    setEip (cpu.eip + BitVec.ofNat 32 n)
  else
    setEip (setLo16 cpu.eip (cpu.ip + BitVec.ofNat 16 n))
  capture (valBytes n val)
  return val

def fetchByte : Emu U8 := do return (← fetchCode .b8 1).setWidth 8

def fetchWord : Emu U16 := do return (← fetchCode .b16 2).setWidth 16

def fetchLong : Emu U32 := fetchCode .b32 4

/-- The fields of a ModRM byte. -/
structure ModRm where
  mod : BitVec 2
  regh : BitVec 3
  regl : BitVec 3
  deriving DecidableEq, Repr

def fetchDecodeModrm : Emu ModRm := do
  let fetched ← fetchByte
  return ⟨fetched.extractLsb' 6 2, fetched.extractLsb' 3 3, fetched.extractLsb' 0 3⟩

/-! ## Data access -/

def getDataSegment : Emu SegReg := do
  let cpu ← getCpu
  return cpu.defaultSeg.getD (if cpu.mode.segDsSs then .ss else .ds)

/-- `seg_name[idx]` -/
def SegReg.letter : SegReg → Char
  | .es => 'e'
  | .cs => 'c'
  | .ss => 's'
  | .ds => 'd'
  | .fs => 'f'
  | .gs => 'g'
  | .noseg => '?'

def accessSizeText (size : U32) : String :=
  if size = 1 then "byte " else if size = 2 then "word " else if size = 4 then "dword " else ""

def accessText (seg : SegReg) (ofs size : U32) : List Char :=
  "a [".toList ++ (accessSizeText size).toList ++ [seg.letter] ++ "s:".toList ++
    decodeHex8 ofs ++ "]\n".toList

theorem length_accessText (seg : SegReg) (ofs size : U32) :
    (accessText seg ofs size).length ≤ 22 := by
  have h : (accessSizeText size).toList.length ≤ 6 := by
    unfold accessSizeText
    split
    · decide
    · split
      · decide
      · split <;> decide
  have h₁ : "a [".toList.length = 3 := rfl
  have h₂ : "s:".toList.length = 2 := rfl
  have h₃ : "]\n".toList.length = 2 := rfl
  simp only [accessText, List.length_append, List.length_singleton, length_decodeHex8]
  omega

def checkDataAccess (seg : SegReg) (ofs size : U32) : Emu Unit := do
  writeLog 512 (·.has traceAcc) (fun _ => accessText seg ofs size)
    (fun _ => Nat.lt_of_le_of_lt (length_accessText seg ofs size) (by decide))
  let s := (← getCpu).seg seg
  if ofs + size - 1 > s.limit then intrRaiseGp (s.sel.setWidth 32)

/-- The common body of the `fetch_data_*_abs` functions. -/
def fetchDataAbs (width : MemioWidth) (size : U32) (seg : SegReg) (ofs : U32) : Emu U32 := do
  checkDataAccess seg ofs size
  let base := ((← getCpu).seg seg).base
  return (← decodeMemio .r width (base + ofs) 0).1

def fetchDataByteAbs (seg : SegReg) (ofs : U32) : Emu U8 := do
  return (← fetchDataAbs .b8 1 seg ofs).setWidth 8

def fetchDataWordAbs (seg : SegReg) (ofs : U32) : Emu U16 := do
  return (← fetchDataAbs .b16 2 seg ofs).setWidth 16

def fetchDataLongAbs (seg : SegReg) (ofs : U32) : Emu U32 := fetchDataAbs .b32 4 seg ofs

def fetchDataByte (ofs : U32) : Emu U8 := do fetchDataByteAbs (← getDataSegment) ofs

def fetchDataWord (ofs : U32) : Emu U16 := do fetchDataWordAbs (← getDataSegment) ofs

def fetchDataLong (ofs : U32) : Emu U32 := do fetchDataLongAbs (← getDataSegment) ofs

/-- The common body of the `store_data_*_abs` functions. -/
def storeDataAbs (width : MemioWidth) (size : U32) (seg : SegReg) (ofs val : U32) : Emu Unit := do
  checkDataAccess seg ofs size
  let base := ((← getCpu).seg seg).base
  let _ ← decodeMemio .w width (base + ofs) val

def storeDataByteAbs (seg : SegReg) (ofs : U32) (val : U8) : Emu Unit :=
  storeDataAbs .b8 1 seg ofs (val.setWidth 32)

def storeDataWordAbs (seg : SegReg) (ofs : U32) (val : U16) : Emu Unit :=
  storeDataAbs .b16 2 seg ofs (val.setWidth 32)

def storeDataLongAbs (seg : SegReg) (ofs : U32) (val : U32) : Emu Unit :=
  storeDataAbs .b32 4 seg ofs val

def storeDataByte (ofs : U32) (val : U8) : Emu Unit := do
  storeDataByteAbs (← getDataSegment) ofs val

def storeDataWord (ofs : U32) (val : U16) : Emu Unit := do
  storeDataWordAbs (← getDataSegment) ofs val

def storeDataLong (ofs val : U32) : Emu Unit := do
  storeDataLongAbs (← getDataSegment) ofs val

/-! ## Loops and 16 byte accesses -/

/-- A `for` loop over `i = a, a + 1, …`, `n` times. -/
def forLoop (n : Nat) (body : Nat → Emu Unit) (a : Nat := 0) : Emu Unit :=
  match n with
  | 0 => pure ()
  | n + 1 => do
    body a
    forLoop n body (a + 1)

/-- The bytes `ret.reg[i] = fetch_data_byte(emu, ofs + i)` for `i` from `a` on. -/
def fetchBytes (n : Nat) (ofs : U32) (a : Nat := 0) : Emu (List U8) :=
  match n with
  | 0 => pure []
  | n + 1 => do
    let v ← fetchDataByte (ofs + BitVec.ofNat 32 a)
    return v :: (← fetchBytes n ofs (a + 1))

def fetchDataQlong (ofs : U32) : Emu (Fin 16 → U8) := do
  let bytes ← fetchBytes 16 ofs
  return fun i => bytes.getD i 0

/-- All 16 stores are words and go to `ofs`, as in the source. -/
def storeDataQlong (ofs : U32) (val : Fin 16 → U8) : Emu Unit :=
  forLoop 16 fun i => storeDataWord ofs ((val (Fin.ofNat 16 i)).setWidth 16)

/-! ## Ports -/

def fetchIoByte (port : U32) : Emu U8 := do return (← decodeMemio .i .b8 port 0).1.setWidth 8

def fetchIoWord (port : U32) : Emu U16 := do return (← decodeMemio .i .b16 port 0).1.setWidth 16

def fetchIoLong (port : U32) : Emu U32 := do return (← decodeMemio .i .b32 port 0).1

def storeIoByte (port : U32) (val : U8) : Emu Unit := do
  let _ ← decodeMemio .o .b8 port (val.setWidth 32)

def storeIoWord (port : U32) (val : U16) : Emu Unit := do
  let _ ← decodeMemio .o .b16 port (val.setWidth 32)

def storeIoLong (port val : U32) : Emu Unit := do
  let _ ← decodeMemio .o .b32 port val

end X86Emu
