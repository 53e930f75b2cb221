import X86Emu.Alu.Shift
import X86Emu.Alu.MulDiv
import X86Emu.Decode.Address
import X86Emu.Decode.Segment

/-!
# Operands of one size

Most opcodes come in a byte form and a word form, and the word form works on words or dwords as
`MODE_DATA32` says. `OpSize` is the size of an operand, and the functions the source has once for
each size are functions of the size here. A register operand is the number that
`decode_rm_*_register` was given; it is read and written with `getReg` and `setReg`, where the
source goes through the pointer.
-/

namespace X86Emu

open Lib

/-- The size of an operand. -/
inductive OpSize
  | byte | word | long
  deriving DecidableEq, Repr

abbrev OpSize.bits : OpSize → Nat
  | .byte => 8
  | .word => 16
  | .long => 32

/-- The size a memory operand is introduced with. -/
def OpSize.text : OpSize → String
  | .byte => "byte "
  | .word => "word "
  | .long => "dword "

/-- The operand size of the byte form and of the word form of an opcode. -/
def opSize (wide : Bool) : Emu OpSize := do
  if wide then
    return if (← getMode).data32 then .long else .word
  else
    return .byte

/-- The size of a word operand. -/
def dataSize : Emu OpSize := opSize true

/-! ## Registers, memory, immediates and ports -/

/-- `decode_rm_*_register` -/
def decodeReg : OpSize → BitVec 3 → Emu Unit
  | .byte, r => do let _ ← decodeRmByteRegister r
  | .word, r => do let _ ← decodeRmWordRegister r
  | .long, r => do let _ ← decodeRmLongRegister r

def getReg : (z : OpSize) → BitVec 3 → Emu (BitVec z.bits)
  | .byte, r => get8 (Reg8.ofBits r)
  | .word, r => get16 (Reg.ofBits r)
  | .long, r => getGen (Reg.ofBits r)

def setReg : (z : OpSize) → BitVec 3 → BitVec z.bits → Emu Unit
  | .byte, r, v => set8 (Reg8.ofBits r) v
  | .word, r, v => set16 (Reg.ofBits r) v
  | .long, r, v => setGen (Reg.ofBits r) v

/-- `fetch_data_byte`, `fetch_data_word` and `fetch_data_long` -/
def fetchDataSize : (z : OpSize) → U32 → Emu (BitVec z.bits)
  | .byte, ofs => fetchDataByte ofs
  | .word, ofs => fetchDataWord ofs
  | .long, ofs => fetchDataLong ofs

def fetchDataSizeAbs : (z : OpSize) → SegReg → U32 → Emu (BitVec z.bits)
  | .byte, seg, ofs => fetchDataByteAbs seg ofs
  | .word, seg, ofs => fetchDataWordAbs seg ofs
  | .long, seg, ofs => fetchDataLongAbs seg ofs

/-- `store_data_byte`, `store_data_word` and `store_data_long` -/
def storeDataSize : (z : OpSize) → U32 → BitVec z.bits → Emu Unit
  | .byte, ofs, v => storeDataByte ofs v
  | .word, ofs, v => storeDataWord ofs v
  | .long, ofs, v => storeDataLong ofs v

def storeDataSizeAbs : (z : OpSize) → SegReg → U32 → BitVec z.bits → Emu Unit
  | .byte, seg, ofs, v => storeDataByteAbs seg ofs v
  | .word, seg, ofs, v => storeDataWordAbs seg ofs v
  | .long, seg, ofs, v => storeDataLongAbs seg ofs v

/-- `fetch_byte`, `fetch_word` and `fetch_long` -/
def fetchSize : (z : OpSize) → Emu (BitVec z.bits)
  | .byte => fetchByte
  | .word => fetchWord
  | .long => fetchLong

/-- `fetch_io_byte`, `fetch_io_word` and `fetch_io_long` -/
def fetchIoSize : (z : OpSize) → U32 → Emu (BitVec z.bits)
  | .byte, port => fetchIoByte port
  | .word, port => fetchIoWord port
  | .long, port => fetchIoLong port

/-- `store_io_byte`, `store_io_word` and `store_io_long` -/
def storeIoSize : (z : OpSize) → U32 → BitVec z.bits → Emu Unit
  | .byte, port, v => storeIoByte port v
  | .word, port, v => storeIoWord port v
  | .long, port, v => storeIoLong port v

/-- `push_word` and `push_long`; there is no byte form. -/
def pushSize : (z : OpSize) → BitVec z.bits → Emu Unit
  | .byte, v => pushWord (v.setWidth 16)
  | .word, v => pushWord v
  | .long, v => pushLong v

def popSize : (z : OpSize) → Emu (BitVec z.bits)
  | .byte => do return (← popWord).setWidth 8
  | .word => popWord
  | .long => popLong

/-- `DECODE_HEX2`, `DECODE_HEX4` and `DECODE_HEX8` -/
def hexSize : (z : OpSize) → BitVec z.bits → List Char
  | .byte, v => decodeHex2 (widen v)
  | .word, v => decodeHex4 (widen v)
  | .long, v => decodeHex8 v

/-- An immediate of the operand's size, with its text. -/
def fetchImm (z : OpSize) : Emu (BitVec z.bits) := do
  let imm ← fetchSize z
  decode (hexSize z imm)
  return imm

/-- A byte immediate with its text. -/
def fetchImmByte : Emu U8 := fetchImm .byte

/-- A sign-extended byte immediate with its text. -/
def fetchImmSigned (z : OpSize) : Emu (BitVec z.bits) := do
  let imm ← fetchByte
  decode (decodeHex2s (imm.signExtend 32))
  return imm.signExtend z.bits

/-! ## Operations -/

/-- `op_A_byte` -/
def opAByte (type : BitVec 3) : U8 → U8 → FlagOp U8 :=
  match type.toNat with
  | 0 => addByte | 1 => orByte | 2 => adcByte | 3 => sbbByte
  | 4 => andByte | 5 => subByte | 6 => xorByte | _ => cmpByte

/-- `op_A_word` -/
def opAWord (type : BitVec 3) : U16 → U16 → FlagOp U16 :=
  match type.toNat with
  | 0 => addWord | 1 => orWord | 2 => adcWord | 3 => sbbWord
  | 4 => andWord | 5 => subWord | 6 => xorWord | _ => cmpWord

/-- `op_A_long` -/
def opALong (type : BitVec 3) : U32 → U32 → FlagOp U32 :=
  match type.toNat with
  | 0 => addLong | 1 => orLong | 2 => adcLong | 3 => sbbLong
  | 4 => andLong | 5 => subLong | 6 => xorLong | _ => cmpLong

def opA : (z : OpSize) → BitVec 3 → BitVec z.bits → BitVec z.bits → FlagOp (BitVec z.bits)
  | .byte => opAByte
  | .word => opAWord
  | .long => opALong

def opAText (type : BitVec 3) : String :=
  match type.toNat with
  | 0 => "add " | 1 => "or " | 2 => "adc " | 3 => "sbb "
  | 4 => "and " | 5 => "sub " | 6 => "xor " | _ => "cmp "

def decodeOpA (type : BitVec 3) : Emu Unit := opDecode (opAText type)

/-- `op_B_byte` -/
def opBByte (type : BitVec 3) : U8 → U8 → FlagOp U8 :=
  match type.toNat with
  | 0 => rolByte | 1 => rorByte | 2 => rclByte | 3 => rcrByte
  | 4 => shlByte | 5 => shrByte | 6 => shlByte | _ => sarByte

/-- `op_B_word` -/
def opBWord (type : BitVec 3) : U16 → U8 → FlagOp U16 :=
  match type.toNat with
  | 0 => rolWord | 1 => rorWord | 2 => rclWord | 3 => rcrWord
  | 4 => shlWord | 5 => shrWord | 6 => shlWord | _ => sarWord

/-- `op_B_long` -/
def opBLong (type : BitVec 3) : U32 → U8 → FlagOp U32 :=
  match type.toNat with
  | 0 => rolLong | 1 => rorLong | 2 => rclLong | 3 => rcrLong
  | 4 => shlLong | 5 => shrLong | 6 => shlLong | _ => sarLong

def opB : (z : OpSize) → BitVec 3 → BitVec z.bits → U8 → FlagOp (BitVec z.bits)
  | .byte => opBByte
  | .word => opBWord
  | .long => opBLong

def opBText (type : BitVec 3) : String :=
  match type.toNat with
  | 0 => "rol " | 1 => "ror " | 2 => "rcl " | 3 => "rcr "
  | 4 => "shl " | 5 => "shr " | 6 => "sal " | _ => "sar "

def decodeOpB (type : BitVec 3) : Emu Unit := opDecode (opBText type)

def testSize : (z : OpSize) → BitVec z.bits → BitVec z.bits → FlagOp Unit
  | .byte => testByte
  | .word => testWord
  | .long => testLong

def notSize : (z : OpSize) → BitVec z.bits → FlagOp (BitVec z.bits)
  | .byte => notByte
  | .word => notWord
  | .long => notLong

def negSize : (z : OpSize) → BitVec z.bits → FlagOp (BitVec z.bits)
  | .byte => negByte
  | .word => negWord
  | .long => negLong

def incSize : (z : OpSize) → BitVec z.bits → FlagOp (BitVec z.bits)
  | .byte => incByte
  | .word => incWord
  | .long => incLong

def decSize : (z : OpSize) → BitVec z.bits → FlagOp (BitVec z.bits)
  | .byte => decByte
  | .word => decWord
  | .long => decLong

def cmpSize : (z : OpSize) → BitVec z.bits → BitVec z.bits → FlagOp (BitVec z.bits)
  | .byte => cmpByte
  | .word => cmpWord
  | .long => cmpLong

def mulSize : (z : OpSize) → BitVec z.bits → Emu Unit
  | .byte => mulByte
  | .word => mulWord
  | .long => mulLong

def imulSize : (z : OpSize) → BitVec z.bits → Emu Unit
  | .byte => imulByte
  | .word => imulWord
  | .long => imulLong

def divSize : (z : OpSize) → BitVec z.bits → Emu Unit
  | .byte => divByte
  | .word => divWord
  | .long => divLong

def idivSize : (z : OpSize) → BitVec z.bits → Emu Unit
  | .byte => idivByte
  | .word => idivWord
  | .long => idivLong

def condText (type : BitVec 4) : String :=
  match type.toNat with
  | 0 => "o " | 1 => "no " | 2 => "b " | 3 => "nb " | 4 => "z " | 5 => "nz " | 6 => "na "
  | 7 => "a " | 8 => "s " | 9 => "ns " | 10 => "p " | 11 => "np " | 12 => "l " | 13 => "nl "
  | 14 => "ng " | _ => "g "

def decodeCond (type : BitVec 4) : Emu Unit := opDecode (condText type)

/-! ## Registers of the address size -/

/-- A counter or index register, all of it or its low 16 bits. -/
def getIdx (wide : Bool) (r : Reg) : Emu U32 := do
  if wide then getGen r else return (← get16 r).setWidth 32

def setIdx (wide : Bool) (r : Reg) (v : U32) : Emu Unit := do
  if wide then setGen r v else set16 r (v.setWidth 16)

def addIdx (wide : Bool) (r : Reg) (inc : U32) : Emu Unit := do
  setIdx wide r ((← getIdx wide r) + inc)

/-- `R_IP` or `R_EIP` as the operand size says -/
def getIpSize (z : OpSize) : Emu (BitVec z.bits) := do return (← getEip).setWidth z.bits


end X86Emu
