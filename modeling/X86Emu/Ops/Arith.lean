import X86Emu.Ops.Operand

/-!
# One byte opcodes: arithmetic

The handlers of `ops.c` that compute in registers and memory. A handler that exists in a byte
and a word form is one definition with the form as its first argument. The argument of every
handler is the opcode byte.
-/

namespace X86Emu.Op

open Lib

def illegalOp (_ : U8) : Emu Unit := do
  opDecode "illegal opcode"
  intrRaiseUd

/-! ## The eight operations of group A -/

/-- The operation of an opcode below 0x40. -/
def opAType (op1 : U8) : BitVec 3 := op1.extractLsb' 3 3

/-- The common body of `op_A_*_RM_R`. -/
def opARmR (wide : Bool) (op1 : U8) : Emu Unit := do
  let type := opAType op1
  decodeOpA type
  let m ← fetchDecodeModrm
  if m.mod = 3 then
    let z ← opSize wide
    decodeReg z m.regl
    opDecode ","
    decodeReg z m.regh
    setReg z m.regl (← flags (opA z type (← getReg z m.regl) (← getReg z m.regh)))
  else
    let addr ← decodeRmAddress m.mod m.regl
    opDecode ","
    let z ← opSize wide
    let val ← fetchDataSize z addr
    decodeReg z m.regh
    let val ← flags (opA z type val (← getReg z m.regh))
    if type ≠ 7 then storeDataSize z addr val

/-- The common body of `op_A_*_R_RM`. -/
def opARRm (wide : Bool) (op1 : U8) : Emu Unit := do
  let type := opAType op1
  decodeOpA type
  let m ← fetchDecodeModrm
  let z ← opSize wide
  decodeReg z m.regh
  opDecode ","
  if m.mod = 3 then
    decodeReg z m.regl
    setReg z m.regh (← flags (opA z type (← getReg z m.regh) (← getReg z m.regl)))
  else
    let addr ← decodeRmAddress m.mod m.regl
    let val ← fetchDataSize z addr
    setReg z m.regh (← flags (opA z type (← getReg z m.regh) val))

abbrev opAByteRmR : U8 → Emu Unit := opARmR false
abbrev opAWordRmR : U8 → Emu Unit := opARmR true
abbrev opAByteRRm : U8 → Emu Unit := opARRm false
abbrev opAWordRRm : U8 → Emu Unit := opARRm true

/-- An immediate after the accumulator's name. -/
def accImm (z : OpSize) (text : String) : Emu (BitVec z.bits) := do
  opDecode text
  fetchImm z

def opAByteAlImm (op1 : U8) : Emu Unit := do
  let type := opAType op1
  decodeOpA type
  let val ← accImm .byte "al,"
  set8 .al (← flags (opAByte type (← get8 .al) val))

def opAWordAxImm (op1 : U8) : Emu Unit := do
  let type := opAType op1
  decodeOpA type
  if (← getMode).data32 then
    let val ← accImm .long "eax,"
    setGen .ax (← flags (opALong type (← getGen .ax) val))
  else
    let val ← accImm .word "ax,"
    set16 .ax (← flags (opAWord type (← get16 .ax) val))

/-- The common body of `opc80`, `opc81` and `opc83`; `imm` reads the immediate. -/
def opcARmImm (wide : Bool) (imm : (z : OpSize) → Emu (BitVec z.bits)) : Emu Unit := do
  let m ← fetchDecodeModrm
  decodeOpA m.regh
  let z ← opSize wide
  if m.mod = 3 then
    decodeReg z m.regl
    opDecode ","
    let imm ← imm z
    let val ← flags (opA z m.regh (← getReg z m.regl) imm)
    if m.regh ≠ 7 then setReg z m.regl val
  else
    opDecode z.text
    let addr ← decodeRmAddress m.mod m.regl
    opDecode ","
    let val ← fetchDataSize z addr
    let imm ← imm z
    let val ← flags (opA z m.regh val imm)
    if m.regh ≠ 7 then storeDataSize z addr val

abbrev opc80ByteRmImm (_ : U8) : Emu Unit := opcARmImm false fetchImm
abbrev opc81WordRmImm (_ : U8) : Emu Unit := opcARmImm true fetchImm
abbrev opc83WordRmImm (_ : U8) : Emu Unit := opcARmImm true fetchImmSigned

/-! ## Increment and decrement of a register -/

/-- The common body of `inc_AX` to `inc_DI` and `dec_AX` to `dec_DI`. -/
def stepReg (op32 : U32 → FlagOp U32) (op16 : U16 → FlagOp U16) (text32 text16 : String)
    (r : Reg) : Emu Unit := do
  if (← getMode).data32 then
    opDecode text32
    setGen r (← flags (op32 (← getGen r)))
  else
    opDecode text16
    set16 r (← flags (op16 (← get16 r)))

abbrev incAx (_ : U8) : Emu Unit := stepReg incLong incWord "inc eax" "inc ax" .ax
abbrev incCx (_ : U8) : Emu Unit := stepReg incLong incWord "inc ecx" "inc cx" .cx
abbrev incDx (_ : U8) : Emu Unit := stepReg incLong incWord "inc edx" "inc dx" .dx
abbrev incBx (_ : U8) : Emu Unit := stepReg incLong incWord "inc ebx" "inc bx" .bx
abbrev incSp (_ : U8) : Emu Unit := stepReg incLong incWord "inc esp" "inc sp" .sp
abbrev incBp (_ : U8) : Emu Unit := stepReg incLong incWord "inc ebp" "inc bp" .bp
abbrev incSi (_ : U8) : Emu Unit := stepReg incLong incWord "inc esi" "inc si" .si
abbrev incDi (_ : U8) : Emu Unit := stepReg incLong incWord "inc edi" "inc di" .di
abbrev decAx (_ : U8) : Emu Unit := stepReg decLong decWord "dec eax" "dec ax" .ax
abbrev decCx (_ : U8) : Emu Unit := stepReg decLong decWord "dec ecx" "dec cx" .cx
abbrev decDx (_ : U8) : Emu Unit := stepReg decLong decWord "dec edx" "dec dx" .dx
abbrev decBx (_ : U8) : Emu Unit := stepReg decLong decWord "dec ebx" "dec bx" .bx
abbrev decSp (_ : U8) : Emu Unit := stepReg decLong decWord "dec esp" "dec sp" .sp
abbrev decBp (_ : U8) : Emu Unit := stepReg decLong decWord "dec ebp" "dec bp" .bp
abbrev decSi (_ : U8) : Emu Unit := stepReg decLong decWord "dec esi" "dec si" .si
abbrev decDi (_ : U8) : Emu Unit := stepReg decLong decWord "dec edi" "dec di" .di

/-! ## Decimal adjustment and sign extension -/

def daa (_ : U8) : Emu Unit := do
  opDecode "daa"
  set8 .al (← flags (daaByte (← get8 .al)))

def das (_ : U8) : Emu Unit := do
  opDecode "das"
  set8 .al (← flags (dasByte (← get8 .al)))

def aaa (_ : U8) : Emu Unit := do
  opDecode "aaa"
  set16 .ax (← flags (aaaWord (← get16 .ax)))

def aas (_ : U8) : Emu Unit := do
  opDecode "aas"
  set16 .ax (← flags (aasWord (← get16 .ax)))

def aam (_ : U8) : Emu Unit := do
  opDecode "aam"
  let base ← fetchByte
  -- the handler goes on after the raise
  if base = 0 then intrRaiseDiv0
  set16 .ax (← aamWord (← get8 .al) base)

def aad (_ : U8) : Emu Unit := do
  opDecode "aad"
  let base ← fetchByte
  set16 .ax (← flags (aadWord (← get16 .ax) base))

def cbw (_ : U8) : Emu Unit := do
  if (← getMode).data32 then
    opDecode "cwde"
    setGen .ax ((← get16 .ax).signExtend 32)
  else
    opDecode "cbw"
    set16 .ax ((← get8 .al).signExtend 16)

def cwd (_ : U8) : Emu Unit := do
  if (← getMode).data32 then
    opDecode "cdq"
    setGen .dx (-((← getGen .ax) >>> 31))
  else
    opDecode "cwd"
    set16 .dx (-((← get16 .ax) >>> 15))

/-! ## Signed multiplication with an immediate -/

/-- The flags of the `imul` forms with a destination register. -/
def imulFlags {w : Nat} (overflow : Bool) (lo hi : BitVec w) : FlagOp Unit := do
  setMulOverflow overflow
  setFlagsForMul (hi ||| lo = 0) lo

/-- The product goes to register `rh`. -/
def imulStore (z : OpSize) (rh : BitVec 3) (d s : BitVec z.bits) : Emu Unit := do
  let (res, overflow) := imulDirect d s
  let lo : BitVec z.bits := res.extractLsb' 0 z.bits
  let hi : BitVec z.bits := res.extractLsb' z.bits z.bits
  setReg z rh lo
  flags (imulFlags overflow lo hi)

/-- The common body of `imul_word_IMM` and `imul_byte_IMM`: `immReg` reads the immediate of the
register form, `immMem` that of the memory form. -/
def imulImm (immReg immMem : (z : OpSize) → Emu (BitVec z.bits)) : Emu Unit := do
  opDecode "imul "
  let m ← fetchDecodeModrm
  let z ← dataSize
  decodeReg z m.regh
  opDecode ","
  if m.mod = 3 then
    decodeReg z m.regl
    let imm ← immReg z
    imulStore z m.regh (← getReg z m.regl) imm
  else
    let addr ← decodeRmAddress m.mod m.regl
    let val ← fetchDataSize z addr
    let imm ← immMem z
    imulStore z m.regh val imm

/-- An immediate of full size with its signed text; `ext` converts a word to the `s32` shown. -/
def imulWordImmediate (ext : U16 → U32) : (z : OpSize) → Emu (BitVec z.bits)
  | .byte => fetchByte
  | .word => do
    let imm ← fetchWord
    opDecode ","
    decode (decodeHex4s (ext imm))
    return imm
  | .long => do
    let imm ← fetchLong
    opDecode ","
    decode (decodeHex8s imm)
    return imm

/-- The memory form converts its word immediate without sign. -/
abbrev imulWordImm (_ : U8) : Emu Unit :=
  imulImm (imulWordImmediate (·.signExtend 32)) (imulWordImmediate (·.setWidth 32))

def imulByteImmediate (z : OpSize) : Emu (BitVec z.bits) := do
  let imm ← fetchByte
  opDecode ","
  decode (decodeHex2s (imm.signExtend 32))
  return imm.signExtend z.bits

abbrev imulByteImm (_ : U8) : Emu Unit := imulImm imulByteImmediate imulByteImmediate

/-! ## Test -/

/-- The common body of `test_*_RM_R`. -/
def testRmR (wide : Bool) : Emu Unit := do
  opDecode "test "
  let m ← fetchDecodeModrm
  if m.mod = 3 then
    let z ← opSize wide
    decodeReg z m.regl
    opDecode ","
    decodeReg z m.regh
    flags (testSize z (← getReg z m.regl) (← getReg z m.regh))
  else
    let addr ← decodeRmAddress m.mod m.regl
    opDecode ","
    let z ← opSize wide
    let val ← fetchDataSize z addr
    decodeReg z m.regh
    flags (testSize z val (← getReg z m.regh))

abbrev testByteRmR (_ : U8) : Emu Unit := testRmR false
abbrev testWordRmR (_ : U8) : Emu Unit := testRmR true

def testAlImm (_ : U8) : Emu Unit := do
  let imm ← accImm .byte "test al,"
  flags (testByte (← get8 .al) imm)

def testAxImm (_ : U8) : Emu Unit := do
  if (← getMode).data32 then
    let imm ← accImm .long "test eax,"
    flags (testLong (← getGen .ax) imm)
  else
    let imm ← accImm .word "test ax,"
    flags (testWord (← get16 .ax) imm)

/-! ## Shifts and rotates -/

/-- The common body of the shift opcodes; `text` follows the operand, then `count` is read. -/
def shiftRm (wide : Bool) (m : ModRm) (text : String) (count : Emu U8) : Emu Unit := do
  let z ← opSize wide
  if m.mod = 3 then
    decodeReg z m.regl
    opDecode text
    let imm ← count
    setReg z m.regl (← flags (opB z m.regh (← getReg z m.regl) imm))
  else
    opDecode z.text
    let addr ← decodeRmAddress m.mod m.regl
    opDecode text
    let val ← fetchDataSize z addr
    let imm ← count
    storeDataSize z addr (← flags (opB z m.regh val imm))

/-- `opcC0` and `opcC1` -/
def shiftRmImm (wide : Bool) : Emu Unit := do
  let m ← fetchDecodeModrm
  decodeOpB m.regh
  shiftRm wide m "," fetchImmByte

/-- `opcD0` and `opcD1` -/
def shiftRm1 (wide : Bool) : Emu Unit := do
  let m ← fetchDecodeModrm
  decodeOpB m.regh
  shiftRm wide m ",1" (pure 1)

/-- `opcD2` and `opcD3` -/
def shiftRmCl (wide : Bool) : Emu Unit := do
  let m ← fetchDecodeModrm
  decodeOpB m.regh
  let imm ← get8 .cl
  shiftRm wide m ",cl" (pure imm)

abbrev opcC0ByteRmMem (_ : U8) : Emu Unit := shiftRmImm false
abbrev opcC1WordRmMem (_ : U8) : Emu Unit := shiftRmImm true
abbrev opcD0ByteRm1 (_ : U8) : Emu Unit := shiftRm1 false
abbrev opcD1WordRm1 (_ : U8) : Emu Unit := shiftRm1 true
abbrev opcD2ByteRmCl (_ : U8) : Emu Unit := shiftRmCl false
abbrev opcD3WordRmCl (_ : U8) : Emu Unit := shiftRmCl true

/-! ## Groups F6, F7 and FE -/

def groupText (rh : BitVec 3) : String :=
  match rh.toNat with
  | 0 => "test " | 1 => "test " | 2 => "not " | 3 => "neg "
  | 4 => "mul " | 5 => "imul " | 6 => "div " | _ => "idiv "

/-- What group F6 and F7 do with a value that they do not store. -/
def groupUse (z : OpSize) (rh : BitVec 3) (val : BitVec z.bits) : Emu Unit :=
  match rh.toNat with
  | 4 => mulSize z val
  | 5 => imulSize z val
  | 6 => divSize z val
  | _ => idivSize z val

/-- The register form of group F6 and F7. -/
def groupReg (z : OpSize) (m : ModRm) : Emu Unit := do
  decodeReg z m.regl
  match m.regh.toNat with
  | 0 | 1 =>
    opDecode ","
    let imm ← fetchImm z
    flags (testSize z (← getReg z m.regl) imm)
  | 2 => setReg z m.regl (← flags (notSize z (← getReg z m.regl)))
  | 3 => setReg z m.regl (← flags (negSize z (← getReg z m.regl)))
  | _ => groupUse z m.regh (← getReg z m.regl)

/-- The memory form of group F6 and F7. -/
def groupMem (z : OpSize) (m : ModRm) : Emu Unit := do
  opDecode z.text
  let addr ← decodeRmAddress m.mod m.regl
  match m.regh.toNat with
  | 0 | 1 =>
    opDecode ","
    let imm ← fetchImm z
    let val ← fetchDataSize z addr
    flags (testSize z val imm)
  | 2 =>
    let val ← fetchDataSize z addr
    storeDataSize z addr (← flags (notSize z val))
  | 3 =>
    let val ← fetchDataSize z addr
    storeDataSize z addr (← flags (negSize z val))
  | _ =>
    let val ← fetchDataSize z addr
    groupUse z m.regh val

/-- The common body of `opcF6` and `opcF7`. -/
def groupRm (wide : Bool) : Emu Unit := do
  let m ← fetchDecodeModrm
  opDecode (groupText m.regh)
  let z ← opSize wide
  if m.mod = 3 then groupReg z m else groupMem z m

abbrev opcF6ByteRm (_ : U8) : Emu Unit := groupRm false
abbrev opcF7WordRm (_ : U8) : Emu Unit := groupRm true

/-- Increment or decrement of the operand of `opcFE`. -/
def stepByteRm (op : U8 → FlagOp U8) (m : ModRm) : Emu Unit := do
  if m.mod = 3 then
    decodeReg .byte m.regl
    setReg .byte m.regl (← flags (op (← getReg .byte m.regl)))
  else
    opDecode "byte "
    let addr ← decodeRmAddress m.mod m.regl
    let val ← fetchDataByte addr
    storeDataByte addr (← flags (op val))

def opcFeByteRm (_ : U8) : Emu Unit := do
  let m ← fetchDecodeModrm
  match m.regh.toNat with
  | 0 =>
    opDecode "inc "
    stepByteRm incByte m
  | 1 =>
    opDecode "dec "
    stepByteRm decByte m
  | _ => intrRaiseUd

/-! ## Flags -/

/-- The common body of the handlers that set or clear one flag. -/
def flagOp (text : String) (op : FlagOp Unit) : Emu Unit := do
  opDecode text
  flags op

abbrev cmc (_ : U8) : Emu Unit := flagOp "cmc" (toggleFlag .cf)
abbrev clc (_ : U8) : Emu Unit := flagOp "clc" (clearFlag .cf)
abbrev stc (_ : U8) : Emu Unit := flagOp "stc" (setFlag .cf)
abbrev cli (_ : U8) : Emu Unit := flagOp "cli" (clearFlag .if')
abbrev sti (_ : U8) : Emu Unit := flagOp "sti" (setFlag .if')
abbrev cld (_ : U8) : Emu Unit := flagOp "cld" (clearFlag .df)
abbrev std (_ : U8) : Emu Unit := flagOp "std" (setFlag .df)

def setalc (_ : U8) : Emu Unit := do
  opDecode "setalc"
  set8 .al (if ← flags (accessFlag .cf) then 0xff else 0)

def sahf (_ : U8) : Emu Unit := do
  opDecode "sahf"
  setEflg ((← getCpu).eflg &&& 0xffffff00)
  setEflg ((← getCpu).eflg ||| (((← get8 .ah).setWidth 32 ||| fAlwaysOn) &&& 0xff))

def lahf (_ : U8) : Emu Unit := do
  opDecode "lahf"
  set8 .ah (((← getCpu).eflg ||| fAlwaysOn).setWidth 8)

end X86Emu.Op
