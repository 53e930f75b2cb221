import X86Emu.Ops.Data

/-!
# One byte opcodes: control transfer

Jumps, calls, returns, software interrupts and the remaining handlers of `ops.c`.
-/

namespace X86Emu.Op

open Lib

/-! ## Jumps -/

/-- `R_EIP + ofs` for a byte displacement. -/
def fetchTarget : Emu U32 := do
  let ofs : U32 := (← fetchByte).signExtend 32
  return (← getEip) + ofs

/-- `DECODE_HEX_ADDR` -/
def decodeAddr (eip : U32) : Emu Unit := do
  decode (decodeHexAddr (← getMode).code32 eip)

/-- The target, reduced to 16 bits by a 16 bit operand size. -/
def truncTarget (eip : U32) : Emu U32 := do
  return if (← getMode).data32 then eip else eip &&& 0xffff

/-- The common body of the two conditional jumps. -/
def jumpIf (type : BitVec 4) (eip : U32) : Emu Unit := do
  if evalCondition (← getCpu) type then setEip eip

def jumpShortCc (op1 : U8) : Emu Unit := do
  let type : BitVec 4 := op1.setWidth 4
  opDecode "j"
  decodeCond type
  let eip ← fetchTarget
  decodeAddr eip
  let eip ← truncTarget eip
  jumpIf type eip

/-- The common body of `loop`, `loope` and `loopne`; `go` is the condition on `ZF`. -/
def loopCc (text : String) (go : Bool → Bool) : Emu Unit := do
  opDecode text
  let eip ← fetchTarget
  decodeAddr eip
  let wide := (← getMode).data32
  let eip ← truncTarget eip
  addIdx wide .cx (-1)
  let cx ← getIdx wide .cx
  if cx ≠ 0 && go (← flags (accessFlag .zf)) then setEip eip

abbrev loopne (_ : U8) : Emu Unit := loopCc "loopnz " (!·)
abbrev loope (_ : U8) : Emu Unit := loopCc "loopz " id
abbrev loop (_ : U8) : Emu Unit := loopCc "loop " fun _ => true

def jcxz (_ : U8) : Emu Unit := do
  let eip ← fetchTarget
  let wide := (← getMode).data32
  opDecode (if wide then "jecxz " else "jcxz ")
  let eip ← truncTarget eip
  decodeAddr eip
  if (← getIdx wide .cx) = 0 then setEip eip

/-- The displacement of a near call or jump. -/
def fetchNearOfs : Emu U32 := do
  if (← getMode).data32 then fetchLong else fetchSignedWord

/-- `push_long(R_EIP)` or `push_word(R_IP)` -/
def pushIp : Emu Unit := do
  let z ← dataSize
  pushSize z (← getIpSize z)

def callNearImm (_ : U8) : Emu Unit := do
  opDecode "call "
  let ofs ← fetchNearOfs
  let eip ← truncTarget ((← getEip) + ofs)
  decodeAddr eip
  pushIp
  setEip eip

def jumpNearImm (_ : U8) : Emu Unit := do
  opDecode "jmp "
  let ofs ← fetchNearOfs
  let eip ← truncTarget ((← getEip) + ofs)
  decodeAddr eip
  setEip eip

def jumpByteImm (_ : U8) : Emu Unit := do
  opDecode "jmp "
  let ofs ← fetchByte
  let eip ← truncTarget ((← getEip) + ofs.signExtend 32)
  decodeAddr eip
  let cpu ← getCpu
  if (← tracing traceDebug) && cpu.eip - cpu.savedEip = 3 then
    debugRecord ((cpu.seg .cs).base + cpu.eip) ofs
  setEip eip

/-! ## Far transfers -/

/-- The immediate offset of a far pointer. -/
def fetchFarOfs : Emu U32 := do
  if (← getMode).data32 then fetchLong else return (← fetchWord).setWidth 32

/-- The text of a far pointer. -/
def decodeFar (cs : U16) (eip : U32) : Emu Unit := do
  decode (decodeHex4 (cs.setWidth 32))
  opDecode ":"
  decode (if (← getMode).data32 then decodeHex8 eip else decodeHex4 eip)

/-- The return address of a far call. -/
def pushFar : Emu Unit := do
  pushSel ((← getCpu).seg .cs).sel
  pushIp

/-- The load of `CS` and `EIP` that ends every far transfer. -/
def farTransfer (cs : U16) (eip : U32) : Emu Unit := do
  x86emuSetSegRegister (.seg .cs) cs
  setEip eip

def callFarImm (_ : U8) : Emu Unit := do
  opDecode "call far "
  let eip ← fetchFarOfs
  let cs ← fetchWord
  decodeFar cs eip
  pushFar
  farTransfer cs eip

def jumpFarImm (_ : U8) : Emu Unit := do
  opDecode "jmp far "
  let eip ← fetchFarOfs
  let cs ← fetchWord
  farTransfer cs eip
  decodeFar cs eip

/-! ## Returns -/

/-- `pop_long` or the zero-extended `pop_word` -/
def popData : Emu U32 := do
  if (← getMode).data32 then popLong else return (← popWord).setWidth 32

/-- `R_ESP += imm` or `R_SP += imm`; the operand size decides, not the stack size. -/
def releaseStack (imm : U32) : Emu Unit := do
  addIdx (← getMode).data32 .sp imm

def retNearImm (_ : U8) : Emu Unit := do
  opDecode "ret "
  let imm ← fetchImm .word
  setEip (← popData)
  releaseStack (imm.setWidth 32)

def retNear (_ : U8) : Emu Unit := do
  opDecode "ret"
  setEip (← popData)

def retFarImm (_ : U8) : Emu Unit := do
  opDecode "retf "
  let imm ← fetchImm .word
  let eip ← popData
  let cs ← popData
  releaseStack (imm.setWidth 32)
  farTransfer (cs.setWidth 16) eip

def retFar (_ : U8) : Emu Unit := do
  opDecode "retf"
  let eip ← popData
  let cs ← popData
  farTransfer (cs.setWidth 16) eip

def iret (_ : U8) : Emu Unit := do
  opDecode "iret"
  let eip ← popData
  let cs ← popData
  setEflg ((← popData) ||| fAlwaysOn)
  farTransfer (cs.setWidth 16) eip

/-! ## Interrupts -/

def int3 (_ : U8) : Emu Unit := do
  opDecode "int 3"
  intrRaiseSoft 3

def intImm (_ : U8) : Emu Unit := do
  opDecode "int "
  let nr ← fetchImmByte
  intrRaiseSoft nr

def into (_ : U8) : Emu Unit := do
  opDecode "into"
  if ← flags (accessFlag .of) then intrRaiseSoft 4

abbrev wait (_ : U8) : Emu Unit := opDecode "wait"

def hlt (_ : U8) : Emu Unit := do
  opDecode "hlt"
  x86emuStop

/-! ## Group FF -/

/-- `inc` and `dec` of a word operand. -/
def stepWordRm (op : (z : OpSize) → BitVec z.bits → FlagOp (BitVec z.bits)) (m : ModRm) :
    Emu Unit := do
  let z ← dataSize
  if m.mod = 3 then
    decodeReg z m.regl
    setReg z m.regl (← flags (op z (← getReg z m.regl)))
  else
    opDecode z.text
    let addr ← decodeRmAddress m.mod m.regl
    let val ← fetchDataSize z addr
    storeDataSize z addr (← flags (op z val))

/-- A near call or jump through an operand; `push` is done before the jump. -/
def jumpRm (push : Emu Unit) (m : ModRm) : Emu Unit := do
  let z ← dataSize
  if m.mod = 3 then
    decodeReg z m.regl
    push
    setEip ((← getReg z m.regl).setWidth 32)
  else
    opDecode z.text
    let addr ← decodeRmAddress m.mod m.regl
    let val ← fetchDataSize z addr
    push
    setEip (val.setWidth 32)

/-- A far call or jump through memory. -/
def jumpFarRm (push : Emu Unit) (m : ModRm) : Emu Unit := do
  let mode ← getMode
  let z ← dataSize
  -- the size is shown when it is not the code size, and it is the other size that is shown
  if mode.data32 ≠ mode.code32 then opDecode (if mode.data32 then "word " else "dword ")
  let addr ← decodeRmAddress m.mod m.regl
  let val ← fetchDataSize z addr
  let cs ← fetchDataWord (addr + (if z = .long then 4 else 2))
  push
  farTransfer cs (val.setWidth 32)

def pushRm (m : ModRm) : Emu Unit := do
  let z ← dataSize
  if m.mod = 3 then
    decodeReg z m.regl
    pushSize z (← getReg z m.regl)
  else
    opDecode z.text
    let addr ← decodeRmAddress m.mod m.regl
    let val ← fetchDataSize z addr
    pushSize z val

def opcFfWordRm (_ : U8) : Emu Unit := do
  let m ← fetchDecodeModrm
  match m.regh.toNat with
  | 0 =>
    opDecode "inc "
    stepWordRm incSize m
  | 1 =>
    opDecode "dec "
    stepWordRm decSize m
  | 2 =>
    opDecode "call "
    jumpRm pushIp m
  | 3 =>
    if m.mod = 3 then
      intrRaiseUd
    else
      opDecode "call far "
      jumpFarRm pushFar m
  | 4 =>
    opDecode "jmp "
    jumpRm (pure ()) m
  | 5 =>
    if m.mod = 3 then
      intrRaiseUd
    else
      opDecode "jmp far "
      jumpFarRm (pure ()) m
  | 6 =>
    opDecode "push "
    pushRm m
  | _ => intrRaiseUd

end X86Emu.Op
