import X86Emu.Ops.Operand

/-!
# One byte opcodes: data movement

The handlers of `ops.c` that move data between registers, memory, the stack and ports.
-/

namespace X86Emu.Op

open Lib

/-! ## Segment registers and the stack -/

/-- `push_long` or `push_word` of a zero-extended selector. -/
def pushSel (v : U16) : Emu Unit := do
  if (← getMode).data32 then pushLong (v.setWidth 32) else pushWord v

/-- The selector `pop_long` or `pop_word` gives. -/
def popSel : Emu U16 := do
  if (← getMode).data32 then return (← popLong).setWidth 16 else popWord

def pushSeg (text : String) (r : SegReg) : Emu Unit := do
  opDecode text
  pushSel ((← getCpu).seg r).sel

def popSeg (text : String) (r : SegReg) : Emu Unit := do
  opDecode text
  x86emuSetSegRegister (.seg r) (← popSel)

abbrev pushEs (_ : U8) : Emu Unit := pushSeg "push es" .es
abbrev popEs (_ : U8) : Emu Unit := popSeg "pop es" .es
abbrev pushCs (_ : U8) : Emu Unit := pushSeg "push cs" .cs
abbrev pushSs (_ : U8) : Emu Unit := pushSeg "push ss" .ss
abbrev popSs (_ : U8) : Emu Unit := popSeg "pop ss" .ss
abbrev pushDs (_ : U8) : Emu Unit := pushSeg "push ds" .ds
abbrev popDs (_ : U8) : Emu Unit := popSeg "pop ds" .ds

def pushReg (text32 text16 : String) (r : Reg) : Emu Unit := do
  if (← getMode).data32 then
    opDecode text32
    pushLong (← getGen r)
  else
    opDecode text16
    pushWord (← get16 r)

def popReg (text32 text16 : String) (r : Reg) : Emu Unit := do
  if (← getMode).data32 then
    opDecode text32
    setGen r (← popLong)
  else
    opDecode text16
    set16 r (← popWord)

abbrev pushAx (_ : U8) : Emu Unit := pushReg "push eax" "push ax" .ax
abbrev pushCx (_ : U8) : Emu Unit := pushReg "push ecx" "push cx" .cx
abbrev pushDx (_ : U8) : Emu Unit := pushReg "push edx" "push dx" .dx
abbrev pushBx (_ : U8) : Emu Unit := pushReg "push ebx" "push bx" .bx
abbrev pushSp (_ : U8) : Emu Unit := pushReg "push esp" "push sp" .sp
abbrev pushBp (_ : U8) : Emu Unit := pushReg "push ebp" "push bp" .bp
abbrev pushSi (_ : U8) : Emu Unit := pushReg "push esi" "push si" .si
abbrev pushDi (_ : U8) : Emu Unit := pushReg "push edi" "push di" .di
abbrev popAx (_ : U8) : Emu Unit := popReg "pop eax" "pop ax" .ax
abbrev popCx (_ : U8) : Emu Unit := popReg "pop ecx" "pop cx" .cx
abbrev popDx (_ : U8) : Emu Unit := popReg "pop edx" "pop dx" .dx
abbrev popBx (_ : U8) : Emu Unit := popReg "pop ebx" "pop bx" .bx
abbrev popSp (_ : U8) : Emu Unit := popReg "pop esp" "pop sp" .sp
abbrev popBp (_ : U8) : Emu Unit := popReg "pop ebp" "pop bp" .bp
abbrev popSi (_ : U8) : Emu Unit := popReg "pop esi" "pop si" .si
abbrev popDi (_ : U8) : Emu Unit := popReg "pop edi" "pop di" .di

def pushAll (_ : U8) : Emu Unit := do
  let esp ← getGen .sp
  if (← getMode).data32 then
    opDecode "pushad"
    pushLong (← getGen .ax)
    pushLong (← getGen .cx)
    pushLong (← getGen .dx)
    pushLong (← getGen .bx)
    pushLong esp
    pushLong (← getGen .bp)
    pushLong (← getGen .si)
    pushLong (← getGen .di)
  else
    opDecode "pusha"
    pushWord (← get16 .ax)
    pushWord (← get16 .cx)
    pushWord (← get16 .dx)
    pushWord (← get16 .bx)
    pushWord (esp.setWidth 16)
    pushWord (← get16 .bp)
    pushWord (← get16 .si)
    pushWord (← get16 .di)

def popAll (_ : U8) : Emu Unit := do
  if (← getMode).data32 then
    opDecode "popad"
    setGen .di (← popLong)
    setGen .si (← popLong)
    setGen .bp (← popLong)
    setGen .sp ((← getGen .sp) + 4)
    setGen .bx (← popLong)
    setGen .dx (← popLong)
    setGen .cx (← popLong)
    setGen .ax (← popLong)
  else
    opDecode "popa"
    set16 .di (← popWord)
    set16 .si (← popWord)
    set16 .bp (← popWord)
    set16 .sp ((← get16 .sp) + 2)
    set16 .bx (← popWord)
    set16 .dx (← popWord)
    set16 .cx (← popWord)
    set16 .ax (← popWord)

def pushWordImm (_ : U8) : Emu Unit := do
  opDecode "push "
  let z ← dataSize
  let imm ← fetchImm z
  pushSize z imm

def pushByteImm (_ : U8) : Emu Unit := do
  opDecode "push "
  let imm : U32 := (← fetchByte).signExtend 32
  decode (decodeHex2s imm)
  if (← getMode).data32 then pushLong imm else pushWord (imm.setWidth 16)

def pushfWord (_ : U8) : Emu Unit := do
  let mask := if ← hasCpuid then fMsk ||| fbId else fMsk
  let fl := ((← getCpu).eflg &&& mask) ||| fAlwaysOn
  if (← getMode).data32 then
    opDecode "pushfd"
    pushLong fl
  else
    opDecode "pushf"
    pushWord (fl.setWidth 16)

def popfWord (_ : U8) : Emu Unit := do
  if (← getMode).data32 then
    opDecode "popfd"
    setEflg ((← popLong) ||| fAlwaysOn)
  else
    opDecode "popf"
    -- `R_FLG` is all of `EFLAGS`
    setEflg ((← popWord).setWidth 32 ||| fAlwaysOn)

def popRm (_ : U8) : Emu Unit := do
  opDecode "pop "
  let m ← fetchDecodeModrm
  if m.regh ≠ 0 then
    intrRaiseUd
  else if m.mod = 3 then
    let z ← dataSize
    decodeReg z m.regl
    setReg z m.regl (← popSize z)
  else
    let addr ← decodeRmAddress m.mod m.regl
    let z ← dataSize
    let val ← popSize z
    storeDataSize z addr val

/-- The copies of the outer frame pointers that `enter` pushes. -/
def enterCopy : Emu Unit := do
  let mode ← getMode
  let size : U32 := if mode.data32 then 4 else 2
  addIdx mode.stack32 .bp (-size)
  let ofs ← getIdx mode.stack32 .bp
  if mode.data32 then
    pushLong (← fetchDataLongAbs .ss ofs)
  else
    pushWord (← fetchDataWordAbs .ss ofs)

def enter (_ : U8) : Emu Unit := do
  opDecode "enter "
  let locals := (← fetchWord).setWidth 32
  let nesting ← fetchByte
  decode (decodeHex4 locals)
  opDecode ","
  decode (decodeHex2 (nesting.setWidth 32))
  let nesting := nesting &&& 0x1f
  if (← getMode).stack32 then pushLong (← getGen .bp) else pushWord (← get16 .bp)
  let framePointer ← getIdx (← getMode).stack32 .sp
  if nesting > 0 then
    forLoop (nesting.toNat - 1) fun _ => enterCopy
    if (← getMode).data32 then pushLong framePointer else pushWord (framePointer.setWidth 16)
  let stack32 := (← getMode).stack32
  setIdx stack32 .bp framePointer
  addIdx stack32 .sp (-locals)

def leave (_ : U8) : Emu Unit := do
  opDecode "leave"
  let stack32 := (← getMode).stack32
  setIdx stack32 .sp (← getIdx stack32 .bp)
  if (← getMode).data32 then setGen .bp (← popLong) else set16 .bp (← popWord)

/-! ## Exchange -/

/-- The common body of `xchg_*_RM_R`. -/
def xchgRmR (wide : Bool) : Emu Unit := do
  opDecode "xchg "
  let m ← fetchDecodeModrm
  if m.mod = 3 then
    let z ← opSize wide
    decodeReg z m.regl
    opDecode ","
    decodeReg z m.regh
    let val ← getReg z m.regh
    setReg z m.regh (← getReg z m.regl)
    setReg z m.regl val
  else
    let addr ← decodeRmAddress m.mod m.regl
    opDecode ","
    let z ← opSize wide
    let val ← fetchDataSize z addr
    decodeReg z m.regh
    storeDataSize z addr (← getReg z m.regh)
    setReg z m.regh val

abbrev xchgByteRmR (_ : U8) : Emu Unit := xchgRmR false
abbrev xchgWordRmR (_ : U8) : Emu Unit := xchgRmR true

def xchgAx (text32 text16 : String) (r : Reg) : Emu Unit := do
  if (← getMode).data32 then
    opDecode text32
    let val ← getGen .ax
    setGen .ax (← getGen r)
    setGen r val
  else
    opDecode text16
    let val ← get16 .ax
    set16 .ax (← get16 r)
    set16 r val

abbrev nop (_ : U8) : Emu Unit := opDecode "nop"
abbrev xchgWordAxCx (_ : U8) : Emu Unit := xchgAx "xchg eax,ecx" "xchg ax,cx" .cx
abbrev xchgWordAxDx (_ : U8) : Emu Unit := xchgAx "xchg eax,edx" "xchg ax,dx" .dx
abbrev xchgWordAxBx (_ : U8) : Emu Unit := xchgAx "xchg eax,ebx" "xchg ax,bx" .bx
abbrev xchgWordAxSp (_ : U8) : Emu Unit := xchgAx "xchg eax,esp" "xchg ax,sp" .sp
abbrev xchgWordAxBp (_ : U8) : Emu Unit := xchgAx "xchg eax,ebp" "xchg ax,bp" .bp
abbrev xchgWordAxSi (_ : U8) : Emu Unit := xchgAx "xchg eax,esi" "xchg ax,si" .si
abbrev xchgWordAxDi (_ : U8) : Emu Unit := xchgAx "xchg eax,edi" "xchg ax,di" .di

/-! ## Move -/

/-- The common body of `mov_*_RM_R`. -/
def movRmR (wide : Bool) : Emu Unit := do
  opDecode "mov "
  let m ← fetchDecodeModrm
  if m.mod = 3 then
    let z ← opSize wide
    decodeReg z m.regl
    opDecode ","
    decodeReg z m.regh
    setReg z m.regl (← getReg z m.regh)
  else
    let addr ← decodeRmAddress m.mod m.regl
    opDecode ","
    let z ← opSize wide
    decodeReg z m.regh
    storeDataSize z addr (← getReg z m.regh)

/-- The common body of `mov_*_R_RM`. -/
def movRRm (wide : Bool) : Emu Unit := do
  opDecode "mov "
  let m ← fetchDecodeModrm
  let z ← opSize wide
  decodeReg z m.regh
  opDecode ","
  if m.mod = 3 then
    decodeReg z m.regl
    setReg z m.regh (← getReg z m.regl)
  else
    let addr ← decodeRmAddress m.mod m.regl
    setReg z m.regh (← fetchDataSize z addr)

abbrev movByteRmR (_ : U8) : Emu Unit := movRmR false
abbrev movWordRmR (_ : U8) : Emu Unit := movRmR true
abbrev movByteRRm (_ : U8) : Emu Unit := movRRm false
abbrev movWordRRm (_ : U8) : Emu Unit := movRRm true

/-- `decode_rm_seg_register(emu, rh)->sel` -/
def fetchSelector (rh : BitVec 3) : Emu U16 := do
  let seg ← decodeRmSegRegister rh
  return ((← getCpu).seg seg).sel

def movWordRmSr (_ : U8) : Emu Unit := do
  opDecode "mov "
  let m ← fetchDecodeModrm
  if m.mod = 3 then
    if (← getMode).data32 then
      let r ← decodeRmLongRegister m.regl
      opDecode ","
      setGen r ((← fetchSelector m.regh).setWidth 32)
    else
      let r ← decodeRmWordRegister m.regl
      opDecode ","
      set16 r (← fetchSelector m.regh)
  else
    let addr ← decodeRmAddress m.mod m.regl
    opDecode ","
    let val ← fetchSelector m.regh
    storeDataWord addr val

def movWordSrRm (_ : U8) : Emu Unit := do
  opDecode "mov "
  let m ← fetchDecodeModrm
  let seg ← decodeRmSegRegister m.regh
  opDecode ","
  if m.mod = 3 then
    let r ← decodeRmWordRegister m.regl
    x86emuSetSegRegister (.seg seg) (← get16 r)
  else
    let addr ← decodeRmAddress m.mod m.regl
    let val ← fetchDataWord addr
    x86emuSetSegRegister (.seg seg) val

def leaWordRM (_ : U8) : Emu Unit := do
  opDecode "lea "
  let m ← fetchDecodeModrm
  if m.mod = 3 then
    intrRaiseUd
  else
    let z ← dataSize
    decodeReg z m.regh
    opDecode ","
    let addr ← decodeRmAddress m.mod m.regl
    setReg z m.regh (addr.setWidth z.bits)

/-- The common body of `les`, `lds`, `lss`, `lfs` and `lgs`. -/
def loadFarPtr (text : String) (seg : SegReg) : Emu Unit := do
  opDecode text
  let m ← fetchDecodeModrm
  if m.mod = 3 then
    intrRaiseUd
  else
    let z ← dataSize
    decodeReg z m.regh
    opDecode ","
    let addr ← decodeRmAddress m.mod m.regl
    setReg z m.regh (← fetchDataSize z addr)
    let addr := addr + (if z = .long then 4 else 2)
    let val ← fetchDataWord addr
    x86emuSetSegRegister (.seg seg) val

abbrev lesRImm (_ : U8) : Emu Unit := loadFarPtr "les " .es
abbrev ldsRImm (_ : U8) : Emu Unit := loadFarPtr "lds " .ds

/-- `mov_byte_RM_IMM`; the register form writes no comma. -/
def movByteRmImm (_ : U8) : Emu Unit := do
  opDecode "mov "
  let m ← fetchDecodeModrm
  if m.regh ≠ 0 then
    intrRaiseUd
  else if m.mod = 3 then
    let r ← decodeRmByteRegister m.regl
    let imm ← fetchImmByte
    set8 r imm
  else
    let addr ← decodeRmAddress m.mod m.regl
    opDecode ","
    let imm ← fetchImmByte
    storeDataByte addr imm

/-- `mov_word_RM_IMM`; unlike the byte form it goes on after the raise. -/
def movWordRmImm (_ : U8) : Emu Unit := do
  opDecode "mov "
  let m ← fetchDecodeModrm
  if m.regh ≠ 0 then intrRaiseUd
  if m.mod = 3 then
    let z ← dataSize
    decodeReg z m.regl
    let imm ← fetchImm z
    setReg z m.regl imm
  else
    let addr ← decodeRmAddress m.mod m.regl
    opDecode ","
    let z ← dataSize
    let imm ← fetchImm z
    storeDataSize z addr imm

def movByteImm (text : String) (r : Reg8) : Emu Unit := do
  opDecode text
  let val ← fetchImmByte
  set8 r val

def movWordImm (text32 text16 : String) (r : Reg) : Emu Unit := do
  if (← getMode).data32 then
    opDecode text32
    let val ← fetchImm .long
    setGen r val
  else
    opDecode text16
    let val ← fetchImm .word
    set16 r val

abbrev movByteAlImm (_ : U8) : Emu Unit := movByteImm "mov al," .al
abbrev movByteClImm (_ : U8) : Emu Unit := movByteImm "mov cl," .cl
abbrev movByteDlImm (_ : U8) : Emu Unit := movByteImm "mov dl," .dl
abbrev movByteBlImm (_ : U8) : Emu Unit := movByteImm "mov bl," .bl
abbrev movByteAhImm (_ : U8) : Emu Unit := movByteImm "mov ah," .ah
abbrev movByteChImm (_ : U8) : Emu Unit := movByteImm "mov ch," .ch
abbrev movByteDhImm (_ : U8) : Emu Unit := movByteImm "mov dh," .dh
abbrev movByteBhImm (_ : U8) : Emu Unit := movByteImm "mov bh," .bh
abbrev movWordAxImm (_ : U8) : Emu Unit := movWordImm "mov eax," "mov ax," .ax
abbrev movWordCxImm (_ : U8) : Emu Unit := movWordImm "mov ecx," "mov cx," .cx
abbrev movWordDxImm (_ : U8) : Emu Unit := movWordImm "mov edx," "mov dx," .dx
abbrev movWordBxImm (_ : U8) : Emu Unit := movWordImm "mov ebx," "mov bx," .bx
abbrev movWordSpImm (_ : U8) : Emu Unit := movWordImm "mov esp," "mov sp," .sp
abbrev movWordBpImm (_ : U8) : Emu Unit := movWordImm "mov ebp," "mov bp," .bp
abbrev movWordSiImm (_ : U8) : Emu Unit := movWordImm "mov esi," "mov si," .si
abbrev movWordDiImm (_ : U8) : Emu Unit := movWordImm "mov edi," "mov di," .di

/-! ## Accumulator and memory -/

/-- The offset in the instruction, with its text. -/
def fetchOffset : Emu U32 := do
  if (← getMode).addr32 then
    fetchImm .long
  else
    return (← fetchImm .word).setWidth 32

def movAlMImm (_ : U8) : Emu Unit := do
  opDecode "mov al,["
  let addr ← fetchOffset
  opDecode "]"
  set8 .al (← fetchDataByte addr)

def movAxMImm (_ : U8) : Emu Unit := do
  opDecode (if (← getMode).data32 then "mov eax,[" else "mov ax,[")
  let addr ← fetchOffset
  opDecode "]"
  let z ← dataSize
  setReg z 0 (← fetchDataSize z addr)

def movMAlImm (_ : U8) : Emu Unit := do
  opDecode "mov ["
  let addr ← fetchOffset
  opDecode "],al"
  storeDataByte addr (← get8 .al)

def movMAxImm (_ : U8) : Emu Unit := do
  opDecode "mov ["
  let addr ← fetchOffset
  if (← getMode).data32 then
    opDecode "],eax"
    storeDataLong addr (← getGen .ax)
  else
    opDecode "],ax"
    storeDataWord addr (← get16 .ax)

def xlat (_ : U8) : Emu Unit := do
  opDecode "xlat"
  let al ← get8 .al
  let addr ←
    if (← getMode).data32 then pure ((← getGen .bx) + al.setWidth 32)
    else pure (((← get16 .bx).setWidth 32 + al.setWidth 32) &&& 0xffff)
  set8 .al (← fetchDataByte addr)

/-! ## Ports -/

def inByteAlImm (_ : U8) : Emu Unit := do
  opDecode "in al,"
  let port ← fetchImmByte
  set8 .al (← fetchIoByte (port.setWidth 32))

def inWordAxImm (_ : U8) : Emu Unit := do
  opDecode "in "
  let port ← fetchByte
  if (← getMode).data32 then
    opDecode "eax,"
    setGen .ax (← fetchIoLong (port.setWidth 32))
  else
    opDecode "ax,"
    set16 .ax (← fetchIoWord (port.setWidth 32))
  decode (decodeHex2 (port.setWidth 32))

def outByteImmAl (_ : U8) : Emu Unit := do
  opDecode "out "
  let port ← fetchImmByte
  opDecode ",al"
  storeIoByte (port.setWidth 32) (← get8 .al)

def outWordImmAx (_ : U8) : Emu Unit := do
  opDecode "out "
  let port ← fetchImmByte
  if (← getMode).data32 then
    opDecode ",eax"
    storeIoLong (port.setWidth 32) (← getGen .ax)
  else
    opDecode ",ax"
    storeIoWord (port.setWidth 32) (← get16 .ax)

/-- `R_DX` as a port -/
def portDx : Emu U32 := do return (← get16 .dx).setWidth 32

def inByteAlDx (_ : U8) : Emu Unit := do
  opDecode "in al,dx"
  set8 .al (← fetchIoByte (← portDx))

def inWordAxDx (_ : U8) : Emu Unit := do
  if (← getMode).data32 then
    opDecode "in eax,dx"
    setGen .ax (← fetchIoLong (← portDx))
  else
    opDecode "in ax,dx"
    set16 .ax (← fetchIoWord (← portDx))

def outByteDxAl (_ : U8) : Emu Unit := do
  opDecode "out dx,al"
  storeIoByte (← portDx) (← get8 .al)

def outWordDxAx (_ : U8) : Emu Unit := do
  if (← getMode).data32 then
    opDecode "out dx,eax"
    storeIoLong (← portDx) (← getGen .ax)
  else
    opDecode "out dx,ax"
    storeIoWord (← portDx) (← get16 .ax)

end X86Emu.Op
