import X86Emu.Decode.Fetch

/-!
# Register operands and effective addresses

`decode_rm_*_register` return a register; a handler then reads or writes it as the source does
through the pointer. `decode_rm_address` and the functions it calls read the SIB byte and the
displacement, append the operand's text and return the effective address.
-/

namespace X86Emu

open Lib

/-! ## Register tables -/

def Reg.ofBits (r : BitVec 3) : Reg :=
  match r.toNat with
  | 0 => .ax | 1 => .cx | 2 => .dx | 3 => .bx | 4 => .sp | 5 => .bp | 6 => .si | _ => .di

def Reg8.ofBits (r : BitVec 3) : Reg8 :=
  match r.toNat with
  | 0 => .al | 1 => .cl | 2 => .dl | 3 => .bl | 4 => .ah | 5 => .ch | 6 => .dh | _ => .bh

def Reg.name16 : Reg → String
  | .ax => "ax" | .cx => "cx" | .dx => "dx" | .bx => "bx"
  | .sp => "sp" | .bp => "bp" | .si => "si" | .di => "di"

def Reg.name32 : Reg → String
  | .ax => "eax" | .cx => "ecx" | .dx => "edx" | .bx => "ebx"
  | .sp => "esp" | .bp => "ebp" | .si => "esi" | .di => "edi"

def Reg8.name : Reg8 → String
  | .al => "al" | .cl => "cl" | .dl => "dl" | .bl => "bl"
  | .ah => "ah" | .ch => "ch" | .dh => "dh" | .bh => "bh"

def SegReg.name : SegReg → String
  | .es => "es" | .cs => "cs" | .ss => "ss" | .ds => "ds" | .fs => "fs" | .gs => "gs"
  | .noseg => ""

def xmmName (r : BitVec 3) : String :=
  match r.toNat with
  | 0 => "xmm0" | 1 => "xmm1" | 2 => "xmm2" | 3 => "xmm3"
  | 4 => "xmm4" | 5 => "xmm5" | 6 => "xmm6" | _ => "xmm7"

def decodeRmByteRegister (reg : BitVec 3) : Emu Reg8 := do
  opDecode (Reg8.ofBits reg).name
  return Reg8.ofBits reg

def decodeRmWordRegister (reg : BitVec 3) : Emu Reg := do
  opDecode (Reg.ofBits reg).name16
  return Reg.ofBits reg

def decodeRmLongRegister (reg : BitVec 3) : Emu Reg := do
  opDecode (Reg.ofBits reg).name32
  return Reg.ofBits reg

def decodeRmSseRegister (reg : BitVec 3) : Emu (BitVec 3) := do
  opDecode (xmmName reg)
  return reg

/-- The segment register of a `reg` field; 6 and 7 name none. -/
def SegReg.ofBits (reg : BitVec 3) : SegReg :=
  match reg.toNat with
  | 0 => .es | 1 => .cs | 2 => .ss | 3 => .ds | 4 => .fs | 5 => .gs | _ => .noseg

def decodeRmSegRegister (reg : BitVec 3) : Emu SegReg := do
  if reg.toNat < 6 then
    opDecode (SegReg.ofBits reg).name
    return SegReg.ofBits reg
  else
    intrRaiseUd
    return .noseg

/-! ## Effective addresses -/

/-- `SEGPREF_DECODE` -/
def segprefDecode : Emu Unit := do
  let cpu ← getCpu
  decode (cpu.decodeSeg.take (if cpu.defaultSeg.isSome then 4 else 1))

/-- The text, the registers and the default segment bit of a 16 bit address form. -/
def ea16 (rm : BitVec 3) (c : Cpu) : String × U16 × Bool :=
  match rm.toNat with
  | 0 => ("bx+si", c.get16 .bx + c.get16 .si, false)
  | 1 => ("bx+di", c.get16 .bx + c.get16 .di, false)
  | 2 => ("bp+si", c.get16 .bp + c.get16 .si, true)
  | 3 => ("bp+di", c.get16 .bp + c.get16 .di, true)
  | 4 => ("si", c.get16 .si, false)
  | 5 => ("di", c.get16 .di, false)
  | 6 => ("bp", c.get16 .bp, true)
  | _ => ("bx", c.get16 .bx, false)

/-- The base of a SIB byte. -/
def decodeSibBase (sib : U8) (mod : Nat) : Emu U32 := do
  let r := Reg.ofBits (sib.extractLsb' 0 3)
  segprefDecode
  if r = .bp ∧ mod = 0 then
    let base ← fetchLong
    decode (decodeHex8 base)
    return base
  else
    opDecode r.name32
    if r = .sp ∨ r = .bp then setSegDsSs
    getGen r

/-- The index of a SIB byte, scaled. -/
def decodeSibIndex (sib : U8) : Emu U32 := do
  let r := Reg.ofBits (sib.extractLsb' 3 3)
  let scale := (sib.extractLsb' 6 2).toNat
  if r = .sp then
    return 0
  else
    opDecode "+"
    opDecode r.name32
    if scale ≠ 0 then
      opDecode "*"
      decode [Char.ofNat ('0'.toNat + 2 ^ scale)]
    return (← getGen r) <<< scale

def decodeSibAddress (sib : U8) (mod : Nat) : Emu U32 := do
  let base ← decodeSibBase sib mod
  let i ← decodeSibIndex sib
  return base + i

def decodeRm00Address (rm : BitVec 3) : Emu U32 := do
  if (← getMode).addr32 then
    match rm.toNat with
    | 4 =>
      let sib ← fetchByte
      let base ← decodeSibAddress sib 0
      opDecode "]"
      return base
    | 5 =>
      let offset ← fetchLong
      segprefDecode
      decode (decodeHex8 offset)
      opDecode "]"
      return offset
    | _ =>
      segprefDecode
      opDecode (Reg.ofBits rm).name32
      opDecode "]"
      getGen (Reg.ofBits rm)
  else
    match rm.toNat with
    | 6 =>
      let offset ← fetchWord
      segprefDecode
      decode (decodeHex4 (offset.setWidth 32))
      opDecode "]"
      return offset.setWidth 32
    | _ =>
      segprefDecode
      let (text, ea, ss) := ea16 rm (← getCpu)
      opDecode text
      opDecode "]"
      if ss then setSegDsSs
      return ea.setWidth 32

/-- The common body of `decode_rm01_address` and `decode_rm10_address`: a displacement, read
by `fetch32` or `fetch16` and shown by `show32` or `show16`, is added to the address. -/
def decodeRmDispAddress (mod : Nat) (fetch32 fetch16 : Emu U32)
    (show32 show16 : U32 → List Char) (rm : BitVec 3) : Emu U32 := do
  if (← getMode).addr32 then
    match rm.toNat with
    | 4 =>
      let sib ← fetchByte
      let base ← decodeSibAddress sib mod
      let displacement ← fetch32
      decode (show32 displacement)
      opDecode "]"
      return base + displacement
    | _ =>
      let displacement ← fetch32
      segprefDecode
      opDecode (Reg.ofBits rm).name32
      decode (show32 displacement)
      opDecode "]"
      if rm.toNat = 5 then setSegDsSs
      return (← getGen (Reg.ofBits rm)) + displacement
  else
    let displacement ← fetch16
    segprefDecode
    let (text, ea, ss) := ea16 rm (← getCpu)
    opDecode text
    decode (show16 displacement)
    opDecode "]"
    if ss then setSegDsSs
    return (ea + displacement.setWidth 16).setWidth 32

def fetchSignedByte : Emu U32 := do return (← fetchByte).signExtend 32

def fetchSignedWord : Emu U32 := do return (← fetchWord).signExtend 32

def decodeRm01Address (rm : BitVec 3) : Emu U32 :=
  decodeRmDispAddress 1 fetchSignedByte fetchSignedByte decodeHex2s decodeHex2s rm

def decodeRm10Address (rm : BitVec 3) : Emu U32 :=
  decodeRmDispAddress 2 fetchLong fetchSignedWord decodeHex8s decodeHex4s rm

def decodeRmAddress (mod : BitVec 2) (rl : BitVec 3) : Emu U32 :=
  match mod.toNat with
  | 0 => decodeRm00Address rl
  | 1 => decodeRm01Address rl
  | 2 => decodeRm10Address rl
  | _ => do
    intrRaiseUd
    return 0

end X86Emu
