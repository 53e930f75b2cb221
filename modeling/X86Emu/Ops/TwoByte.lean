import X86Emu.Ops.Arith
import X86Emu.Ops.Control

/-!
# Two byte opcodes

The handlers of `ops2.c`, for the opcodes after 0x0f. The argument of every handler is the second
opcode byte.
-/

namespace X86Emu.Op2

open Lib Op

def illegalOp (_ : U8) : Emu Unit := do
  opDecode "illegal opcode"
  intrRaiseUd

/-! ## Descriptor tables and control registers -/

def opc00Text (rh : BitVec 3) : Option String :=
  match rh.toNat with
  | 0 => some "sldt " | 1 => some "str " | 2 => some "lldt "
  | 3 => some "ltr " | 4 => some "verr " | 5 => some "verw "
  | _ => none

/-- What `lldt`, `ltr`, `verr` and `verw` do with their operand. -/
def opc00Use (rh : BitVec 3) (val : U16) : Emu Unit :=
  match rh.toNat with
  | 2 => x86emuSetSegRegister .ldt val
  | 3 => setTr val
  | _ => if val ≠ 0 then flags (setFlag .zf) else pure ()

/-- The value `sldt` and `str` give. -/
def opc00Value (rh : BitVec 3) (c : Cpu) : U16 := if rh = 0 then c.ldt.sel else c.tr.sel

def opc00Operand (m : ModRm) : Emu Unit := do
  if m.mod = 3 then
    let r ← decodeRmWordRegister m.regl
    if m.regh.toNat < 2 then set16 r (opc00Value m.regh (← getCpu))
    else opc00Use m.regh (← get16 r)
  else
    let addr ← decodeRmAddress m.mod m.regl
    if m.regh.toNat < 2 then
      storeDataWord addr (opc00Value m.regh (← getCpu))
    else
      let val ← fetchDataWord addr
      opc00Use m.regh val

def opc00 (_ : U8) : Emu Unit := do
  let m ← fetchDecodeModrm
  match opc00Text m.regh with
  | some text =>
    opDecode text
    opc00Operand m
  | none => intrRaiseUd

/-- A table base, 24 bits of it for a 16 bit operand size. -/
def truncBase (base : U32) : Emu U32 := do
  return if (← getMode).data32 then base else base &&& 0xffffff

/-- `sgdt` and `sidt` -/
def storeTable (text : String) (table : Cpu → U32 × U32) (m : ModRm) : Emu Unit := do
  opDecode text
  let addr ← decodeRmAddress m.mod m.regl
  let base ← truncBase (table (← getCpu)).1
  storeDataWord addr ((table (← getCpu)).2.setWidth 16)
  storeDataLong (addr + 2) base

/-- `lgdt` and `lidt` -/
def loadTable (text : String) (set : U32 → U32 → Emu Unit) (m : ModRm) : Emu Unit := do
  opDecode text
  let addr ← decodeRmAddress m.mod m.regl
  let limit ← fetchDataWord addr
  let base ← fetchDataLong (addr + 2)
  let base ← truncBase base
  set base (limit.setWidth 32)

def smsw (m : ModRm) : Emu Unit := do
  opDecode "smsw "
  if m.mod = 3 then
    let r ← decodeRmWordRegister m.regl
    set16 r (((← getCpu).crx 0).setWidth 16)
  else
    let addr ← decodeRmAddress m.mod m.regl
    storeDataWord addr (((← getCpu).crx 0).setWidth 16)

def setMsw (val : U16) : Emu Unit := do
  setCrx 0 (((← getCpu).crx 0 &&& ~~~0xffff) + val.setWidth 32)

def lmsw (m : ModRm) : Emu Unit := do
  opDecode "lmsw "
  if m.mod = 3 then
    let r ← decodeRmWordRegister m.regl
    setMsw (← get16 r)
  else
    let addr ← decodeRmAddress m.mod m.regl
    let val ← fetchDataWord addr
    setMsw val

def opc01 (_ : U8) : Emu Unit := do
  let m ← fetchDecodeModrm
  if m.mod = 3 ∧ m.regh ≠ 4 ∧ m.regh ≠ 6 then
    intrRaiseUd
  else
    match m.regh.toNat with
    | 0 => storeTable "sgdt " (fun c => (c.gdtBase, c.gdtLimit)) m
    | 1 => storeTable "sidt " (fun c => (c.idtBase, c.idtLimit)) m
    | 2 => loadTable "lgdt " setGdt m
    | 3 => loadTable "lidt " setIdt m
    | 4 => smsw m
    | 5 => intrRaiseUd
    | 6 => lmsw m
    | _ =>
      opDecode "invlpg "
      let _ ← decodeRmAddress m.mod m.regl

def clts (_ : U8) : Emu Unit := do
  opDecode "clts"
  setCrx 0 ((← getCpu).crx 0 &&& ~~~8)

abbrev invd (_ : U8) : Emu Unit := opDecode "invd"
abbrev wbinvd (_ : U8) : Emu Unit := opDecode "wbinvd"

/-- The common body of `mov_word_RM_CRx` and `mov_word_RM_DRx`. -/
def movFromCtrl (text : String) (regs : Cpu → BitVec 3 → U32) : Emu Unit := do
  opDecode "mov "
  let m ← fetchDecodeModrm
  if m.mod = 3 then
    let r ← decodeRmLongRegister m.regl
    opDecode text
    decode (decodeHex1 (m.regh.setWidth 32))
    setGen r (regs (← getCpu) m.regh)
  else
    intrRaiseUd

/-- The common body of `mov_word_CRx_RM` and `mov_word_DRx_RM`. -/
def movToCtrl (text : String) (set : BitVec 3 → U32 → Emu Unit) : Emu Unit := do
  opDecode text
  let m ← fetchDecodeModrm
  decode (decodeHex1 (m.regh.setWidth 32))
  opDecode ","
  if m.mod = 3 then
    let r ← decodeRmLongRegister m.regl
    set m.regh (← getGen r)
  else
    intrRaiseUd

abbrev movWordRmCrx (_ : U8) : Emu Unit := movFromCtrl ",cr" Cpu.crx
abbrev movWordRmDrx (_ : U8) : Emu Unit := movFromCtrl ",dr" Cpu.drx
abbrev movWordCrxRm (_ : U8) : Emu Unit := movToCtrl "mov cr" setCrx
abbrev movWordDrxRm (_ : U8) : Emu Unit := movToCtrl "mov dr" setDrx

/-! ## SSE -/

/-- `sse_enabled_check`: `CR0.EM` is to be clear, and `CR0.MP` and `CR4.OSFXSR` set. The callers go
on after it. -/
def sseEnabledCheck : Emu Unit := do
  let cpu ← getCpu
  if (cpu.crx 0).getLsbD 2 ∨ !(cpu.crx 0).getLsbD 1 then intrRaiseUd
  if !((← getCpu).crx 4).getLsbD 9 then intrRaiseUd

def getXmm (r : BitVec 3) : Emu (Fin 16 → U8) := do return (← getCpu).xmm r

/-- One byte of an XMM register. -/
def setXmmByte (r : BitVec 3) (i : Nat) (v : U8) : Emu Unit := do
  setXmm r (Function.update (← getXmm r) (Fin.ofNat 16 i) v)

def sseMovText (op2 : U8) : String :=
  match (op2 &&& 0xfe).toNat with
  | 0x10 => "movups "
  | 0x28 => "movaps "
  | 0x2b => "movntps "
  | _ => ""

/-- The alignment check of all moves but `movups`. -/
def misaligned (op2 : U8) (addr : U32) : Bool := op2 &&& 0xfe ≠ 0x10 && addr &&& 0xf ≠ 0

def sseMovOps (op2 : U8) : Emu Unit := do
  opDecode (sseMovText op2)
  sseEnabledCheck
  let m ← fetchDecodeModrm
  if m.mod = 3 then
    let dst ← decodeRmSseRegister m.regh
    opDecode ","
    let src ← decodeRmSseRegister m.regl
    setXmm dst (← getXmm src)
  else if op2 &&& 1 = 0 then
    let dst ← decodeRmSseRegister m.regh
    opDecode ","
    let addr ← decodeRmAddress m.mod m.regl
    let tmp ← fetchDataQlong addr
    if misaligned op2 addr then intrRaiseGp 0 else setXmm dst tmp
  else
    -- the address comes from the `reg` field and the register from `r/m`
    let addr ← decodeRmAddress m.mod m.regh
    opDecode ","
    let src ← decodeRmSseRegister m.regl
    if misaligned op2 addr then
      intrRaiseGp 0
    else
      let tmp ← getXmm src
      storeDataQlong addr tmp

def sseMovPackedText (op2 : U8) (mod : BitVec 2) : Option String :=
  match op2.toNat with
  | 0x12 => some (if mod = 3 then "movhlps " else "movlps ")
  | 0x13 => some "movlps "
  | 0x16 => some (if mod = 3 then "movhlps " else "movhps ")
  | 0x17 => some "movhps "
  | _ => none

/-- A mnemonic, or `INTR_RAISE_UD` when the table gives none. -/
def sseText : Option String → Emu Unit
  | some text => opDecode text
  | none => intrRaiseUd

/-- The loops of `SSEmovpackedops` over the 8 bytes of half a register. -/
def sseMovPackedByte (op2 : U8) (dst src : BitVec 3) (i : Nat) : Emu Unit := do
  if op2 = 0x12 then
    setXmmByte dst i ((← getXmm src) (Fin.ofNat 16 (i + 8)))
  else if op2 = 0x16 then
    setXmmByte dst (i + 8) ((← getXmm src) (Fin.ofNat 16 i))

def sseStorePackedByte (op2 : U8) (addr : U32) (src : BitVec 3) (i : Nat) : Emu Unit := do
  if op2 = 0x13 then
    storeDataByte (addr + BitVec.ofNat 32 i) ((← getXmm src) (Fin.ofNat 16 i))
  else if op2 = 0x17 then
    storeDataByte (addr + BitVec.ofNat 32 i) ((← getXmm src) (Fin.ofNat 16 (i + 8)))

def sseLoadPackedByte (op2 : U8) (dst : BitVec 3) (addr : U32) (i : Nat) : Emu Unit := do
  if op2 = 0x12 then
    setXmmByte dst i (← fetchDataByte (addr + BitVec.ofNat 32 i))
  else if op2 = 0x16 then
    setXmmByte dst (i + 8) (← fetchDataByte (addr + BitVec.ofNat 32 i))

def sseMovPackedOps (op2 : U8) : Emu Unit := do
  let m ← fetchDecodeModrm
  sseText (sseMovPackedText op2 m.mod)
  sseEnabledCheck
  if m.mod = 3 then
    let dst ← decodeRmSseRegister m.regh
    opDecode ","
    let src ← decodeRmSseRegister m.regl
    forLoop 8 (sseMovPackedByte op2 dst src)
  else if op2 &&& 1 ≠ 0 then
    let addr ← decodeRmAddress m.mod m.regl
    opDecode ","
    let src ← decodeRmSseRegister m.regh
    forLoop 8 (sseStorePackedByte op2 addr src)
  else
    let dst ← decodeRmSseRegister m.regh
    opDecode ","
    let addr ← decodeRmAddress m.mod m.regl
    forLoop 8 (sseLoadPackedByte op2 dst addr)

/-- The second operand of the packed operations: a register or 16 bytes of memory. -/
def fetchSseOperand (m : ModRm) : Emu (BitVec 3 × (Fin 16 → U8)) := do
  let dst ← decodeRmSseRegister m.regh
  opDecode ","
  if m.mod = 3 then
    let src ← decodeRmSseRegister m.regl
    return (dst, ← getXmm src)
  else
    let addr ← decodeRmAddress m.mod m.regl
    let tmp ← fetchDataQlong addr
    return (dst, tmp)

def ssePackText (op2 : U8) : Option String :=
  match op2.toNat with
  | 0x14 => some "unpcklps "
  | 0x15 => some "unpckhps "
  | _ => none

/-- The first four bytes of `arith`; only they are copied to the destination. -/
def unpack (off : Nat) (d s : Fin 16 → U8) : Fin 16 → U8 := fun i =>
  match i.val with
  | 0 => d (Fin.ofNat 16 off)
  | 1 => s (Fin.ofNat 16 off)
  | 2 => d (Fin.ofNat 16 (off + 1))
  | 3 => s (Fin.ofNat 16 (off + 1))
  | _ => d i

def ssePackOps (op2 : U8) : Emu Unit := do
  sseText (ssePackText op2)
  sseEnabledCheck
  let m ← fetchDecodeModrm
  let (dst, src) ← fetchSseOperand m
  setXmm dst (unpack (if op2 = 0x14 then 0 else 2) (← getXmm dst) src)

def sseLogicalText (op2 : U8) : Option String :=
  match op2.toNat with
  | 0x54 => some "andps "
  | 0x55 => some "andnps "
  | 0x56 => some "orps "
  | 0x57 => some "xorps "
  | _ => none

def sseLogical (op2 : U8) (d s : U8) : U8 :=
  match op2.toNat with
  | 0x54 => d &&& s
  | 0x55 => d &&& ~~~s
  | 0x56 => d ||| s
  | 0x57 => d ^^^ s
  | _ => d

def sseLogicalOps (op2 : U8) : Emu Unit := do
  sseText (sseLogicalText op2)
  sseEnabledCheck
  let m ← fetchDecodeModrm
  let (dst, src) ← fetchSseOperand m
  let d ← getXmm dst
  setXmm dst fun i => sseLogical op2 (d i) (src i)

/-! ## Hints -/

def prefetchText (rh : BitVec 3) : String :=
  match rh.toNat with
  | 0 => "prefetchnta " | 1 => "prefetcht0 " | 2 => "prefetcht1 " | 3 => "prefetcht2 "
  | _ => "hint_nop "

/-- The operand of a hint, which is only decoded. -/
def hintOperand (text : Emu Unit) (m : ModRm) : Emu Unit := do
  if m.mod = 3 then
    let z ← dataSize
    decodeReg z m.regl
  else
    text
    let _ ← decodeRmAddress m.mod m.regl

/-- The size of a word operand. -/
def decodeDataSize : Emu Unit := do opDecode (← dataSize).text

def prefetch (_ : U8) : Emu Unit := do
  let m ← fetchDecodeModrm
  opDecode (prefetchText m.regh)
  hintOperand (opDecode "byte ") m

/-- The common body of `hint_nop` and `nop`. -/
def hint (text : String) : Emu Unit := do
  opDecode text
  let m ← fetchDecodeModrm
  hintOperand decodeDataSize m

abbrev hintNop (_ : U8) : Emu Unit := hint "hint_nop "
abbrev nop (_ : U8) : Emu Unit := hint "nop "

/-! ## Model specific registers -/

/-- `X86EMU_MSRS` -/
def x86emuMsrs : U32 := 0x800

def wrmsr (_ : U8) : Emu Unit := do
  opDecode "wrmsr"
  if (← getGen .cx) ≥ x86emuMsrs then
    intrRaiseUd
  else
    let _ ← callWrmsr

def rdmsr (_ : U8) : Emu Unit := do
  opDecode "rdmsr"
  if (← getGen .cx) ≥ x86emuMsrs then
    intrRaiseUd
  else
    let _ ← callRdmsr

def rdtsc (_ : U8) : Emu Unit := do
  opDecode "rdtsc"
  let tsc ← readTsc
  setGen .ax (tsc.extractLsb' 0 32)
  setGen .dx (tsc.extractLsb' 32 32)

def rdpmc (_ : U8) : Emu Unit := do
  opDecode "rdpmc"
  setGen .dx 0
  setGen .ax 0

def cpuid (_ : U8) : Emu Unit := do
  opDecode "cpuid "
  if !(← callCpuid) then intrRaiseUd

def sysenter (_ : U8) : Emu Unit := do
  opDecode "sysenter"
  intrRaiseUd

def sysexit (_ : U8) : Emu Unit := do
  opDecode "sysexit"
  intrRaiseUd

/-! ## Conditions -/

/-- `ACCESS_FLAG` as a number: the flag's mask, or 0. -/
def rawFlag (c : Cpu) (f : Flag) : U32 := c.eflg &&& f.mask

def cmovText (type : BitVec 4) : String :=
  match type.toNat with
  | 0 => "o " | 1 => "no " | 2 => "c " | 3 => "nc " | 4 => "z " | 5 => "nz " | 6 => "be "
  | 7 => "nbe " | 8 => "s " | 9 => "ns " | 10 => "p " | 11 => "np " | 12 => "l " | 13 => "nl "
  | 14 => "le " | _ => "nle "

/-- `noop` of `conditional_move`: the condition under which nothing is moved. -/
def cmovNoop (c : Cpu) (type : BitVec 4) : Bool :=
  match type.toNat with
  | 0 => rawFlag c .of = 0
  | 1 => rawFlag c .of ≠ 0
  | 2 => rawFlag c .cf = 0
  | 3 => rawFlag c .cf ≠ 0
  | 4 => rawFlag c .zf = 0
  | 5 => rawFlag c .zf ≠ 0
  | 6 => rawFlag c .cf = 0 && rawFlag c .zf = 0
  | 7 => rawFlag c .cf ≠ 0 || rawFlag c .zf ≠ 0
  | 8 => rawFlag c .sf = 0
  | 9 => rawFlag c .sf ≠ 0
  | 10 => rawFlag c .pf = 0
  | 11 => rawFlag c .pf ≠ 0
  | 12 => rawFlag c .sf = rawFlag c .of
  | 13 => rawFlag c .sf ≠ rawFlag c .of
  | 14 => rawFlag c .zf = 0 && rawFlag c .sf = rawFlag c .of
  | _ => rawFlag c .zf ≠ 0 || rawFlag c .sf ≠ rawFlag c .of

def conditionalMove (op2 : U8) : Emu Unit := do
  opDecode "cmov"
  let m ← fetchDecodeModrm
  let type : BitVec 4 := op2.setWidth 4
  opDecode (cmovText type)
  let noop := cmovNoop (← getCpu) type
  let z ← dataSize
  decodeReg z m.regh
  opDecode ","
  if m.mod = 3 then
    decodeReg z m.regl
    if !noop then setReg z m.regh (← getReg z m.regl)
  else
    let addr ← decodeRmAddress m.mod m.regl
    if !noop then setReg z m.regh (← fetchDataSize z addr)

def longJump (op2 : U8) : Emu Unit := do
  let type : BitVec 4 := op2.setWidth 4
  opDecode "j"
  decodeCond type
  let ofs ← fetchNearOfs
  let eip ← truncTarget ((← getEip) + ofs)
  decodeAddr eip
  jumpIf type eip

/-- The byte `set_byte` stores. -/
def setByteValue (c : Cpu) (type : BitVec 4) : U8 := if evalCondition c type then 1 else 0

def setByte (op2 : U8) : Emu Unit := do
  let type : BitVec 4 := op2.setWidth 4
  opDecode "set"
  decodeCond type
  let m ← fetchDecodeModrm
  if m.mod = 3 then
    let r ← decodeRmByteRegister m.regl
    set8 r (setByteValue (← getCpu) type)
  else
    let addr ← decodeRmAddress m.mod m.regl
    storeDataByte addr (setByteValue (← getCpu) type)

/-! ## Segment registers -/

abbrev pushFs (_ : U8) : Emu Unit := pushSeg "push fs" .fs
abbrev popFs (_ : U8) : Emu Unit := popSeg "pop fs" .fs
abbrev pushGs (_ : U8) : Emu Unit := pushSeg "push gs" .gs
abbrev popGs (_ : U8) : Emu Unit := popSeg "pop gs" .gs
abbrev lssRImm (_ : U8) : Emu Unit := loadFarPtr "lss " .ss
abbrev lfsRImm (_ : U8) : Emu Unit := loadFarPtr "lfs " .fs
abbrev lgsRImm (_ : U8) : Emu Unit := loadFarPtr "lgs " .gs

/-! ## Bit operations -/

/-- What a bit operation leaves in place of a value, if it stores one. -/
inductive BitOp
  | bt | bts | btr | btc
  deriving DecidableEq, Repr

def BitOp.text : BitOp → String
  | .bt => "bt "
  | .bts => "bts "
  | .btr => "btr "
  | .btc => "btc "

def BitOp.apply (op : BitOp) (val mask : U32) : U32 :=
  match op with
  | .bt => val
  | .bts => val ||| mask
  | .btr => val &&& ~~~mask
  | .btc => val ^^^ mask

/-- The operation on a register; `bt` stores nothing. -/
def bitReg (op : BitOp) (z : OpSize) (r : BitVec 3) (mask : U32) : Emu Unit := do
  let val ← getReg z r
  flags (condSet (widen val &&& mask ≠ 0) .cf)
  if op ≠ .bt then setReg z r ((op.apply (widen (← getReg z r)) mask).setWidth z.bits)

/-- The operation on memory. -/
def bitMem (op : BitOp) (z : OpSize) (addr mask : U32) : Emu Unit := do
  let val ← fetchDataSize z addr
  flags (condSet (widen val &&& mask ≠ 0) .cf)
  if op ≠ .bt then storeDataSize z addr ((op.apply (widen val) mask).setWidth z.bits)

/-- `1 << (n & 0x1f)` or `1 << (n & 0x0f)` -/
def bitMask (z : OpSize) (n : U32) : U32 := cShl 1 (n.toNat % z.bits)

/-- The common body of `bt_R`, `bts_R`, `btr_R` and `btc_R`: a word operand's bit offset is
shifted right by `wordShift` and added to the address. -/
def bitR (op : BitOp) (wordShift : Nat) : Emu Unit := do
  opDecode op.text
  let m ← fetchDecodeModrm
  if m.mod = 3 then
    let z ← dataSize
    decodeReg z m.regl
    opDecode ","
    decodeReg z m.regh
    bitReg op z m.regl (bitMask z (widen (← getReg z m.regh)))
  else
    let addr ← decodeRmAddress m.mod m.regl
    opDecode ","
    let z ← dataSize
    decodeReg z m.regh
    let disp : U32 := (← getReg z m.regh).signExtend 32
    let shift := if z = .long then 5 else wordShift
    bitMem op z (addr + disp.sshiftRight shift) (bitMask z disp)

abbrev btR (_ : U8) : Emu Unit := bitR .bt 4
abbrev btsR (_ : U8) : Emu Unit := bitR .bts 5
abbrev btrR (_ : U8) : Emu Unit := bitR .btr 5
abbrev btcR (_ : U8) : Emu Unit := bitR .btc 5

def btXOp (rh : BitVec 3) : Option BitOp :=
  match rh.toNat with
  | 4 => some .bt | 5 => some .bts | 6 => some .btr | 7 => some .btc
  | _ => none

def btXOperand (op : BitOp) (m : ModRm) : Emu Unit := do
  if m.mod = 3 then
    let z ← dataSize
    decodeReg z m.regl
    opDecode ","
    let imm ← fetchImmByte
    -- the mask has 5 bits for a word register too
    bitReg op z m.regl (bitMask .long (widen imm))
  else
    let addr ← decodeRmAddress m.mod m.regl
    opDecode ","
    let imm ← fetchImmByte
    let z ← dataSize
    bitMem op z addr (bitMask z (widen imm))

def btXI (_ : U8) : Emu Unit := do
  let m ← fetchDecodeModrm
  match btXOp m.regh with
  | some op =>
    opDecode op.text
    btXOperand op m
  | none => intrRaiseUd

/-- The loop of `bsf`: the lowest set bit from `cnt` on, within `n` bits. -/
def bsfLoop (val : U32) : (n : Nat) → (cnt : Nat) → Nat
  | 0, cnt => cnt
  | n + 1, cnt => if val.getLsbD cnt then cnt else bsfLoop val n (cnt + 1)

/-- The loop of `bsr`: the highest set bit up to `cnt`, or 0. -/
def bsrLoop (val : U32) : (cnt : Nat) → Nat
  | 0 => 0
  | cnt + 1 => if val.getLsbD (cnt + 1) then cnt + 1 else bsrLoop val cnt

/-- The common body of `bsf` and `bsr`. -/
def bitScan (text : String) (scan : OpSize → U32 → Nat) : Emu Unit := do
  opDecode text
  let m ← fetchDecodeModrm
  if m.mod = 3 then
    let z ← dataSize
    decodeReg z m.regl
    let val ← getReg z m.regl
    opDecode ","
    decodeReg z m.regh
    flags (condSet (val = 0) .zf)
    setReg z m.regh (BitVec.ofNat z.bits (scan z (widen val)))
  else
    let addr ← decodeRmAddress m.mod m.regl
    opDecode ","
    let z ← dataSize
    decodeReg z m.regh
    let val ← fetchDataSize z addr
    flags (condSet (val = 0) .zf)
    setReg z m.regh (BitVec.ofNat z.bits (scan z (widen val)))

abbrev bsf (_ : U8) : Emu Unit := bitScan "bsf " fun z val => bsfLoop val z.bits 0
abbrev bsr (_ : U8) : Emu Unit := bitScan "bsr " fun z val => bsrLoop val (z.bits - 1)

def bswapValue (v : U32) : U32 :=
  v.extractLsb' 0 8 ++ v.extractLsb' 8 8 ++ v.extractLsb' 16 8 ++ v.extractLsb' 24 8

/-- `bswap`; a word operand is left alone. -/
def bswap (op2 : U8) : Emu Unit := do
  opDecode "bswap "
  if (← getMode).data32 then
    let r ← decodeRmLongRegister (op2.setWidth 3)
    setGen r (bswapValue (← getGen r))

/-! ## Double shifts, multiplication and extension -/

def shldSize : (z : OpSize) → BitVec z.bits → BitVec z.bits → U8 → FlagOp (BitVec z.bits)
  | .byte => fun d _ _ => pure d
  | .word => shldWord
  | .long => shldLong

def shrdSize : (z : OpSize) → BitVec z.bits → BitVec z.bits → U8 → FlagOp (BitVec z.bits)
  | .byte => fun d _ _ => pure d
  | .word => shrdWord
  | .long => shrdLong

/-- The common body of `shld_IMM` and `shrd_IMM`. -/
def shiftDoubleImm (text : String)
    (op : (z : OpSize) → BitVec z.bits → BitVec z.bits → U8 → FlagOp (BitVec z.bits)) :
    Emu Unit := do
  opDecode text
  let m ← fetchDecodeModrm
  if m.mod = 3 then
    let z ← dataSize
    decodeReg z m.regl
    opDecode ","
    decodeReg z m.regh
    opDecode ","
    let imm ← fetchImmByte
    setReg z m.regl (← flags (op z (← getReg z m.regl) (← getReg z m.regh) imm))
  else
    let addr ← decodeRmAddress m.mod m.regl
    opDecode ","
    let z ← dataSize
    decodeReg z m.regh
    opDecode ","
    let imm ← fetchImmByte
    let val ← fetchDataSize z addr
    storeDataSize z addr (← flags (op z val (← getReg z m.regh) imm))

/-- The common body of `shld_CL` and `shrd_CL`. -/
def shiftDoubleCl (text : String)
    (op : (z : OpSize) → BitVec z.bits → BitVec z.bits → U8 → FlagOp (BitVec z.bits)) :
    Emu Unit := do
  opDecode text
  let m ← fetchDecodeModrm
  if m.mod = 3 then
    let z ← dataSize
    decodeReg z m.regl
    opDecode ","
    decodeReg z m.regh
    opDecode ",cl"
    let cl ← get8 .cl
    setReg z m.regl (← flags (op z (← getReg z m.regl) (← getReg z m.regh) cl))
  else
    let addr ← decodeRmAddress m.mod m.regl
    opDecode ","
    let z ← dataSize
    decodeReg z m.regh
    opDecode ",cl"
    let val ← fetchDataSize z addr
    let cl ← get8 .cl
    storeDataSize z addr (← flags (op z val (← getReg z m.regh) cl))

abbrev shldImm (_ : U8) : Emu Unit := shiftDoubleImm "shld " shldSize
abbrev shldCl (_ : U8) : Emu Unit := shiftDoubleCl "shld " shldSize
abbrev shrdImm (_ : U8) : Emu Unit := shiftDoubleImm "shrd " shrdSize
abbrev shrdCl (_ : U8) : Emu Unit := shiftDoubleCl "shrd " shrdSize

def imulRRm (_ : U8) : Emu Unit := do
  opDecode "imul "
  let m ← fetchDecodeModrm
  let z ← dataSize
  decodeReg z m.regh
  opDecode ","
  if m.mod = 3 then
    decodeReg z m.regl
    imulStore z m.regh (← getReg z m.regh) (← getReg z m.regl)
  else
    let addr ← decodeRmAddress m.mod m.regl
    let val ← fetchDataSize z addr
    imulStore z m.regh (← getReg z m.regh) val

/-- The common body of `movzx_*` and `movsx_*`: a source of size `src` is extended. -/
def movExtend (text : String) (src : OpSize) (extend : BitVec src.bits → U32) : Emu Unit := do
  opDecode text
  let m ← fetchDecodeModrm
  let z ← dataSize
  decodeReg z m.regh
  opDecode ","
  if m.mod = 3 then
    decodeReg src m.regl
    setReg z m.regh ((extend (← getReg src m.regl)).setWidth z.bits)
  else
    opDecode src.text
    let addr ← decodeRmAddress m.mod m.regl
    let val ← fetchDataSize src addr
    setReg z m.regh ((extend val).setWidth z.bits)

abbrev movzxByteRRm (_ : U8) : Emu Unit := movExtend "movzx " .byte (·.setWidth 32)
abbrev movzxWordRRm (_ : U8) : Emu Unit := movExtend "movzx " .word (·.setWidth 32)
abbrev movsxByteRRm (_ : U8) : Emu Unit := movExtend "movsx " .byte (·.signExtend 32)
abbrev movsxWordRRm (_ : U8) : Emu Unit := movExtend "movsx " .word (·.signExtend 32)

end X86Emu.Op2
