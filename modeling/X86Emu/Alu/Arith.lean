import X86Emu.Machine.Emu

/-!
# Arithmetic and logic

The arithmetic, logic and decimal functions of `prim_ops.c` as flag programs, and
`eval_condition`. Functions that differ in the operand width only are one function of the
width `w`; as in the source the work is done in a 32 bit `res`, and the carry and borrow chains
`cc` and `bc` give the overflow and the auxiliary carry.
-/

namespace X86Emu

open Lib

/-- `x86emu_parity_tab` -/
def x86emuParityTab : Fin 8 → U32
  | 0 => 0x96696996 | 1 => 0x69969669 | 2 => 0x69969669 | 3 => 0x96696996
  | 4 => 0x69969669 | 5 => 0x96696996 | 6 => 0x96696996 | 7 => 0x69969669

/-- `PARITY` of the low byte -/
def parity (x : U32) : Bool :=
  !(x86emuParityTab (x.extractLsb' 5 3).toFin).getLsbD (x.extractLsb' 0 5).toNat

/-- `XOR2` -/
def xor2 (x : U32) : Bool := x.getLsbD 0 ^^ x.getLsbD 1

section Widths

variable {w : Nat}

def widen (x : BitVec w) : U32 := x.setWidth 32

/-- Zero, sign and parity of the low `w` bits of a result. -/
def setResFlags (w : Nat) (res : U32) : FlagOp Unit := do
  condSet (res.setWidth w = 0) .zf
  condSet (res.getLsbD (w - 1)) .sf
  condSet (parity res) .pf

/-- Overflow and auxiliary carry from a carry or borrow chain. -/
def setChainFlags (w : Nat) (chain : U32) : FlagOp Unit := do
  condSet (xor2 (chain >>> (w - 2))) .of
  condSet (chain.getLsbD 3) .af

/-- The carry chain of a sum. -/
def carryChain (d s res : U32) : U32 := (s &&& d) ||| (~~~res &&& (s ||| d))

/-- The borrow chain of a difference. -/
def borrowChain (d s res : U32) : U32 := (res &&& (~~~d ||| s)) ||| (~~~d &&& s)

/-! ## Sums -/

def addFlags (w : Nat) (carry : Bool) (d s res : U32) : FlagOp Unit := do
  condSet carry .cf
  setResFlags w res
  setChainFlags w (carryChain d s res)

/-- `add_byte` and `add_word` -/
def addNarrow (d s : BitVec w) : FlagOp (BitVec w) := do
  let res := widen d + widen s
  addFlags w (res.getLsbD w) (widen d) (widen s) res
  return res.setWidth w

/-- `adc_byte` and `adc_word` -/
def adcNarrow (d s : BitVec w) : FlagOp (BitVec w) := do
  let res := if ← accessFlag .cf then 1 + widen d + widen s else widen d + widen s
  addFlags w (res.getLsbD w) (widen d) (widen s) res
  return res.setWidth w

def addByte : U8 → U8 → FlagOp U8 := addNarrow
def addWord : U16 → U16 → FlagOp U16 := addNarrow
def adcByte : U8 → U8 → FlagOp U8 := adcNarrow
def adcWord : U16 → U16 → FlagOp U16 := adcNarrow

/-- The carry of a 32 bit sum, from the sum `lo` of the low halves. -/
def longCarry (lo d s : U32) : Bool := ((lo >>> 16) + (d >>> 16) + (s >>> 16)).getLsbD 16

def addLong (d s : U32) : FlagOp U32 := do
  let lo := (d &&& 0xffff) + (s &&& 0xffff)
  let res := d + s
  addFlags 32 (longCarry lo d s) d s res
  return res

def adcLong (d s : U32) : FlagOp U32 := do
  let cf ← accessFlag .cf
  let lo := if cf then 1 + (d &&& 0xffff) + (s &&& 0xffff) else (d &&& 0xffff) + (s &&& 0xffff)
  let res := if cf then 1 + d + s else d + s
  addFlags 32 (longCarry lo d s) d s res
  return res

/-- `inc_word` and `inc_long` -/
def incVal (d : BitVec w) : FlagOp (BitVec w) := do
  let res := widen d + 1
  setResFlags w res
  setChainFlags w (carryChain (widen d) 1 res)
  return res.setWidth w

def incByte (d : U8) : FlagOp U8 := do
  let res := widen d + 1
  setResFlags 8 res
  setChainFlags 8 (((1 &&& widen d) ||| ~~~res) &&& (1 ||| widen d))
  return res.setWidth 8

def incWord : U16 → FlagOp U16 := incVal
def incLong : U32 → FlagOp U32 := incVal

/-! ## Differences -/

def subFlags (w : Nat) (d s res : U32) : FlagOp Unit := do
  setResFlags w res
  condSet ((borrowChain d s res).getLsbD (w - 1)) .cf
  setChainFlags w (borrowChain d s res)

/-- `sub_byte`, `sub_word` and `sub_long` -/
def subVal (d s : BitVec w) : FlagOp (BitVec w) := do
  let res := widen d - widen s
  subFlags w (widen d) (widen s) res
  return res.setWidth w

/-- `sbb_byte`, `sbb_word` and `sbb_long` -/
def sbbVal (d s : BitVec w) : FlagOp (BitVec w) := do
  let res := if ← accessFlag .cf then widen d - widen s - 1 else widen d - widen s
  subFlags w (widen d) (widen s) res
  return res.setWidth w

/-- `cmp_word` and `cmp_long` -/
def cmpVal (d s : BitVec w) : FlagOp (BitVec w) := do
  subFlags w (widen d) (widen s) (widen d - widen s)
  return d

def cmpByte (d s : U8) : FlagOp U8 := do
  clearFlag .cf
  subFlags 8 (widen d) (widen s) (widen d - widen s)
  return d

def subByte : U8 → U8 → FlagOp U8 := subVal
def subWord : U16 → U16 → FlagOp U16 := subVal
def subLong : U32 → U32 → FlagOp U32 := subVal
def sbbByte : U8 → U8 → FlagOp U8 := sbbVal
def sbbWord : U16 → U16 → FlagOp U16 := sbbVal
def sbbLong : U32 → U32 → FlagOp U32 := sbbVal
def cmpWord : U16 → U16 → FlagOp U16 := cmpVal
def cmpLong : U32 → U32 → FlagOp U32 := cmpVal

/-- `dec_byte`, `dec_word` and `dec_long` -/
def decVal (d : BitVec w) : FlagOp (BitVec w) := do
  let res := widen d - 1
  setResFlags w res
  setChainFlags w (borrowChain (widen d) 1 res)
  return res.setWidth w

def decByte : U8 → FlagOp U8 := decVal
def decWord : U16 → FlagOp U16 := decVal
def decLong : U32 → FlagOp U32 := decVal

/-- `neg_byte`, `neg_word` and `neg_long` -/
def negVal (s : BitVec w) : FlagOp (BitVec w) := do
  condSet (s ≠ 0) .cf
  let res := -s
  setResFlags w (widen res)
  setChainFlags w (widen (res ||| s))
  return res

def negByte : U8 → FlagOp U8 := negVal
def negWord : U16 → FlagOp U16 := negVal
def negLong : U32 → FlagOp U32 := negVal

/-! ## Logic -/

/-- The common body of `and_*`, `or_*` and `xor_*`. -/
def logicVal (res : BitVec w) : FlagOp (BitVec w) := do
  clearFlag .of
  clearFlag .cf
  clearFlag .af
  setResFlags w (widen res)
  return res

def andByte (d s : U8) : FlagOp U8 := logicVal (d &&& s)
def andWord (d s : U16) : FlagOp U16 := logicVal (d &&& s)
def andLong (d s : U32) : FlagOp U32 := logicVal (d &&& s)
def orByte (d s : U8) : FlagOp U8 := logicVal (d ||| s)
def orWord (d s : U16) : FlagOp U16 := logicVal (d ||| s)
def orLong (d s : U32) : FlagOp U32 := logicVal (d ||| s)
def xorByte (d s : U8) : FlagOp U8 := logicVal (d ^^^ s)
def xorWord (d s : U16) : FlagOp U16 := logicVal (d ^^^ s)
def xorLong (d s : U32) : FlagOp U32 := logicVal (d ^^^ s)

/-- `test_byte`, `test_word` and `test_long`; the auxiliary carry is kept. -/
def testVal (d s : BitVec w) : FlagOp Unit := do
  clearFlag .of
  setResFlags w (widen (d &&& s))
  clearFlag .cf

def testByte : U8 → U8 → FlagOp Unit := testVal
def testWord : U16 → U16 → FlagOp Unit := testVal
def testLong : U32 → U32 → FlagOp Unit := testVal

def notByte (s : U8) : FlagOp U8 := return ~~~s
def notWord (s : U16) : FlagOp U16 := return ~~~s
def notLong (s : U32) : FlagOp U32 := return ~~~s

end Widths

/-! ## Decimal adjustment -/

/-- The common body of `aaa_word` and `aas_word`; `adjusted` is `d` after the adjustment. -/
def asciiAdjust (d adjusted : U16) : FlagOp U16 := do
  let adjust := 9 < d &&& 0xf || (← accessFlag .af)
  if adjust then
    setFlag .af
    setFlag .cf
  else
    clearFlag .cf
    clearFlag .af
  let res := (if adjust then adjusted else d) &&& 0xff0f
  clearFlag .sf
  condSet (res = 0) .zf
  condSet (parity (widen res)) .pf
  return res

def aaaWord (d : U16) : FlagOp U16 := asciiAdjust d (d + 0x6 + 0x100)

def aasWord (d : U16) : FlagOp U16 := asciiAdjust d (d - 0x6 - 0x100)

/-- The flags of `aad_word` and `aam_word`. -/
def setAsciiFlags (l : U16) : FlagOp Unit := do
  clearFlag .cf
  clearFlag .af
  clearFlag .of
  condSet (l.getLsbD 7) .sf
  condSet (l = 0) .zf
  condSet (parity (widen l)) .pf

def aadWord (d : U16) (base : U8) : FlagOp U16 := do
  let hb : U8 := d.extractLsb' 8 8
  let lb : U8 := d.extractLsb' 0 8
  let l : U16 := (lb + base * hb).setWidth 16
  setAsciiFlags l
  return l

/-- `aam_word`; its division by a `base` of 0 has no value in the source and gives 0 here. -/
def daaByte (d : U8) : FlagOp U8 := do
  let res := widen d
  let adjust := 9 < d &&& 0xf || (← accessFlag .af)
  if adjust then setFlag .af
  let res := if adjust then res + 6 else res
  let adjust := 0x9f < res || (← accessFlag .cf)
  if adjust then setFlag .cf
  let res := if adjust then res + 0x60 else res
  condSet (res.getLsbD 7) .sf
  condSet (res &&& 0xff = 0) .zf
  condSet (parity res) .pf
  return res.setWidth 8

def dasByte (d : U8) : FlagOp U8 := do
  let adjust := 9 < d &&& 0xf || (← accessFlag .af)
  if adjust then setFlag .af
  let d := if adjust then d - 6 else d
  let adjust := 0x9f < d || (← accessFlag .cf)
  if adjust then setFlag .cf
  let d := if adjust then d - 0x60 else d
  condSet (d.getLsbD 7) .sf
  condSet (d = 0) .zf
  condSet (parity (widen d)) .pf
  return d

/-! ## Conditions -/

/-- The condition of `eval_condition` for the upper three bits of the code. -/
def baseCondition (c : Cpu) (type : BitVec 3) : Bool :=
  match type.toNat with
  | 0 => c.flag .of
  | 1 => c.flag .cf
  | 2 => c.flag .zf
  | 3 => c.flag .cf || c.flag .zf
  | 4 => c.flag .sf
  | 5 => c.flag .pf
  | 6 => c.flag .sf ^^ c.flag .of
  | _ => c.flag .zf || (c.flag .sf ^^ c.flag .of)

def evalCondition (c : Cpu) (type : BitVec 4) : Bool :=
  let cond := baseCondition c (type.extractLsb' 1 3)
  if type.getLsbD 0 then !cond else cond

end X86Emu
