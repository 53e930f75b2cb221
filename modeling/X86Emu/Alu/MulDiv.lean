import X86Emu.Alu.Arith

/-!
# Multiplication and division

These functions of `prim_ops.c` work on the accumulator.
-/

namespace X86Emu

open Lib

/-- `SET_FLAGS_FOR_MUL` -/
def setFlagsForMul {w : Nat} (zero : Bool) (lo : BitVec w) : FlagOp Unit := do
  condSet zero .zf
  condSet (lo.getLsbD (w - 1)) .sf
  condSet (parity (widen lo)) .pf
  clearFlag .af

/-- Carry and overflow of a product. -/
def setMulOverflow (overflow : Bool) : FlagOp Unit := do
  condSet overflow .cf
  condSet overflow .of

/-- The signed product in twice the width, and whether it does not fit in `w` bits. -/
def imulDirect {w : Nat} (d s : BitVec w) : BitVec (2 * w) × Bool :=
  let res := d.signExtend (2 * w) * s.signExtend (2 * w)
  (res, res.sshiftRight (w - 1) ≠ 0 && res.sshiftRight (w - 1) ≠ -1)

def imulWordDirect : U16 → U16 → U32 × Bool := imulDirect (w := 16)
def imulLongDirect : U32 → U32 → U64 × Bool := imulDirect (w := 32)

def imulByte (s : U8) : Emu Unit := do
  let (res, overflow) := imulDirect (w := 8) (← get8 .al) s
  set16 .ax res
  flags (setMulOverflow overflow)
  flags (setFlagsForMul (res = 0) (← get8 .al))

def imulWord (s : U16) : Emu Unit := do
  let (res, overflow) := imulWordDirect (← get16 .ax) s
  set16 .ax (res.extractLsb' 0 16)
  set16 .dx (res.extractLsb' 16 16)
  flags (setMulOverflow overflow)
  flags (setFlagsForMul ((← get16 .ax) ||| (← get16 .dx) = 0) (← get16 .ax))

def imulLong (s : U32) : Emu Unit := do
  let (res, overflow) := imulLongDirect (← getGen .ax) s
  setGen .ax (res.extractLsb' 0 32)
  setGen .dx (res.extractLsb' 32 32)
  flags (setMulOverflow overflow)
  flags (setFlagsForMul ((← getGen .ax) ||| (← getGen .dx) = 0) (← getGen .ax))

def mulByte (s : U8) : Emu Unit := do
  let res : U16 := (← get8 .al).setWidth 16 * s.setWidth 16
  set16 .ax res
  flags (setMulOverflow ((← get8 .ah) ≠ 0))
  flags (setFlagsForMul (res = 0) (← get8 .al))

def mulWord (s : U16) : Emu Unit := do
  let res : U32 := (← get16 .ax).setWidth 32 * s.setWidth 32
  set16 .ax (res.extractLsb' 0 16)
  set16 .dx (res.extractLsb' 16 16)
  flags (setMulOverflow ((← get16 .dx) ≠ 0))
  flags (setFlagsForMul (res = 0) (← get16 .ax))

def mulLong (s : U32) : Emu Unit := do
  let res : U64 := (← getGen .ax).setWidth 64 * s.setWidth 64
  setGen .ax (res.extractLsb' 0 32)
  setGen .dx (res.extractLsb' 32 32)
  flags (setMulOverflow ((← getGen .dx) ≠ 0))
  flags (setFlagsForMul (res = 0) (← getGen .ax))

/-- The check of a signed quotient: `div >> (n - 1)` is neither 0 nor -1. -/
def idivOverflows {w : Nat} (n : Nat) (div : BitVec w) : Bool :=
  div.sshiftRight (n - 1) ≠ 0 && div.sshiftRight (n - 1) ≠ -1

/-- The common shape of the divisions: by zero, or with an overflowing quotient, interrupt 0 is
raised; else quotient and remainder are stored. -/
def divide {w : Nat} (zero signed : Bool) (dvd s : BitVec w) (overflows : BitVec w → Bool)
    (store : BitVec w → BitVec w → Emu Unit) : Emu Unit := do
  if zero then intrRaiseDiv0
  else
    let (div, mod) ← cDivMod signed dvd s
    if overflows div then intrRaiseDiv0 else store div mod

def idivByte (s : U8) : Emu Unit := do
  let dvd : U32 := (← get16 .ax).signExtend 32
  divide (s = 0) true dvd (s.signExtend 32) (idivOverflows 8) fun div mod => do
    set8 .al (div.setWidth 8)
    set8 .ah (mod.setWidth 8)

def idivWord (s : U16) : Emu Unit := do
  let dvd : U32 := (← get16 .dx) ++ (← get16 .ax)
  divide (s = 0) true dvd (s.signExtend 32) (idivOverflows 16) fun div mod => do
    set16 .ax (div.setWidth 16)
    set16 .dx (mod.setWidth 16)

def idivLong (s : U32) : Emu Unit := do
  let dvd : U64 := (← getGen .dx) ++ (← getGen .ax)
  divide (s = 0) true dvd (s.signExtend 64) (idivOverflows 32) fun div mod => do
    setGen .ax (div.setWidth 32)
    setGen .dx (mod.setWidth 32)

def divByte (s : U8) : Emu Unit := do
  let dvd : U32 := (← get16 .ax).setWidth 32
  divide (s = 0) false dvd (s.setWidth 32) (0xff < ·) fun div mod => do
    set8 .al (div.setWidth 8)
    set8 .ah (mod.setWidth 8)

def divWord (s : U16) : Emu Unit := do
  let dvd : U32 := (← get16 .dx) ++ (← get16 .ax)
  divide (s = 0) false dvd (s.setWidth 32) (0xffff < ·) fun div mod => do
    set16 .ax (div.setWidth 16)
    set16 .dx (mod.setWidth 16)

def divLong (s : U32) : Emu Unit := do
  let dvd : U64 := (← getGen .dx) ++ (← getGen .ax)
  divide (s = 0) false dvd (s.setWidth 64) (0xffffffff < ·) fun div mod => do
    setGen .ax (div.setWidth 32)
    setGen .dx (mod.setWidth 32)

-- the bytes are promoted to `int`
def aamWord (d base : U8) : Emu U16 := do
  let (h, l) ← cDivMod true (d.setWidth 32 : U32) (base.setWidth 32)
  let l : U16 := l.setWidth 16 ||| h.setWidth 16 <<< 8
  flags (setAsciiFlags l)
  return l

end X86Emu
