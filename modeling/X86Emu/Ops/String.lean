import X86Emu.Ops.Operand

/-!
# One byte opcodes: strings

The string handlers of `ops.c`, with `ins` and `outs` of `prim_ops.c`. The source writes each
loop once for every operand and address size; here the sizes are arguments.
-/

namespace X86Emu.Op

open Lib

/-- The mark of an address size other than the code size. -/
def decodeA32 : Emu Unit := do
  let mode ← getMode
  if mode.addr32 ≠ mode.code32 then opDecode "a32 "

/-- The step of the index registers: `size`, or its negative when `DF` is set. -/
def stringInc (size : U32) : Emu U32 := do
  return if ← flags (accessFlag .df) then -size else size

/-- How often a string operation that stops only at the count is done. -/
def repCount (a32 : Bool) : Emu Nat := do
  if (← getMode).rep then
    let count ← getIdx a32 .cx
    setIdx a32 .cx 0
    return count.toNat
  else
    return 1

/-- The name of a string instruction, and its step. -/
def stringHead (wide : Bool) (text8 text16 text32 : String) : Emu U32 := do
  decodeA32
  match ← opSize wide with
  | .byte =>
    opDecode text8
    stringInc 1
  | .word =>
    opDecode text16
    stringInc 2
  | .long =>
    opDecode text32
    stringInc 4

/-! ## Operations without a condition -/

def movsStep (wide a32 : Bool) (inc : U32) : Emu Unit := do
  let z ← opSize wide
  let val ← fetchDataSize z (← getIdx a32 .si)
  storeDataSizeAbs z .es (← getIdx a32 .di) val
  addIdx a32 .si inc
  addIdx a32 .di inc

/-- The common body of `movs_*`. -/
def movs (wide : Bool) : Emu Unit := do
  let inc ← stringHead wide "movsb" "movsw" "movsd"
  let a32 := (← getMode).addr32
  let count ← repCount a32
  forLoop count fun _ => movsStep wide a32 inc

def stosStep (wide a32 : Bool) (val inc : U32) : Emu Unit := do
  let z ← opSize wide
  storeDataSizeAbs z .es (← getIdx a32 .di) (val.setWidth z.bits)
  addIdx a32 .di inc

/-- The common body of `stos_*`. -/
def stos (wide : Bool) : Emu Unit := do
  let inc ← stringHead wide "stosb" "stosw" "stosd"
  let val ← getGen .ax
  let a32 := (← getMode).addr32
  let count ← repCount a32
  forLoop count fun _ => stosStep wide a32 val inc

def lodsStep (wide a32 : Bool) (inc : U32) : Emu Unit := do
  let z ← opSize wide
  setReg z 0 (← fetchDataSize z (← getIdx a32 .si))
  addIdx a32 .si inc

/-- The common body of `lods_*`. -/
def lods (wide : Bool) : Emu Unit := do
  let inc ← stringHead wide "lodsb" "lodsw" "lodsd"
  let a32 := (← getMode).addr32
  let count ← repCount a32
  forLoop count fun _ => lodsStep wide a32 inc

abbrev movsByte (_ : U8) : Emu Unit := movs false
abbrev movsWord (_ : U8) : Emu Unit := movs true
abbrev stosByte (_ : U8) : Emu Unit := stos false
abbrev stosWord (_ : U8) : Emu Unit := stos true
abbrev lodsByte (_ : U8) : Emu Unit := lods false
abbrev lodsWord (_ : U8) : Emu Unit := lods true

/-! ## Operations that compare -/

/-- The condition that ends a repeated comparison. -/
def repCond (mode : Mode) : BitVec 4 := if mode.repe then 5 else 4

/-- The `while` loop over the counter; `n` is its value before the loop. -/
def repWhile (a32 : Bool) (cond : BitVec 4) (compare advance : Emu Unit) : Nat → Emu Unit
  | 0 => pure ()
  | n + 1 => do
    if (← getIdx a32 .cx) = 0 then
      pure ()
    else
      compare
      addIdx a32 .cx (-1)
      advance
      if evalCondition (← getCpu) cond then pure () else repWhile a32 cond compare advance n

/-- One comparison, or with a prefix the loop. -/
def repCompare (a32 : Bool) (compare advance : Emu Unit) : Emu Unit := do
  let mode ← getMode
  if mode.rep then
    let count ← getIdx a32 .cx
    repWhile a32 (repCond mode) compare advance count.toNat
  else
    compare
    advance

def cmpsCompare (wide a32 : Bool) : Emu Unit := do
  let z ← opSize wide
  let val1 ← fetchDataSize z (← getIdx a32 .si)
  let val2 ← fetchDataSizeAbs z .es (← getIdx a32 .di)
  let _ ← flags (cmpSize z val1 val2)

/-- The common body of `cmps_*`. -/
def cmps (wide : Bool) : Emu Unit := do
  let inc ← stringHead wide "cmpsb" "cmpsw" "cmpsd"
  let a32 := (← getMode).addr32
  repCompare a32 (cmpsCompare wide a32) do
    addIdx a32 .si inc
    addIdx a32 .di inc

def scasCompare (wide a32 : Bool) : Emu Unit := do
  let z ← opSize wide
  let val ← fetchDataSizeAbs z .es (← getIdx a32 .di)
  let _ ← flags (cmpSize z (← getReg z 0) val)

/-- The common body of `scas_*`. -/
def scas (wide : Bool) : Emu Unit := do
  let inc ← stringHead wide "scasb" "scasw" "scasd"
  let a32 := (← getMode).addr32
  repCompare a32 (scasCompare wide a32) (addIdx a32 .di inc)

abbrev cmpsByte (_ : U8) : Emu Unit := cmps false
abbrev cmpsWord (_ : U8) : Emu Unit := cmps true
abbrev scasByte (_ : U8) : Emu Unit := scas false
abbrev scasWord (_ : U8) : Emu Unit := scas true

/-! ## Ports -/

/-- One element from port `DX` to `ES:(E)DI`. -/
def insTransfer (z : OpSize) (a32 : Bool) : Emu Unit := do
  let ofs ← getIdx a32 .di
  let val ← fetchIoSize z ((← get16 .dx).setWidth 32)
  storeDataSizeAbs z .es ofs val

/-- One element from `ES:(E)SI` to port `DX`. -/
def outsTransfer (z : OpSize) (a32 : Bool) : Emu Unit := do
  let port := (← get16 .dx).setWidth 32
  let val ← fetchDataSizeAbs z .es (← getIdx a32 .si)
  storeIoSize z port val

/-- The index moves by one, whatever the element size. -/
def insOutsInc : Emu U32 := stringInc 1

/-- The common body of `ins` and `outs`: `single` is the width of the index step of the
unrepeated form. -/
def portString (transfer : Bool → Emu Unit) (r : Reg) (single : Bool → Bool) : Emu Unit := do
  let inc ← insOutsInc
  let mode ← getMode
  let a32 := mode.addr32
  if mode.rep then
    let count ← getIdx a32 .cx
    setIdx a32 .cx 0
    forLoop count.toNat fun _ => do
      transfer a32
      addIdx a32 r inc
  else
    transfer a32
    addIdx (single a32) r inc

def ins (z : OpSize) : Emu Unit := portString (insTransfer z) .di id

/-- Without a prefix `outs` always steps `SI`. -/
def outs (z : OpSize) : Emu Unit := portString (outsTransfer z) .si fun _ => false

def insByte (_ : U8) : Emu Unit := do
  decodeA32
  opDecode "insb"
  ins .byte

def insWord (_ : U8) : Emu Unit := do
  decodeA32
  if (← getMode).data32 then
    opDecode "insd"
    ins .long
  else
    opDecode "insw"
    ins .word

def outsByte (_ : U8) : Emu Unit := do
  decodeA32
  opDecode "outsb"
  outs .byte

def outsWord (_ : U8) : Emu Unit := do
  decodeA32
  if (← getMode).data32 then
    opDecode "outsd"
    outs .long
  else
    opDecode "outsw"
    outs .word

end X86Emu.Op
