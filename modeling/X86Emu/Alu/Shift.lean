import X86Emu.Alu.Arith

/-!
# Shifts and rotates

The shift and rotate functions of `prim_ops.c`. C leaves a shift of a 32 bit value by 32 or more
undefined; `cShl` and `cShr` take the count modulo 32, as the processor does.
-/

namespace X86Emu

open Lib

def cShl (x : U32) (n : Nat) : U32 := x <<< (n % 32)

def cShr (x : U32) (n : Nat) : U32 := x >>> (n % 32)

section Widths

variable {w : Nat}

/-! ## Rotates through the carry -/

/-- `rcl_byte`, `rcl_word` and `rcl_long` -/
def rclVal (d : BitVec w) (s : U8) : FlagOp (BitVec w) := do
  let cnt := s.toNat % (w + 1)
  if cnt ≠ 0 then
    let d := widen d
    let cf := (cShr d (w - cnt)).getLsbD 0
    let mask := cShl 1 (cnt - 1) - 1
    let res := ((cShl d cnt).setWidth w).setWidth 32 ||| (cShr d (w + 1 - cnt) &&& mask)
    let res := if ← accessFlag .cf then res ||| cShl 1 (cnt - 1) else res
    condSet cf .cf
    condSet (cnt = 1 && (cf ^^ res.getLsbD (w - 1))) .of
    return res.setWidth w
  else
    return d

/-- The common body of the `rcr_*` functions; `high` are the bits that enter from the left. -/
def rcrVal (high : U32 → Nat → U32) (d : BitVec w) (s : U8) : FlagOp (BitVec w) := do
  let cnt := s.toNat % (w + 1)
  if cnt ≠ 0 then
    let d := widen d
    let ocf ← accessFlag .cf
    let cf := (cShr d (cnt - 1)).getLsbD 0
    let mask := cShl 1 (w - cnt) - 1
    let res := (cShr d cnt &&& mask) ||| high d cnt
    let res := if ← accessFlag .cf then res ||| cShl 1 (w - cnt) else res
    condSet cf .cf
    if cnt = 1 then condSet (ocf ^^ d.getLsbD (w - 1)) .of
    return res.setWidth w
  else
    return d

def rclByte : U8 → U8 → FlagOp U8 := rclVal
def rclWord : U16 → U8 → FlagOp U16 := rclVal
def rclLong : U32 → U8 → FlagOp U32 := rclVal
def rcrByte : U8 → U8 → FlagOp U8 := rcrVal fun d cnt => cShl d (9 - cnt)
def rcrWord : U16 → U8 → FlagOp U16 := rcrVal fun d cnt => cShl d (17 - cnt)
def rcrLong : U32 → U8 → FlagOp U32 :=
  rcrVal fun d cnt => if cnt ≠ 1 then cShl d (33 - cnt) else 0

/-! ## Rotates -/

/-- `rol_byte`, `rol_word` and `rol_long` -/
def rolVal (d : BitVec w) (s : U8) : FlagOp (BitVec w) := do
  if s = 0 then
    return d
  else
    let cnt := s.toNat % w
    let x := widen d
    let d : BitVec w :=
      if cnt ≠ 0 then (cShl x cnt + (cShr x (w - cnt) &&& (cShl 1 cnt - 1))).setWidth w else d
    if s = 1 then condSet (d.getLsbD 0 ^^ d.getLsbD (w - 1)) .of
    condSet (d.getLsbD 0) .cf
    return d

/-- `ror_byte`, `ror_word` and `ror_long` -/
def rorVal (d : BitVec w) (s : U8) : FlagOp (BitVec w) := do
  if s = 0 then
    return d
  else
    let cnt := s.toNat % w
    let x := widen d
    let d : BitVec w :=
      if cnt ≠ 0 then (cShl x (w - cnt) + (cShr x cnt &&& (cShl 1 (w - cnt) - 1))).setWidth w
      else d
    if s = 1 then condSet (xor2 (widen d >>> (w - 2))) .of
    condSet (d.getLsbD (w - 1)) .cf
    return d

def rolByte : U8 → U8 → FlagOp U8 := rolVal
def rolWord : U16 → U8 → FlagOp U16 := rolVal
def rolLong : U32 → U8 → FlagOp U32 := rolVal
def rorByte : U8 → U8 → FlagOp U8 := rorVal
def rorWord : U16 → U8 → FlagOp U16 := rorVal
def rorLong : U32 → U8 → FlagOp U32 := rorVal

/-! ## Shifts -/

/-- The flags of a shift by a count below the width. -/
def shiftFlags (w : Nat) (cf : Bool) (res : U32) : FlagOp Unit := do
  condSet cf .cf
  setResFlags w res

/-- The common body of `shl_*` and `shld_*`; `res` is the shifted value. -/
def leftVal (d : BitVec w) (res : U32) (s : U8) : FlagOp (BitVec w) := do
  let x := widen d
  if s.toNat < w then
    let cnt := s.toNat % w
    let res := if cnt > 0 then res else x
    if cnt > 0 then shiftFlags w (x &&& cShl 1 (w - cnt) ≠ 0) res
    if cnt = 1 then
      condSet (res.getLsbD (w - 1) ^^ (← accessFlag .cf)) .of
    else
      clearFlag .of
    return res.setWidth w
  else
    condSet ((cShl x (s.toNat - 1)).getLsbD (w - 1)) .cf
    clearFlag .of
    clearFlag .sf
    setFlag .pf
    setFlag .zf
    return 0

/-- The common body of `shr_*` and `shrd_*`; `res` is the shifted value and `beyond` is done when
the count is not below the width. -/
def rightVal (beyond : FlagOp Unit) (d : BitVec w) (res : U32) (s : U8) : FlagOp (BitVec w) := do
  let x := widen d
  if s.toNat < w then
    let cnt := s.toNat % w
    let res := if cnt > 0 then res else x
    if cnt > 0 then shiftFlags w (x &&& cShl 1 (cnt - 1) ≠ 0) res
    if cnt = 1 then
      condSet (xor2 (res >>> (w - 2))) .of
    else
      clearFlag .of
    return res.setWidth w
  else
    beyond
    return 0

/-- The flags after all bits are shifted out, in all functions but `shr_byte`. -/
def shiftedOut : FlagOp Unit := do
  clearFlag .cf
  clearFlag .of
  setFlag .zf
  clearFlag .sf
  clearFlag .pf

/-- The flags after all bits are shifted out in `shr_byte`. -/
def shiftedOutByte (d s : U8) : FlagOp Unit := do
  condSet ((cShr (widen d) (s.toNat - 1)).getLsbD 0) .cf
  clearFlag .of
  clearFlag .sf
  setFlag .pf
  setFlag .zf

def shlByte (d s : U8) : FlagOp U8 := leftVal d (cShl (widen d) s.toNat) s
def shlWord (d : U16) (s : U8) : FlagOp U16 := leftVal d (cShl (widen d) s.toNat) s
def shlLong (d : U32) (s : U8) : FlagOp U32 := leftVal d (cShl d s.toNat) s

def shrByte (d s : U8) : FlagOp U8 :=
  rightVal (shiftedOutByte d s) d (cShr (widen d) s.toNat) s
def shrWord (d : U16) (s : U8) : FlagOp U16 :=
  rightVal shiftedOut d (cShr (widen d) s.toNat) s
def shrLong (d : U32) (s : U8) : FlagOp U32 := rightVal shiftedOut d (cShr d s.toNat) s

def shldWord (d fill : U16) (s : U8) : FlagOp U16 :=
  leftVal d (cShl (widen d) s.toNat ||| cShr (widen fill) (16 - s.toNat)) s
def shldLong (d fill : U32) (s : U8) : FlagOp U32 :=
  leftVal d (cShl d s.toNat ||| cShr fill (32 - s.toNat)) s

def shrdWord (d fill : U16) (s : U8) : FlagOp U16 :=
  rightVal shiftedOut d (cShr (widen d) s.toNat ||| cShl (widen fill) (16 - s.toNat)) s
def shrdLong (d fill : U32) (s : U8) : FlagOp U32 :=
  rightVal shiftedOut d (cShr d s.toNat ||| cShl fill (32 - s.toNat)) s

/-- `sar_byte`, `sar_word` and `sar_long`. The branch of the source for a count of at least
the width is never taken, as the count is a remainder. -/
def sarVal (d : BitVec w) (s : U8) : FlagOp (BitVec w) := do
  let cnt := s.toNat % w
  if cnt > 0 then
    let x := widen d
    let mask := cShl 1 (w - cnt) - 1
    let res := cShr x cnt &&& mask
    let res := if d.getLsbD (w - 1) then res ||| ~~~mask else res
    shiftFlags w (x &&& cShl 1 (cnt - 1) ≠ 0) res
    return res.setWidth w
  else
    return d

def sarByte : U8 → U8 → FlagOp U8 := sarVal
def sarWord : U16 → U8 → FlagOp U16 := sarVal
def sarLong : U32 → U8 → FlagOp U32 := sarVal

end Widths

end X86Emu
