import X86Emu.Alu.Counts
import X86Emu.Ops.Results
import X86Emu.Ops.Table

/-!
# Counts of shift instructions

The handlers pass the count byte on as it is, an immediate or `CL`. So an instruction gives the
result of the count modulo 32 exactly when its routine does.
-/

namespace X86Emu

open Lib

/-! ## Operations and instructions -/

/-- A rotate or a shift of an operand. -/
inductive CountedOp (z : OpSize)
  | rotate (r : Rotate)
  | shift (op : Shift z)

namespace CountedOp

variable {z : OpSize}

def run : CountedOp z → BitVec z.bits → U8 → FlagOp (BitVec z.bits)
  | rotate r => r.run z
  | shift op => op.run

/-- When a count from 32 on and the count modulo 32 agree. -/
def CountHolds (op : CountedOp z) (d : BitVec z.bits) (c : Nat) (fl : U32) : Prop :=
  match op with
  | rotate r => r.CountHolds d c fl
  | shift op => op.CountHolds d c fl

/-- The operations of group B; 6 is `shl` once more. -/
def ofType (type : BitVec 3) : CountedOp z :=
  match type.toNat with
  | 0 => rotate .rol | 1 => rotate .ror | 2 => rotate .rcl | 3 => rotate .rcr
  | 4 => shift .shl | 5 => shift .shr | 6 => shift .shl | _ => shift .sar

/-- A count of 8 bits gives the result and the flags of its low 5 bits. -/
def CountLow (op : CountedOp z) (d : BitVec z.bits) (c : U8) (fl : U32) : Prop :=
  (op.run d c).run () fl = (op.run d (lowCount c)).run () fl

theorem countLow_iff (op : CountedOp z) (d : BitVec z.bits) (c : U8) (fl : U32) :
    op.CountLow d c fl ↔ c.toNat < 32 ∨ op.CountHolds d c.toNat fl := by
  cases op with
  | rotate r => exact r.countLow_iff d c fl
  | shift op => exact op.countLow_iff d c fl

theorem opB_ofType (type : BitVec 3) : opB z type = (ofType type : CountedOp z).run := by
  rcases reg3_cases type with rfl | rfl | rfl | rfl | rfl | rfl | rfl | rfl
  all_goals cases z <;> rfl

end CountedOp

/-- The instructions with a count byte: the handler, the operand, the operation and the count. -/
inductive CountedForm (s : St) : Emu Unit → (z : OpSize) → Operand z → CountedOp z → U8 → Prop
  | imm (wide : Bool) {z : OpSize} (hz : s.cpu.mode.opSize wide = z) :
      CountedForm s (oneByte (if wide then 0xc1 else 0xc0)) z (s.rm z) (.ofType s.modrm.regh)
        (s.immAt .byte s.rmLength)
  | cl (wide : Bool) {z : OpSize} (hz : s.cpu.mode.opSize wide = z) :
      CountedForm s (oneByte (if wide then 0xd3 else 0xd2)) z (s.rm z) (.ofType s.modrm.regh)
        (s.cpu.get8 .cl)
  | shldImm {z : OpSize} (hz : s.cpu.mode.opSize true = z) (hbyte : z ≠ .byte) :
      CountedForm s (handlerAt x86emuOptab2 0xa4 0xa4) z (s.rm z)
        (.shift (.shld hbyte (s.cpu.getReg z s.modrm.regh))) (s.immAt .byte s.rmLength)
  | shldCl {z : OpSize} (hz : s.cpu.mode.opSize true = z) (hbyte : z ≠ .byte) :
      CountedForm s (handlerAt x86emuOptab2 0xa5 0xa5) z (s.rm z)
        (.shift (.shld hbyte (s.cpu.getReg z s.modrm.regh))) (s.cpu.get8 .cl)
  | shrdImm {z : OpSize} (hz : s.cpu.mode.opSize true = z) (hbyte : z ≠ .byte) :
      CountedForm s (handlerAt x86emuOptab2 0xac 0xac) z (s.rm z)
        (.shift (.shrd hbyte (s.cpu.getReg z s.modrm.regh))) (s.immAt .byte s.rmLength)
  | shrdCl {z : OpSize} (hz : s.cpu.mode.opSize true = z) (hbyte : z ≠ .byte) :
      CountedForm s (handlerAt x86emuOptab2 0xad 0xad) z (s.rm z)
        (.shift (.shrd hbyte (s.cpu.getReg z s.modrm.regh))) (s.cpu.get8 .cl)

section

variable {inp : PortInput} {h : Host} (hh : h.Blind inp)

include hh

/-- The handlers use the whole count byte. -/
theorem CountedForm.finishes {s : St} {x : Emu Unit} {z : OpSize} {dst : Operand z}
    {op : CountedOp z} {c : U8} (hform : CountedForm s x z dst op c) :
    Finishes h x s dst true ((op.run (dst.val s) c).run () s.cpu.eflg) := by
  cases hform with
  | imm wide hz =>
    have hrun := shiftRmImm_finishes hh hz
    rw [CountedOp.opB_ofType] at hrun
    cases wide with
    | false => exact oneByte_eq (f := Op.opcC0ByteRmMem) 0xc0 rfl ▸ hrun
    | true => exact oneByte_eq (f := Op.opcC1WordRmMem) 0xc1 rfl ▸ hrun
  | cl wide hz =>
    have hrun := shiftRmCl_finishes hh hz
    rw [CountedOp.opB_ofType] at hrun
    cases wide with
    | false => exact oneByte_eq (f := Op.opcD2ByteRmCl) 0xd2 rfl ▸ hrun
    | true => exact oneByte_eq (f := Op.opcD3WordRmCl) 0xd3 rfl ▸ hrun
  | shldImm hz _ => exact shiftDoubleImm_finishes hh hz "shld " Op2.shldSize
  | shldCl hz _ => exact shiftDoubleCl_finishes hh hz "shld " Op2.shldSize
  | shrdImm hz _ => exact shiftDoubleImm_finishes hh hz "shrd " Op2.shrdSize
  | shrdCl hz _ => exact shiftDoubleCl_finishes hh hz "shrd " Op2.shrdSize

end

/-- `shl edx,cl` of `d` by 32. -/
def shlState (d : U32) : St := {
  mem := fullMem fun _ => 0xe2
  cpu := { mode := { data32 := true }, gen := fun r => if r = .cx then 32 else d } }

theorem shlState_form (d : U32) :
    CountedForm (shlState d) (oneByte 0xd3) .long (.reg 2) (.shift .shl) 32 := by
  have hcode : (shlState d).modrm = ⟨3, 4, 2⟩ :=
    calc (shlState d).modrm = (shlState 0).modrm :=
          congrArg (fun v : U32 => ModRm.ofByte (v.setWidth 8))
            (code_congr (s := shlState 0) (t := shlState d) (.refl _) rfl .b8 0)
      _ = ⟨3, 4, 2⟩ := by decide +kernel
  have hreg : (shlState d).rm .long = .reg 2 := by
    rw [St.rm, hcode]
    rfl
  have htype : (.ofType (shlState d).modrm.regh : CountedOp .long) = .shift .shl := by
    rw [hcode]
    rfl
  have hform := CountedForm.cl (s := shlState d) true (z := .long) rfl
  rw [hreg, htype] at hform
  exact hform

/-- A result in a register. -/
theorem Finishes.reg_value {h : Host} {x : Emu Unit} {s : St} {r : BitVec 3} {res : U32 × U32}
    (hx : Finishes h x s (.reg r : Operand .long) true res) :
    (seen h x s).2.cpu.getReg .long r = res.1 := by
  obtain ⟨u, -, hfin⟩ := hx
  rw [hfin]
  exact Function.update_self _ _ _

end X86Emu
