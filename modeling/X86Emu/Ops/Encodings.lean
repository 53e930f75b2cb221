import X86Emu.Ops.Results
import X86Emu.Ops.Table

/-!
# Encodings of one operation

The encodings of an operation, as opcode bytes that name a destination and a source. Two encodings
with the same values of both leave the same value in the destination and the same flags, and
nothing else but what the fetches and the reads of the operands change.
-/

namespace X86Emu

open Lib

/-! ## Encodings -/

/-- The opcode bytes of group A below 0x40. -/
def aluOpcode (type k : BitVec 3) : U8 := (0 : BitVec 2) ++ type ++ k

/-- The encodings of the operation `type` of group A: the handler, the size, the destination and
the source. -/
inductive AluForm (type : BitVec 3) (s : St) :
    Emu Unit → (z : OpSize) → Operand z → Operand z → Prop
  | rmR (wide : Bool) {z : OpSize} (hz : s.cpu.mode.opSize wide = z) :
      AluForm type s (oneByte (aluOpcode type (if wide then 1 else 0))) z (s.rm z)
        (.reg s.modrm.regh)
  | rRm (wide : Bool) {z : OpSize} (hz : s.cpu.mode.opSize wide = z) :
      AluForm type s (oneByte (aluOpcode type (if wide then 3 else 2))) z (.reg s.modrm.regh)
        (s.rm z)
  | acc (wide : Bool) {z : OpSize} (hz : s.cpu.mode.opSize wide = z) :
      AluForm type s (oneByte (aluOpcode type (if wide then 5 else 4))) z (.reg 0)
        (.imm (s.immAt z 0))
  | imm80 {op : U8} (hop : op = 0x80 ∨ op = 0x82) (htype : s.modrm.regh = type) :
      AluForm type s (oneByte op) .byte (s.rm .byte) (.imm (s.immAt .byte s.rmLength))
  | imm81 {z : OpSize} (hz : s.cpu.mode.opSize true = z) (htype : s.modrm.regh = type) :
      AluForm type s (oneByte 0x81) z (s.rm z) (.imm (s.immAt z s.rmLength))
  | imm83 {z : OpSize} (hz : s.cpu.mode.opSize true = z) (htype : s.modrm.regh = type) :
      AluForm type s (oneByte 0x83) z (s.rm z) (.imm (s.imm8At z s.rmLength))

/-- The encodings of `inc` and `dec`. -/
inductive StepForm (down : Bool) (s : St) : Emu Unit → (z : OpSize) → Operand z → Prop
  | reg (r : BitVec 3) {z : OpSize} (hz : s.cpu.mode.opSize true = z) :
      StepForm down s (oneByte ((if down then 0x48 else 0x40) + r.setWidth 8)) z (.reg r)
  | fe (htype : s.modrm.regh = if down then 1 else 0) :
      StepForm down s (oneByte 0xfe) .byte (s.rm .byte)
  | ff {z : OpSize} (hz : s.cpu.mode.opSize true = z)
      (htype : s.modrm.regh = if down then 1 else 0) :
      StepForm down s (oneByte 0xff) z (s.rm z)

/-- The encodings of a shift or rotate by 1. -/
inductive ShiftForm (type : BitVec 3) (s : St) : Emu Unit → (z : OpSize) → Operand z → Prop
  | one (wide : Bool) {z : OpSize} (hz : s.cpu.mode.opSize wide = z) (htype : s.modrm.regh = type) :
      ShiftForm type s (oneByte (if wide then 0xd1 else 0xd0)) z (s.rm z)
  | imm (wide : Bool) {z : OpSize} (hz : s.cpu.mode.opSize wide = z) (htype : s.modrm.regh = type)
      (himm : s.immAt .byte s.rmLength = 1) :
      ShiftForm type s (oneByte (if wide then 0xc1 else 0xc0)) z (s.rm z)
  | cl (wide : Bool) {z : OpSize} (hz : s.cpu.mode.opSize wide = z) (htype : s.modrm.regh = type)
      (hcl : s.cpu.get8 .cl = 1) :
      ShiftForm type s (oneByte (if wide then 0xd3 else 0xd2)) z (s.rm z)

/-- The encodings of `imul`: the register of the low half, whether there is a high half in `DX` or
`EDX`, and the factors. -/
inductive MulForm (s : St) :
    Emu Unit → (z : OpSize) → BitVec 3 → Bool → Operand z → Operand z → Prop
  | one {z : OpSize} (hz : s.cpu.mode.opSize true = z) (htype : s.modrm.regh = 5) :
      MulForm s (oneByte 0xf7) z 0 true (.reg 0) (s.rm z)
  | two {z : OpSize} (hz : s.cpu.mode.opSize true = z)
      (hop : (s.code .b8 s.cpu.eip).setWidth 8 = (0xaf : U8)) :
      MulForm s (oneByte 0x0f) z (s.fetched .b8).modrm.regh false
        (.reg (s.fetched .b8).modrm.regh) ((s.fetched .b8).rm z)
  | three69 {z : OpSize} (hz : s.cpu.mode.opSize true = z) :
      MulForm s (oneByte 0x69) z s.modrm.regh false (s.rm z) (.imm (s.immAt z s.rmLength))
  | three6b {z : OpSize} (hz : s.cpu.mode.opSize true = z) :
      MulForm s (oneByte 0x6b) z s.modrm.regh false (s.rm z) (.imm (s.imm8At z s.rmLength))

/-! ## What they do -/

theorem opAType_aluOpcode (type k : BitVec 3) : Op.opAType (aluOpcode type k) = type := by
  revert type k
  decide

/-- The columns of group A in the opcode table. -/
theorem aluOpcode_handler (type : BitVec 3) :
    oneByte (aluOpcode type 0) = Op.opAByteRmR (aluOpcode type 0) ∧
      oneByte (aluOpcode type 1) = Op.opAWordRmR (aluOpcode type 1) ∧
      oneByte (aluOpcode type 2) = Op.opAByteRRm (aluOpcode type 2) ∧
      oneByte (aluOpcode type 3) = Op.opAWordRRm (aluOpcode type 3) ∧
      oneByte (aluOpcode type 4) = Op.opAByteAlImm (aluOpcode type 4) ∧
      oneByte (aluOpcode type 5) = Op.opAWordAxImm (aluOpcode type 5) := by
  rcases reg3_cases type with rfl | rfl | rfl | rfl | rfl | rfl | rfl | rfl
  all_goals exact ⟨oneByte_eq (f := Op.opAByteRmR) _ rfl, oneByte_eq (f := Op.opAWordRmR) _ rfl,
    oneByte_eq (f := Op.opAByteRRm) _ rfl, oneByte_eq (f := Op.opAWordRRm) _ rfl,
    oneByte_eq (f := Op.opAByteAlImm) _ rfl, oneByte_eq (f := Op.opAWordAxImm) _ rfl⟩

/-- The rows of `inc` and `dec`. -/
theorem step_handler (down : Bool) (r : BitVec 3) :
    ∃ op32 op16 text32 text16, (op32 = stepSize down .long ∧ op16 = stepSize down .word) ∧
      oneByte ((if down then 0x48 else 0x40) + r.setWidth 8) =
        Op.stepReg op32 op16 text32 text16 (Reg.ofBits r) := by
  rcases reg3_cases r with rfl | rfl | rfl | rfl | rfl | rfl | rfl | rfl
  · cases down
    · exact ⟨_, _, _, _, ⟨rfl, rfl⟩, oneByte_eq (f := Op.incAx) 0x40 rfl⟩
    · exact ⟨_, _, _, _, ⟨rfl, rfl⟩, oneByte_eq (f := Op.decAx) 0x48 rfl⟩
  · cases down
    · exact ⟨_, _, _, _, ⟨rfl, rfl⟩, oneByte_eq (f := Op.incCx) 0x41 rfl⟩
    · exact ⟨_, _, _, _, ⟨rfl, rfl⟩, oneByte_eq (f := Op.decCx) 0x49 rfl⟩
  · cases down
    · exact ⟨_, _, _, _, ⟨rfl, rfl⟩, oneByte_eq (f := Op.incDx) 0x42 rfl⟩
    · exact ⟨_, _, _, _, ⟨rfl, rfl⟩, oneByte_eq (f := Op.decDx) 0x4a rfl⟩
  · cases down
    · exact ⟨_, _, _, _, ⟨rfl, rfl⟩, oneByte_eq (f := Op.incBx) 0x43 rfl⟩
    · exact ⟨_, _, _, _, ⟨rfl, rfl⟩, oneByte_eq (f := Op.decBx) 0x4b rfl⟩
  · cases down
    · exact ⟨_, _, _, _, ⟨rfl, rfl⟩, oneByte_eq (f := Op.incSp) 0x44 rfl⟩
    · exact ⟨_, _, _, _, ⟨rfl, rfl⟩, oneByte_eq (f := Op.decSp) 0x4c rfl⟩
  · cases down
    · exact ⟨_, _, _, _, ⟨rfl, rfl⟩, oneByte_eq (f := Op.incBp) 0x45 rfl⟩
    · exact ⟨_, _, _, _, ⟨rfl, rfl⟩, oneByte_eq (f := Op.decBp) 0x4d rfl⟩
  · cases down
    · exact ⟨_, _, _, _, ⟨rfl, rfl⟩, oneByte_eq (f := Op.incSi) 0x46 rfl⟩
    · exact ⟨_, _, _, _, ⟨rfl, rfl⟩, oneByte_eq (f := Op.decSi) 0x4e rfl⟩
  · cases down
    · exact ⟨_, _, _, _, ⟨rfl, rfl⟩, oneByte_eq (f := Op.incDi) 0x47 rfl⟩
    · exact ⟨_, _, _, _, ⟨rfl, rfl⟩, oneByte_eq (f := Op.decDi) 0x4f rfl⟩

section

variable {inp : PortInput} {h : Host} (hh : h.Blind inp)

include hh

theorem AluForm.finishes {type : BitVec 3} {s : St} {x : Emu Unit} {z : OpSize}
    {dst src : Operand z} (hform : AluForm type s x z dst src) :
    Finishes h x s dst (decide (type ≠ 7))
      ((opA z type (dst.val s) (src.val s)).run () s.cpu.eflg) := by
  have htype : ∀ k, Op.opAType (aluOpcode type k) = type := opAType_aluOpcode type
  obtain ⟨h0, h1, h2, h3, h4, h5⟩ := aluOpcode_handler type
  cases hform with
  | rmR wide hz =>
    cases wide with
    | false => exact h0 ▸ opARmR_finishes hh (htype 0) hz
    | true => exact h1 ▸ opARmR_finishes hh (htype 1) hz
  | rRm wide hz =>
    cases wide with
    | false => exact h2 ▸ opARRm_finishes hh (htype 2) hz
    | true => exact h3 ▸ opARRm_finishes hh (htype 3) hz
  | acc wide hz =>
    cases wide with
    | false =>
      subst hz
      exact h4 ▸ opAByteAlImm_finishes hh (htype 4) s
    | true => exact h5 ▸ opAWordAxImm_finishes hh (htype 5) hz
  | imm80 hop hreg =>
    have himm := opcARmImm_finishes hh (show s.cpu.mode.opSize false = .byte from rfl)
      (fetchImm_immediate hh .byte)
    subst hreg
    rcases hop with rfl | rfl
    · exact (oneByte_eq (f := Op.opc80ByteRmImm) 0x80 rfl) ▸ himm
    · exact (oneByte_eq (f := Op.opc80ByteRmImm) 0x82 rfl) ▸ himm
  | imm81 hz hreg =>
    subst hreg
    exact (oneByte_eq (f := Op.opc81WordRmImm) 0x81 rfl) ▸
      opcARmImm_finishes hh hz (fetchImm_immediate hh z)
  | imm83 hz hreg =>
    subst hreg
    exact (oneByte_eq (f := Op.opc83WordRmImm) 0x83 rfl) ▸
      opcARmImm_finishes hh hz (fetchImmSigned_immediate hh z)

theorem StepForm.finishes {down : Bool} {s : St} {x : Emu Unit} {z : OpSize} {dst : Operand z}
    (hform : StepForm down s x z dst) :
    Finishes h x s dst true ((stepSize down z (dst.val s)).run () s.cpu.eflg) := by
  cases hform with
  | reg r hz =>
    obtain ⟨op32, op16, text32, text16, hop, hhandler⟩ := step_handler down r
    exact hhandler ▸ stepReg_finishes hh down hop text32 text16 r hz
  | fe htype =>
    exact (oneByte_eq (f := Op.opcFeByteRm) 0xfe rfl) ▸ opcFeByteRm_finishes hh 0xfe down htype
  | ff hz htype =>
    exact (oneByte_eq (f := Op.opcFfWordRm) 0xff rfl) ▸ opcFfWordRm_finishes hh 0xff down hz htype

theorem ShiftForm.finishes {type : BitVec 3} {s : St} {x : Emu Unit} {z : OpSize} {dst : Operand z}
    (hform : ShiftForm type s x z dst) :
    Finishes h x s dst true ((opB z type (dst.val s) 1).run () s.cpu.eflg) := by
  cases hform with
  | one wide hz htype =>
    subst htype
    have hrun : Finishes h (Op.shiftRm1 wide) s (s.rm z) true
        ((opB z s.modrm.regh ((s.rm z).val s) 1).run () s.cpu.eflg) := by
      refine shiftRm_finishes hh hz false ",1" (fun t _ _ => seen_pure 1 t) ?_
      unfold Op.shiftRm1 decodeOpB
      rw [seen_step hh (seen_modrm hh s), seen_step hh (seen_opDecode _ _)]
    cases wide with
    | false => exact oneByte_eq (f := Op.opcD0ByteRm1) 0xd0 rfl ▸ hrun
    | true => exact oneByte_eq (f := Op.opcD1WordRm1) 0xd1 rfl ▸ hrun
  | imm wide hz htype himm =>
    subst htype
    have hrun := shiftRmImm_finishes hh hz
    rw [himm] at hrun
    cases wide with
    | false => exact oneByte_eq (f := Op.opcC0ByteRmMem) 0xc0 rfl ▸ hrun
    | true => exact oneByte_eq (f := Op.opcC1WordRmMem) 0xc1 rfl ▸ hrun
  | cl wide hz htype hcl =>
    subst htype
    have hrun := shiftRmCl_finishes hh hz
    rw [hcl] at hrun
    cases wide with
    | false => exact oneByte_eq (f := Op.opcD2ByteRmCl) 0xd2 rfl ▸ hrun
    | true => exact oneByte_eq (f := Op.opcD3WordRmCl) 0xd3 rfl ▸ hrun

theorem MulForm.multiplies {s : St} {x : Emu Unit} {z : OpSize} {r : BitVec 3} {one : Bool}
    {d src : Operand z} (hform : MulForm s x z r one d src) :
    Multiplies h x s r one (imulParts (d.val s) (src.val s)).1 (imulParts (d.val s) (src.val s)).2.1
      (imulFlagsOf (d.val s) (src.val s) s.cpu.eflg) := by
  cases hform with
  | one hz htype =>
    exact oneByte_eq (f := Op.opcF7WordRm) 0xf7 rfl ▸ groupRm_multiplies hh hz htype
  | two hz hop =>
    have hone : Reads s (s.fetched .b8) := Reads.refl.fetched .b8
    have htwo : handlerAt x86emuOptab2 0xaf = Op2.imulRRm := rfl
    obtain ⟨u, hu, hx⟩ := imulRRm_multiplies hh 0xaf ((hone.opSize true).trans hz)
    refine oneByte_eq (f := Op.twoByte) 0x0f rfl ▸ ⟨u, hone.trans hu, ?_⟩
    unfold Op.twoByte
    rw [seen_step hh (seen_fetchByte hh s), hop, htwo, hx, ← hone.val, ← hone.val, ← hone.eflg]
    rfl
  | three69 hz =>
    have hrun := imulImm_multiplies hh hz (imulWordImmediate_immediate hh (·.signExtend 32) z)
      (imulWordImmediate_immediate hh (·.setWidth 32) z)
    rw [oneByte_eq (f := Op.imulWordImm) 0x69 rfl]
    exact hrun
  | three6b hz =>
    have hrun := imulImm_multiplies hh hz (imulByteImmediate_immediate hh z)
      (imulByteImmediate_immediate hh z)
    rw [oneByte_eq (f := Op.imulByteImm) 0x6b rfl]
    exact hrun

/-! ## Agreement -/

/-- Any two encodings of an operation of group A, of `inc` or `dec`, of a shift or rotate by 1 or of
`imul`, with equal operands and flags words, leave equal values and flags, and nothing else but what
fetching their bytes and reading the operands changes; `cmp` writes nothing. -/
theorem encodings_agree (z : OpSize) (s s' : St) (x x' : Emu Unit)
    (heflg : s.cpu.eflg = s'.cpu.eflg) :
    (∀ type (dst src dst' src' : Operand z), AluForm type s x z dst src →
      AluForm type s' x' z dst' src' → dst.val s = dst'.val s' → src.val s = src'.val s' →
      ∃ v flags, Finishes h x s dst (decide (type ≠ 7)) (v, flags) ∧
        Finishes h x' s' dst' (decide (type ≠ 7)) (v, flags)) ∧
    (∀ down (dst dst' : Operand z), StepForm down s x z dst → StepForm down s' x' z dst' →
      dst.val s = dst'.val s' →
      ∃ v flags, Finishes h x s dst true (v, flags) ∧ Finishes h x' s' dst' true (v, flags)) ∧
    (∀ type (dst dst' : Operand z), ShiftForm type s x z dst → ShiftForm type s' x' z dst' →
      dst.val s = dst'.val s' →
      ∃ v flags, Finishes h x s dst true (v, flags) ∧ Finishes h x' s' dst' true (v, flags)) ∧
    (∀ r r' one one' (d src d' src' : Operand z), MulForm s x z r one d src →
      MulForm s' x' z r' one' d' src' → d.val s = d'.val s' → src.val s = src'.val s' →
      ∃ lo hi flags, Multiplies (z := z) h x s r one lo hi flags ∧
        Multiplies (z := z) h x' s' r' one' lo hi flags) := by
  refine ⟨?_, ?_, ?_, ?_⟩
  · intro type dst src dst' src' hx hx' hdst hsrc
    have hleft := hx.finishes hh
    rw [hdst, hsrc, heflg] at hleft
    exact ⟨_, _, hleft, hx'.finishes hh⟩
  · intro down dst dst' hx hx' hdst
    have hleft := hx.finishes hh
    rw [hdst, heflg] at hleft
    exact ⟨_, _, hleft, hx'.finishes hh⟩
  · intro type dst dst' hx hx' hdst
    have hleft := hx.finishes hh
    rw [hdst, heflg] at hleft
    exact ⟨_, _, hleft, hx'.finishes hh⟩
  · intro r r' one one' d src d' src' hx hx' hd hsrc
    have hleft := hx.multiplies hh
    rw [hd, hsrc, heflg] at hleft
    exact ⟨_, _, _, hleft, hx'.multiplies hh⟩

end

/-- `add al,5` in two encodings. -/
theorem encodings_agree_add :
    let s : St := { mem := fullMem fun _ => 5 }
    let s' : St := { mem := fullMem fun i => if i = 0 then 0xc0 else 5 }
    let h := defaultHost fun _ _ _ => 0
    ∃ v flags, Finishes h (oneByte 0x04) s (.reg 0 : Operand .byte) true (v, flags) ∧
      Finishes h (oneByte 0x80) s' (.reg 0 : Operand .byte) true (v, flags) := by
  intro s s' h
  have hmod : s'.modrm.mod = 3 := by decide +kernel
  have hregl : s'.modrm.regl = 0 := by decide +kernel
  have hreg : s'.rm .byte = .reg 0 := (if_pos hmod).trans (congrArg Operand.reg hregl)
  have himm : s'.rmLength = 1 := if_pos hmod
  have hagree := (encodings_agree (defaultHost_default fun _ _ _ => 0).blind .byte s s'
    (oneByte 0x04) (oneByte 0x80) rfl).1 0 (.reg 0) _ (s'.rm .byte) _
    (.acc false rfl) (.imm80 (Or.inl rfl) (by decide +kernel))
    (by rw [hreg]; decide +kernel) (by rw [himm]; decide +kernel)
  rw [hreg] at hagree
  exact hagree

end X86Emu
