import X86Emu.Decode.Rm
import X86Emu.Ops.TwoByte

/-!
# Results of arithmetic instructions

The handlers that compute one result and the flags from their operands: the handler reads its
operands, replaces the flags word and writes the result. The operations are those of the group, at
the values of the operands.
-/

namespace X86Emu

open Lib

/-! ## Results -/

/-- The flags word is replaced, and the value is written if it is kept. -/
def St.finished (u : St) {z : OpSize} (dst : Operand z) (keep : Bool) (v : BitVec z.bits)
    (flags : U32) : St :=
  let t := u.put fun c => { c with eflg := flags }
  if keep then t.write dst v else t

/-- From `s` the program reads its operands, replaces the flags word and writes a value, if it is
kept. -/
def Finishes (h : Host) (x : Emu Unit) (s : St) {z : OpSize} (dst : Operand z) (keep : Bool)
    (res : BitVec z.bits × U32) : Prop :=
  ∃ u, Reads s u ∧ (seen h x s).2 = (u.finished dst keep res.1 res.2).view

theorem setLo8_self (v : U32) : setLo8 v (v.extractLsb' 0 8) = v := by
  unfold setLo8
  rw [BitVec.extractLsb'_append_extractLsb'_eq_extractLsb' (by decide)]
  exact BitVec.extractLsb'_eq_self

theorem setHi8_self (v : U32) : setHi8 v (v.extractLsb' 8 8) = v := by
  unfold setHi8
  rw [BitVec.extractLsb'_append_extractLsb'_eq_extractLsb' (by decide),
    BitVec.extractLsb'_append_extractLsb'_eq_extractLsb' (by decide)]
  exact BitVec.extractLsb'_eq_self

/-- A register written back. -/
theorem setReg_getReg (c : Cpu) (z : OpSize) (r : BitVec 3) : c.setReg z r (c.getReg z r) = c := by
  have hset : ∀ r v, v = c.gen r → c.setGen r v = c := by
    intro r v hv
    unfold Cpu.setGen
    rw [hv, Function.update_eq_self]
  cases z with
  | byte =>
    refine hset _ _ ?_
    show (if (Reg8.ofBits r).parent.2 then setHi8 _ (c.get8 _) else setLo8 _ (c.get8 _)) = _
    unfold Cpu.get8
    split
    · exact setHi8_self _
    · exact setLo8_self _
  | word => exact hset _ _ (setLo16_self _)
  | long => exact hset _ _ rfl

/-- A comparison returns its first operand. -/
theorem opA_cmp (z : OpSize) (d s : BitVec z.bits) (fl : U32) :
    ((opA z 7 d s).run () fl).1 = d := by
  cases z <;> rfl

theorem opSize_cases (m : Mode) : m.data32 = true ∧ m.opSize true = .long ∨
    m.data32 = false ∧ m.opSize true = .word := by
  unfold Mode.opSize
  cases m.data32 with
  | true => exact Or.inl ⟨rfl, rfl⟩
  | false => exact Or.inr ⟨rfl, rfl⟩

theorem opSize_ne_byte (m : Mode) : m.opSize true ≠ .byte := by
  rcases opSize_cases m with ⟨-, hsize⟩ | ⟨-, hsize⟩ <;> rw [hsize] <;> decide

/-! ## Group A -/

/-- A comparison that writes its first operand back keeps nothing. -/
theorem finished_alu {u : St} {z : OpSize} {r type : BitVec 3} {d : BitVec z.bits}
    (hd : u.cpu.getReg z r = d) (src : BitVec z.bits) (fl fl' : U32) :
    u.finished (.reg r) true ((opA z type d src).run () fl).1 fl' =
      u.finished (.reg r) (decide (type ≠ 7)) ((opA z type d src).run () fl).1 fl' := by
  by_cases hcmp : type = 7
  · subst hcmp hd
    have hback : { u.cpu with eflg := fl' }.setReg z r (u.cpu.getReg z r) =
        { u.cpu with eflg := fl' } := by
      have hget : u.cpu.getReg z r = { u.cpu with eflg := fl' }.getReg z r := by cases z <;> rfl
      rw [hget, setReg_getReg]
    rw [opA_cmp]
    exact put_congr (s := u) (f := fun c => { c with eflg := fl' }.setReg z r (u.cpu.getReg z r))
      (g := fun c => { c with eflg := fl' }) hback
  · rw [decide_eq_true hcmp]

section

variable {inp : PortInput} {h : Host} (hh : h.Blind inp)

include hh

omit hh in
theorem seen_opSizeEq {wide : Bool} {t : St} {z : OpSize} (hz : t.cpu.mode.opSize wide = z) :
    seen h (opSize wide) t = (z, t.view) := by
  rw [seen_opSize, hz]

/-- The register forms: `d` is read from `r`, and the result is written there. -/
theorem finishes_aluReg {x : Emu Unit} {s u : St} (hu : Reads s u) {z : OpSize} {r type : BitVec 3}
    {d src : BitVec z.bits} (hd : s.cpu.getReg z r = d)
    (hx : seen h x s = seen h (do setReg z r (← flags (opA z type d src))) u) :
    Finishes h x s (.reg r) (decide (type ≠ 7)) ((opA z type d src).run () s.cpu.eflg) := by
  refine ⟨u, hu, ?_⟩
  rw [hx, seen_step hh (seen_flags _ u), seen_setReg,
    ← finished_alu ((hu.getReg z r).trans hd), ← hu.eflg]
  rfl

/-- The same where a comparison does not write. -/
theorem finishes_aluRegKeep {x : Emu Unit} {s u : St} (hu : Reads s u) {z : OpSize}
    {r type : BitVec 3} {d src : BitVec z.bits}
    (hx : seen h x s = seen h (do
      let val ← flags (opA z type d src)
      if type ≠ 7 then setReg z r val) u) :
    Finishes h x s (.reg r) (decide (type ≠ 7)) ((opA z type d src).run () s.cpu.eflg) := by
  refine ⟨u, hu, ?_⟩
  rw [hx, seen_step hh (seen_flags _ u), seen_ite, ← hu.eflg]
  by_cases hcmp : type = 7
  · rw [if_neg (not_not.mpr hcmp), decide_eq_false (not_not.mpr hcmp), seen_pure]
    rfl
  · rw [if_pos hcmp, decide_eq_true hcmp, seen_setReg]
    rfl

/-- The memory forms: `d` is read from memory, and the result is written there. -/
theorem finishes_aluMem {x : Emu Unit} {s u : St} (hu : Reads s u) {z : OpSize} {type : BitVec 3}
    {d src : BitVec z.bits} {seg : SegReg} {addr : U32} (hseg : u.cpu.dataSeg = seg)
    (hx : seen h x s = seen h (do
      let val ← flags (opA z type d src)
      if type ≠ 7 then storeDataSize z addr val) u) :
    Finishes h x s (.mem seg addr : Operand z) (decide (type ≠ 7))
      ((opA z type d src).run () s.cpu.eflg) := by
  refine ⟨u, hu, ?_⟩
  rw [hx, seen_step hh (seen_flags _ u), seen_ite, ← hu.eflg]
  by_cases hcmp : type = 7
  · rw [if_neg (not_not.mpr hcmp), decide_eq_false (not_not.mpr hcmp), seen_pure]
    rfl
  · rw [if_pos hcmp, decide_eq_true hcmp, seen_storeDataSize hh]
    subst hseg
    rfl

theorem opARmR_finishes {wide : Bool} {type : BitVec 3} {op1 : U8} (hop : Op.opAType op1 = type)
    {z : OpSize} {s : St} (hz : s.cpu.mode.opSize wide = z) :
    Finishes h (Op.opARmR wide op1) s (s.rm z) (decide (type ≠ 7))
      ((opA z type ((s.rm z).val s) (s.cpu.getReg z s.modrm.regh)).run () s.cpu.eflg) := by
  have hone : Reads s (s.fetched .b8) := Reads.refl.fetched .b8
  unfold Op.opARmR decodeOpA St.rm
  rw [hop]
  split
  · next hmod =>
    refine finishes_aluReg hh hone rfl ?_
    rw [seen_step hh (seen_opDecode _ s), seen_step hh (seen_modrm hh s), seen_ite, if_pos hmod,
      seen_step hh (seen_opSizeEq ((hone.opSize wide).trans hz)),
      seen_step hh (seen_decodeReg z _ _), seen_step hh (seen_opDecode _ _),
      seen_step hh (seen_decodeReg z _ _), seen_step hh (seen_getReg z _ _),
      seen_step hh (seen_getReg z _ _), hone.getReg, hone.getReg]
    rfl
  · next hmod =>
    obtain ⟨hload, hseg⟩ := rmLoaded_reads s z
    refine finishes_aluMem hh hload hseg ?_
    rw [seen_step hh (seen_opDecode _ s), seen_step hh (seen_modrm hh s), seen_ite, if_neg hmod,
      seen_step hh (seen_rmAddress hh hmod), seen_step hh (seen_opDecode _ _),
      seen_step hh (seen_opSizeEq (((rmFetched_reads s).opSize wide).trans hz)),
      seen_step hh (seen_fetchDataSize hh z _ _), rmFetched_dataSeg,
      seen_step hh (seen_decodeReg z _ _), seen_step hh (seen_getReg z _ _), hload.getReg,
      (rmFetched_reads s).dataVal]
    rfl

theorem opARRm_finishes {wide : Bool} {type : BitVec 3} {op1 : U8} (hop : Op.opAType op1 = type)
    {z : OpSize} {s : St} (hz : s.cpu.mode.opSize wide = z) :
    Finishes h (Op.opARRm wide op1) s (.reg s.modrm.regh : Operand z) (decide (type ≠ 7))
      ((opA z type (s.cpu.getReg z s.modrm.regh) ((s.rm z).val s)).run () s.cpu.eflg) := by
  have hone : Reads s (s.fetched .b8) := Reads.refl.fetched .b8
  unfold Op.opARRm decodeOpA St.rm
  rw [hop]
  split
  · next hmod =>
    refine finishes_aluReg hh hone rfl ?_
    rw [seen_step hh (seen_opDecode _ s), seen_step hh (seen_modrm hh s),
      seen_step hh (seen_opSizeEq ((hone.opSize wide).trans hz)),
      seen_step hh (seen_decodeReg z _ _), seen_step hh (seen_opDecode _ _), seen_ite, if_pos hmod,
      seen_step hh (seen_decodeReg z _ _), seen_step hh (seen_getReg z _ _),
      seen_step hh (seen_getReg z _ _), hone.getReg, hone.getReg]
    rfl
  · next hmod =>
    obtain ⟨hload, hseg⟩ := rmLoaded_reads s z
    refine finishes_aluReg hh hload rfl ?_
    rw [seen_step hh (seen_opDecode _ s), seen_step hh (seen_modrm hh s),
      seen_step hh (seen_opSizeEq ((hone.opSize wide).trans hz)),
      seen_step hh (seen_decodeReg z _ _), seen_step hh (seen_opDecode _ _), seen_ite,
      if_neg hmod, seen_step hh (seen_rmAddress hh hmod),
      seen_step hh (seen_fetchDataSize hh z _ _), rmFetched_dataSeg,
      seen_step hh (seen_getReg z _ _), hload.getReg, (rmFetched_reads s).dataVal]
    rfl

/-- An immediate at `EIP`. -/
theorem seen_accImm (z : OpSize) (text : String) (s : St) :
    seen h (Op.accImm z text) s = (s.immAt z 0, (s.fetched z.width).view) := by
  unfold Op.accImm St.immAt
  rw [seen_step hh (seen_opDecode _ s), seen_fetchImm hh, advance_zero]

theorem opAByteAlImm_finishes {type : BitVec 3} {op1 : U8} (hop : Op.opAType op1 = type) (s : St) :
    Finishes h (Op.opAByteAlImm op1) s (.reg 0 : Operand .byte) (decide (type ≠ 7))
      ((opA .byte type (s.cpu.getReg .byte 0) (s.immAt .byte 0)).run () s.cpu.eflg) := by
  have himm : Reads s (s.fetched .b8) := Reads.refl.fetched .b8
  unfold Op.opAByteAlImm decodeOpA
  rw [hop]
  refine finishes_aluReg hh himm rfl ?_
  rw [seen_step hh (seen_opDecode _ s), seen_step hh (seen_accImm hh .byte _ s),
    seen_step hh (seen_get8 _ _)]
  rfl

theorem opAWordAxImm_finishes {type : BitVec 3} {op1 : U8} (hop : Op.opAType op1 = type)
    {z : OpSize} {s : St} (hz : s.cpu.mode.opSize true = z) :
    Finishes h (Op.opAWordAxImm op1) s (.reg 0 : Operand z) (decide (type ≠ 7))
      ((opA z type (s.cpu.getReg z 0) (s.immAt z 0)).run () s.cpu.eflg) := by
  have himm : Reads s (s.fetched z.width) := Reads.refl.fetched z.width
  unfold Op.opAWordAxImm decodeOpA
  rw [hop]
  refine finishes_aluReg hh himm rfl ?_
  rw [seen_step hh (seen_opDecode _ s), seen_step hh (seen_getMode s), seen_ite]
  unfold Mode.opSize at hz
  rw [if_pos rfl] at hz
  cases hdata : s.cpu.mode.data32 with
  | true =>
    rw [hdata, if_pos rfl] at hz
    subst hz
    rw [if_pos rfl, seen_step hh (seen_accImm hh .long _ s), seen_step hh (seen_getGen _ _)]
    rfl
  | false =>
    rw [hdata, if_neg Bool.false_ne_true] at hz
    subst hz
    rw [if_neg Bool.false_ne_true, seen_step hh (seen_accImm hh .word _ s),
      seen_step hh (seen_get16 _ _)]
    rfl

/-- An immediate behind `n` bytes, of the operand's size or a sign-extended byte. -/
structure Immediate (h : Host) (imm : (z : OpSize) → Emu (BitVec z.bits)) (z : OpSize)
    (val : St → Nat → BitVec z.bits) : Prop where
  seen : ∃ width, ∀ s t n, Reads s t → t.cpu.eip = s.cpu.advance n →
    X86Emu.seen h (imm z) t = (val s n, (t.fetched width).view)

theorem fetchImm_immediate (z : OpSize) : Immediate h fetchImm z (fun s n => s.immAt z n) := by
  refine ⟨z.width, fun s t n hst heip => ?_⟩
  rw [seen_fetchImm hh, hst.code, heip]
  rfl

theorem fetchImmSigned_immediate (z : OpSize) :
    Immediate h fetchImmSigned z (fun s n => s.imm8At z n) := by
  refine ⟨.b8, fun s t n hst heip => ?_⟩
  rw [seen_fetchImmSigned hh, hst.code, heip]
  rfl

theorem opcARmImm_finishes {wide : Bool} {z : OpSize} {s : St} (hz : s.cpu.mode.opSize wide = z)
    {imm : (z : OpSize) → Emu (BitVec z.bits)} {val : St → Nat → BitVec z.bits}
    (himm : Immediate h imm z val) :
    Finishes h (Op.opcARmImm wide imm) s (s.rm z) (decide (s.modrm.regh ≠ 7))
      ((opA z s.modrm.regh ((s.rm z).val s) (val s s.rmLength)).run () s.cpu.eflg) := by
  have hone : Reads s (s.fetched .b8) := Reads.refl.fetched .b8
  obtain ⟨width, hval⟩ := himm.seen
  unfold Op.opcARmImm decodeOpA St.rm
  split
  · next hmod =>
    have hlen : s.rmLength = 1 := if_pos hmod
    have himm : Reads s ((s.fetched .b8).fetched width) := hone.fetched width
    refine finishes_aluRegKeep hh himm ?_
    rw [seen_step hh (seen_modrm hh s), seen_step hh (seen_opDecode _ _),
      seen_step hh (seen_opSizeEq ((hone.opSize wide).trans hz)), seen_ite, if_pos hmod,
      seen_step hh (seen_decodeReg z _ _), seen_step hh (seen_opDecode _ _),
      seen_step hh (hval s _ 1 hone rfl), seen_step hh (seen_getReg z _ _), himm.getReg, hlen]
    rfl
  · next hmod =>
    obtain ⟨hload, hseg⟩ := rmLoaded_reads s z
    have heip : (s.rmFetched.loaded z.width s.rmSeg s.rmAddress).cpu.eip =
        s.cpu.advance s.rmLength := by
      rw [loaded_cpu, rmFetched_eip hmod]
    refine finishes_aluMem hh (hload.fetched width) hseg ?_
    rw [seen_step hh (seen_modrm hh s), seen_step hh (seen_opDecode _ _),
      seen_step hh (seen_opSizeEq ((hone.opSize wide).trans hz)), seen_ite, if_neg hmod,
      seen_step hh (seen_opDecode _ _), seen_step hh (seen_rmAddress hh hmod),
      seen_step hh (seen_opDecode _ _), seen_step hh (seen_fetchDataSize hh z _ _),
      rmFetched_dataSeg, seen_step hh (hval s _ _ hload heip), (rmFetched_reads s).dataVal]
    rfl

/-! ## Increment, decrement and shifts -/

/-- A result that is written to a register. -/
theorem finishes_reg {x : Emu Unit} {s u : St} (hu : Reads s u) {z : OpSize} {r : BitVec 3}
    {op : FlagOp (BitVec z.bits)}
    (hx : seen h x s = seen h (do setReg z r (← flags op)) u) :
    Finishes h x s (.reg r) true (op.run () s.cpu.eflg) := by
  refine ⟨u, hu, ?_⟩
  rw [hx, seen_step hh (seen_flags _ u), seen_setReg, ← hu.eflg]
  rfl

/-- A result that is written to memory. -/
theorem finishes_mem {x : Emu Unit} {s u : St} (hu : Reads s u) {z : OpSize}
    {op : FlagOp (BitVec z.bits)} {seg : SegReg} {addr : U32} (hseg : u.cpu.dataSeg = seg)
    (hx : seen h x s = seen h (do storeDataSize z addr (← flags op)) u) :
    Finishes h x s (.mem seg addr : Operand z) true (op.run () s.cpu.eflg) := by
  refine ⟨u, hu, ?_⟩
  rw [hx, seen_step hh (seen_flags _ u), seen_storeDataSize hh, ← hu.eflg]
  subst hseg
  rfl

/-- `inc` and `dec` -/
def stepSize (down : Bool) (z : OpSize) : BitVec z.bits → FlagOp (BitVec z.bits) :=
  if down then decSize z else incSize z

theorem stepReg_finishes {op32 : U32 → FlagOp U32} {op16 : U16 → FlagOp U16} (down : Bool)
    (hop : op32 = stepSize down .long ∧ op16 = stepSize down .word) (text32 text16 : String)
    (r : BitVec 3) {z : OpSize} {s : St} (hz : s.cpu.mode.opSize true = z) :
    Finishes h (Op.stepReg op32 op16 text32 text16 (Reg.ofBits r)) s (.reg r : Operand z) true
      ((stepSize down z (s.cpu.getReg z r)).run () s.cpu.eflg) := by
  obtain ⟨rfl, rfl⟩ := hop
  unfold Op.stepReg
  refine finishes_reg hh .refl ?_
  rw [seen_step hh (seen_getMode s), seen_ite]
  unfold Mode.opSize at hz
  rw [if_pos rfl] at hz
  cases hdata : s.cpu.mode.data32 with
  | true =>
    rw [hdata, if_pos rfl] at hz
    subst hz
    rw [if_pos rfl, seen_step hh (seen_opDecode _ s), seen_step hh (seen_getGen _ s)]
    rfl
  | false =>
    rw [hdata, if_neg Bool.false_ne_true] at hz
    subst hz
    rw [if_neg Bool.false_ne_true, seen_step hh (seen_opDecode _ s), seen_step hh (seen_get16 _ s)]
    rfl

/-- An operand of `mod` and `rm` is read, changed and written back: `ureg` is the state before the
register form computes, `umem` the one before the memory form does. -/
theorem finishes_rm {x : Emu Unit} {s ureg umem : St} {z : OpSize}
    (op : BitVec z.bits → FlagOp (BitVec z.bits))
    (hureg : Reads s ureg) (humem : Reads s umem) (hseg : umem.cpu.dataSeg = s.rmSeg)
    (hreg : s.modrm.mod = 3 → seen h x s = seen h (do
      setReg z s.modrm.regl (← flags (op (s.cpu.getReg z s.modrm.regl)))) ureg)
    (hmem : s.modrm.mod ≠ 3 → seen h x s = seen h (do
      storeDataSize z s.rmAddress
        (← flags (op ((s.dataVal z.width s.rmSeg s.rmAddress).setWidth z.bits)))) umem) :
    Finishes h x s (s.rm z) true ((op ((s.rm z).val s)).run () s.cpu.eflg) := by
  unfold St.rm
  split
  · next hmod => exact finishes_reg hh hureg (hreg hmod)
  · next hmod => exact finishes_mem hh humem hseg (hmem hmod)

theorem opcFeByteRm_finishes (op1 : U8) (down : Bool) {s : St}
    (hreg : s.modrm.regh = if down then 1 else 0) :
    Finishes h (Op.opcFeByteRm op1) s (s.rm .byte) true
      ((stepSize down .byte ((s.rm .byte).val s)).run () s.cpu.eflg) := by
  have hone : Reads s (s.fetched .b8) := Reads.refl.fetched .b8
  obtain ⟨hload, hseg⟩ := rmLoaded_reads s .byte
  have hstep : seen h (Op.opcFeByteRm op1) s =
      seen h (Op.stepByteRm (stepSize down .byte) s.modrm) (s.fetched .b8) := by
    unfold Op.opcFeByteRm
    rw [seen_step hh (seen_modrm hh s), hreg]
    cases down <;> exact seen_step hh (seen_opDecode _ _)
  refine finishes_rm hh _ hone hload hseg (fun hmod => ?_) (fun hmod => ?_)
  · rw [hstep]
    unfold Op.stepByteRm
    rw [seen_ite, if_pos hmod, seen_step hh (seen_decodeReg .byte _ _),
      seen_step hh (seen_getReg .byte _ _), hone.getReg]
  · rw [hstep]
    unfold Op.stepByteRm
    rw [seen_ite, if_neg hmod, seen_step hh (seen_opDecode _ _),
      seen_step hh (seen_rmAddress hh hmod)]
    refine (seen_step hh (seen_fetchDataSize hh .byte _ _)).trans ?_
    rw [rmFetched_dataSeg, (rmFetched_reads s).dataVal]
    rfl

theorem opcFfWordRm_finishes (op1 : U8) (down : Bool) {z : OpSize} {s : St}
    (hz : s.cpu.mode.opSize true = z) (hreg : s.modrm.regh = if down then 1 else 0) :
    Finishes h (Op.opcFfWordRm op1) s (s.rm z) true
      ((stepSize down z ((s.rm z).val s)).run () s.cpu.eflg) := by
  have hone : Reads s (s.fetched .b8) := Reads.refl.fetched .b8
  obtain ⟨hload, hseg⟩ := rmLoaded_reads s z
  have hstep : seen h (Op.opcFfWordRm op1) s =
      seen h (Op.stepWordRm (stepSize down) s.modrm) (s.fetched .b8) := by
    unfold Op.opcFfWordRm
    rw [seen_step hh (seen_modrm hh s), hreg]
    cases down <;> exact seen_step hh (seen_opDecode _ _)
  refine finishes_rm hh _ hone hload hseg (fun hmod => ?_) (fun hmod => ?_)
  · rw [hstep]
    unfold Op.stepWordRm dataSize
    rw [seen_step hh (seen_opSizeEq ((hone.opSize true).trans hz)), seen_ite, if_pos hmod,
      seen_step hh (seen_decodeReg z _ _), seen_step hh (seen_getReg z _ _), hone.getReg]
  · rw [hstep]
    unfold Op.stepWordRm dataSize
    rw [seen_step hh (seen_opSizeEq ((hone.opSize true).trans hz)), seen_ite, if_neg hmod,
      seen_step hh (seen_opDecode _ _), seen_step hh (seen_rmAddress hh hmod),
      seen_step hh (seen_fetchDataSize hh z _ _), rmFetched_dataSeg, (rmFetched_reads s).dataVal]

/-- A shift by `n`; `count` gives the count without or with a byte immediate. -/
theorem shiftRm_finishes {wide : Bool} {z : OpSize} {s : St} (hz : s.cpu.mode.opSize wide = z)
    {n : U8} (imm : Bool) (text : String) {count : Emu U8}
    (hcount : ∀ t, Reads s t → t.cpu.eip = s.cpu.advance s.rmLength →
      seen h count t = (n, (if imm then t.fetched .b8 else t).view)) {x : Emu Unit}
    (hx : seen h x s = seen h (Op.shiftRm wide s.modrm text count) (s.fetched .b8)) :
    Finishes h x s (s.rm z) true
      ((opB z s.modrm.regh ((s.rm z).val s) n).run () s.cpu.eflg) := by
  have himm : ∀ t, Reads s t → Reads s (if imm then t.fetched .b8 else t) := by
    intro t ht
    split
    · exact ht.fetched .b8
    · exact ht
  have hone : Reads s (s.fetched .b8) := Reads.refl.fetched .b8
  obtain ⟨hload, hseg⟩ := rmLoaded_reads s z
  refine finishes_rm hh (fun v => opB z s.modrm.regh v n) (himm _ hone) (himm _ hload) ?_
    (fun hmod => ?_) (fun hmod => ?_)
  · split
    · exact hseg
    · exact hseg
  · have heip : (s.fetched .b8).cpu.eip = s.cpu.advance s.rmLength := by
      rw [St.rmLength, if_pos hmod]
      rfl
    rw [hx]
    unfold Op.shiftRm
    rw [seen_step hh (seen_opSizeEq ((hone.opSize wide).trans hz)), seen_ite, if_pos hmod,
      seen_step hh (seen_decodeReg z _ _), seen_step hh (seen_opDecode _ _),
      seen_step hh (hcount _ hone heip), seen_step hh (seen_getReg z _ _),
      (himm _ hone).getReg]
  · have heip : (s.rmFetched.loaded z.width s.rmSeg s.rmAddress).cpu.eip =
        s.cpu.advance s.rmLength := by
      rw [loaded_cpu, rmFetched_eip hmod]
    rw [hx]
    unfold Op.shiftRm
    rw [seen_step hh (seen_opSizeEq ((hone.opSize wide).trans hz)), seen_ite, if_neg hmod,
      seen_step hh (seen_opDecode _ _), seen_step hh (seen_rmAddress hh hmod),
      seen_step hh (seen_opDecode _ _), seen_step hh (seen_fetchDataSize hh z _ _),
      rmFetched_dataSeg, seen_step hh (hcount _ hload heip), (rmFetched_reads s).dataVal]

/-- A byte immediate behind the operand. -/
theorem seen_countImm {s t : St} (ht : Reads s t) (heip : t.cpu.eip = s.cpu.advance s.rmLength) :
    seen h fetchImmByte t = (s.immAt .byte s.rmLength, (t.fetched .b8).view) := by
  refine (seen_fetchImm hh .byte t).trans ?_
  rw [ht.code, heip]
  rfl

/-- The count is the immediate. -/
theorem shiftRmImm_finishes {wide : Bool} {z : OpSize} {s : St}
    (hz : s.cpu.mode.opSize wide = z) :
    Finishes h (Op.shiftRmImm wide) s (s.rm z) true
      ((opB z s.modrm.regh ((s.rm z).val s) (s.immAt .byte s.rmLength)).run () s.cpu.eflg) := by
  refine shiftRm_finishes hh hz true "," (fun t ht heip => seen_countImm hh ht heip) ?_
  unfold Op.shiftRmImm decodeOpB
  rw [seen_step hh (seen_modrm hh s), seen_step hh (seen_opDecode _ _)]

/-- The count is `CL`. -/
theorem shiftRmCl_finishes {wide : Bool} {z : OpSize} {s : St}
    (hz : s.cpu.mode.opSize wide = z) :
    Finishes h (Op.shiftRmCl wide) s (s.rm z) true
      ((opB z s.modrm.regh ((s.rm z).val s) (s.cpu.get8 .cl)).run () s.cpu.eflg) := by
  refine shiftRm_finishes hh hz false ",cl" (fun t _ _ => seen_pure (s.cpu.get8 .cl) t) ?_
  unfold Op.shiftRmCl decodeOpB
  rw [seen_step hh (seen_modrm hh s), seen_step hh (seen_opDecode _ _),
    seen_step hh (seen_get8 _ _)]
  rfl

section ShiftDouble

variable {z : OpSize} {s : St} (hz : s.cpu.mode.opSize true = z) (text : String)
  (op : (z : OpSize) → BitVec z.bits → BitVec z.bits → U8 → FlagOp (BitVec z.bits))

include hz

/-- The count is the immediate, which is fetched before the operand in memory is read. -/
theorem shiftDoubleImm_finishes :
    Finishes h (Op2.shiftDoubleImm text op) s (s.rm z) true
      ((op z ((s.rm z).val s) (s.cpu.getReg z s.modrm.regh) (s.immAt .byte s.rmLength)).run ()
        s.cpu.eflg) := by
  have hone : Reads s (s.fetched .b8) := Reads.refl.fetched .b8
  have hreg : Reads s ((s.fetched .b8).fetched .b8) := hone.fetched .b8
  have hrm := rmFetched_reads s
  have hmem : Reads s ((s.rmFetched.fetched .b8).loaded z.width s.rmSeg s.rmAddress) :=
    (hrm.fetched .b8).loaded z.width s.rmSeg s.rmAddress
  have hseg : ((s.rmFetched.fetched .b8).loaded z.width s.rmSeg s.rmAddress).cpu.dataSeg =
      s.rmSeg := by
    rw [loaded_cpu, fetched_dataSeg, rmFetched_dataSeg]
  refine finishes_rm hh (fun v => op z v (s.cpu.getReg z s.modrm.regh) (s.immAt .byte s.rmLength))
    hreg hmem hseg (fun hmod => ?_) (fun hmod => ?_)
  · have heip : (s.fetched .b8).cpu.eip = s.cpu.advance s.rmLength := by
      rw [St.rmLength, if_pos hmod]
      rfl
    unfold Op2.shiftDoubleImm dataSize
    rw [seen_step hh (seen_opDecode _ s), seen_step hh (seen_modrm hh s), seen_ite, if_pos hmod,
      seen_step hh (seen_opSizeEq ((hone.opSize true).trans hz)),
      seen_step hh (seen_decodeReg z _ _), seen_step hh (seen_opDecode _ _),
      seen_step hh (seen_decodeReg z _ _), seen_step hh (seen_opDecode _ _),
      seen_step hh (seen_countImm hh hone heip), seen_step hh (seen_getReg z _ _),
      seen_step hh (seen_getReg z _ _), hreg.getReg, hreg.getReg]
  · have heip : s.rmFetched.cpu.eip = s.cpu.advance s.rmLength := rmFetched_eip hmod
    unfold Op2.shiftDoubleImm dataSize
    rw [seen_step hh (seen_opDecode _ s), seen_step hh (seen_modrm hh s), seen_ite, if_neg hmod,
      seen_step hh (seen_rmAddress hh hmod), seen_step hh (seen_opDecode _ _),
      seen_step hh (seen_opSizeEq ((hrm.opSize true).trans hz)),
      seen_step hh (seen_decodeReg z _ _), seen_step hh (seen_opDecode _ _),
      seen_step hh (seen_countImm hh hrm heip), seen_step hh (seen_fetchDataSize hh z _ _),
      fetched_dataSeg, rmFetched_dataSeg, seen_step hh (seen_getReg z _ _), hmem.getReg,
      (hrm.fetched .b8).dataVal]

/-- The count is `CL`. -/
theorem shiftDoubleCl_finishes :
    Finishes h (Op2.shiftDoubleCl text op) s (s.rm z) true
      ((op z ((s.rm z).val s) (s.cpu.getReg z s.modrm.regh) (s.cpu.get8 .cl)).run ()
        s.cpu.eflg) := by
  have hone : Reads s (s.fetched .b8) := Reads.refl.fetched .b8
  have hrm := rmFetched_reads s
  obtain ⟨hload, hseg⟩ := rmLoaded_reads s z
  have hcl : ∀ t, Reads s t → t.cpu.get8 .cl = s.cpu.get8 .cl := fun t ht => ht.getReg .byte 1
  refine finishes_rm hh (fun v => op z v (s.cpu.getReg z s.modrm.regh) (s.cpu.get8 .cl))
    hone hload hseg (fun hmod => ?_) (fun hmod => ?_)
  · unfold Op2.shiftDoubleCl dataSize
    rw [seen_step hh (seen_opDecode _ s), seen_step hh (seen_modrm hh s), seen_ite, if_pos hmod,
      seen_step hh (seen_opSizeEq ((hone.opSize true).trans hz)),
      seen_step hh (seen_decodeReg z _ _), seen_step hh (seen_opDecode _ _),
      seen_step hh (seen_decodeReg z _ _), seen_step hh (seen_opDecode _ _),
      seen_step hh (seen_get8 _ _), seen_step hh (seen_getReg z _ _),
      seen_step hh (seen_getReg z _ _), hone.getReg, hone.getReg, hcl _ hone]
  · unfold Op2.shiftDoubleCl dataSize
    rw [seen_step hh (seen_opDecode _ s), seen_step hh (seen_modrm hh s), seen_ite, if_neg hmod,
      seen_step hh (seen_rmAddress hh hmod), seen_step hh (seen_opDecode _ _),
      seen_step hh (seen_opSizeEq ((hrm.opSize true).trans hz)),
      seen_step hh (seen_decodeReg z _ _), seen_step hh (seen_opDecode _ _),
      seen_step hh (seen_fetchDataSize hh z _ _), rmFetched_dataSeg,
      seen_step hh (seen_get8 _ _), seen_step hh (seen_getReg z _ _), hload.getReg,
      hcl _ hload, hrm.dataVal]

end ShiftDouble

/-! ## Signed multiplication -/

omit hh in
/-- A product with the flags in `flags`: the low half is in register `r`, and for the form with one
operand the high half is in `DX` or `EDX`. -/
def St.multiplied (u : St) {z : OpSize} (r : BitVec 3) (one : Bool) (lo hi : BitVec z.bits)
    (flags : U32) : St :=
  let t := u.put (·.setReg z r lo)
  (if one then t.put (·.setReg z 2 hi) else t).put fun c => { c with eflg := flags }

/-- From `s` the program reads its operands and stores a product. -/
def Multiplies (h : Host) (x : Emu Unit) (s : St) {z : OpSize} (r : BitVec 3) (one : Bool)
    (lo hi : BitVec z.bits) (flags : U32) : Prop :=
  ∃ u, Reads s u ∧ (seen h x s).2 = (u.multiplied r one lo hi flags).view

/-- The halves of a product and whether the high half is needed. -/
def imulParts {w : Nat} (d s : BitVec w) : BitVec w × BitVec w × Bool :=
  ((imulDirect d s).1.extractLsb' 0 w, (imulDirect d s).1.extractLsb' w w, (imulDirect d s).2)

/-- The flags of a product. -/
def imulFlagsOf {w : Nat} (d s : BitVec w) (flags : U32) : U32 :=
  ((Op.imulFlags (imulParts d s).2.2 (imulParts d s).1 (imulParts d s).2.1).run () flags).2

theorem seen_imulStore (z : OpSize) (r : BitVec 3) (d s : BitVec z.bits) (u : St) :
    seen h (Op.imulStore z r d s) u = ((), (u.multiplied r false (imulParts d s).1
      (imulParts d s).2.1 (imulFlagsOf d s u.cpu.eflg)).view) := by
  have hset : (u.cpu.setReg z r (imulParts d s).1).eflg = u.cpu.eflg := by cases z <;> rfl
  unfold Op.imulStore
  refine (seen_step hh (seen_setReg z r _ u)).trans ?_
  rw [seen_flags, ← hset]
  rfl

omit hh in
theorem imulFlags_comm {w : Nat} (overflow : Bool) (lo hi : BitVec w) (fl : U32) :
    ((setFlagsForMul (lo ||| hi = 0) lo).run () ((setMulOverflow overflow).run () fl).2).2 =
      ((Op.imulFlags overflow lo hi).run () fl).2 := by
  rw [BitVec.or_comm]
  rfl

/-- The product of words is in `DX:AX`. -/
theorem seen_productWord (lo hi : U16) (overflow : Bool) (u : St) :
    seen h (do
      set16 .ax lo
      set16 .dx hi
      flags (setMulOverflow overflow)
      flags (setFlagsForMul ((← get16 .ax) ||| (← get16 .dx) = 0) (← get16 .ax))) u =
      ((), (u.multiplied (z := .word) 0 true lo hi
        ((Op.imulFlags overflow lo hi).run () u.cpu.eflg).2).view) := by
  have hax : ((u.cpu.set16 .ax lo).set16 .dx hi).get16 .ax = lo := setWidth_setLo16 _ _
  have hdx : ((u.cpu.set16 .ax lo).set16 .dx hi).get16 .dx = hi := setWidth_setLo16 _ _
  rw [seen_step hh (seen_set16 _ _ u), seen_step hh (seen_set16 _ _ _),
    seen_step hh (seen_flags _ _), seen_step hh (seen_get16 _ _), seen_step hh (seen_get16 _ _),
    seen_step hh (seen_get16 _ _), seen_flags]
  show ((), (St.put _ fun c => { c with eflg := ((setFlagsForMul
    (((u.cpu.set16 .ax lo).set16 .dx hi).get16 .ax ||| ((u.cpu.set16 .ax lo).set16 .dx hi).get16 .dx
      = 0) (((u.cpu.set16 .ax lo).set16 .dx hi).get16 .ax)).run () c.eflg).2 }).view) = _
  rw [hax, hdx, ← imulFlags_comm]
  rfl

/-- The product of dwords is in `EDX:EAX`. -/
theorem seen_productLong (lo hi : U32) (overflow : Bool) (u : St) :
    seen h (do
      setGen .ax lo
      setGen .dx hi
      flags (setMulOverflow overflow)
      flags (setFlagsForMul ((← getGen .ax) ||| (← getGen .dx) = 0) (← getGen .ax))) u =
      ((), (u.multiplied (z := .long) 0 true lo hi
        ((Op.imulFlags overflow lo hi).run () u.cpu.eflg).2).view) := by
  rw [seen_step hh (seen_setGen _ _ u), seen_step hh (seen_setGen _ _ _),
    seen_step hh (seen_flags _ _), seen_step hh (seen_getGen _ _), seen_step hh (seen_getGen _ _),
    seen_step hh (seen_getGen _ _), seen_flags, ← imulFlags_comm]
  rfl

/-- The form with one operand, in the accumulator. -/
theorem seen_imulSize {z : OpSize} (hz : z ≠ .byte) (src : BitVec z.bits) (u : St) :
    seen h (imulSize z src) u = ((), (u.multiplied 0 true (imulParts (u.cpu.getReg z 0) src).1
      (imulParts (u.cpu.getReg z 0) src).2.1
      (imulFlagsOf (u.cpu.getReg z 0) src u.cpu.eflg)).view) := by
  cases z with
  | byte => exact absurd rfl hz
  | word =>
    show seen h (imulWord src) u = _
    unfold imulWord
    rw [seen_step hh (seen_get16 _ u)]
    exact seen_productWord hh _ _ _ u
  | long =>
    show seen h (imulLong src) u = _
    unfold imulLong
    rw [seen_step hh (seen_getGen _ u)]
    exact seen_productLong hh _ _ _ u

theorem multiplies_store {x : Emu Unit} {s u : St} (hu : Reads s u) {z : OpSize} {r : BitVec 3}
    {d src : BitVec z.bits} (hx : seen h x s = seen h (Op.imulStore z r d src) u) :
    Multiplies h x s r false (imulParts d src).1 (imulParts d src).2.1
      (imulFlagsOf d src s.cpu.eflg) := by
  refine ⟨u, hu, ?_⟩
  rw [hx, seen_imulStore hh, hu.eflg]

/-- The upper half of group F6 and F7 reads its operand and uses the value. -/
theorem groupRm_uses {wide : Bool} {z : OpSize} {s : St} (hz : s.cpu.mode.opSize wide = z)
    (hreg : 4 ≤ s.modrm.regh.toNat) : ∃ u, Reads s u ∧
      seen h (Op.groupRm wide) s = seen h (Op.groupUse z s.modrm.regh ((s.rm z).val s)) u := by
  have hone : Reads s (s.fetched .b8) := Reads.refl.fetched .b8
  have hupper : ∃ n, s.modrm.regh.toNat = n + 4 := ⟨_, (Nat.sub_add_cancel hreg).symm⟩
  obtain ⟨n, hn⟩ := hupper
  unfold St.rm
  split
  · next hmod =>
    refine ⟨_, hone, ?_⟩
    unfold Op.groupRm Op.groupReg
    rw [seen_step hh (seen_modrm hh s), seen_step hh (seen_opDecode _ _),
      seen_step hh (seen_opSizeEq ((hone.opSize wide).trans hz)), seen_ite, if_pos hmod,
      seen_step hh (seen_decodeReg z _ _), hn]
    show seen h (do Op.groupUse z s.modrm.regh (← getReg z s.modrm.regl)) _ = _
    rw [seen_step hh (seen_getReg z _ _), hone.getReg]
    rfl
  · next hmod =>
    obtain ⟨hload, -⟩ := rmLoaded_reads s z
    refine ⟨_, hload, ?_⟩
    unfold Op.groupRm Op.groupMem
    rw [seen_step hh (seen_modrm hh s), seen_step hh (seen_opDecode _ _),
      seen_step hh (seen_opSizeEq ((hone.opSize wide).trans hz)), seen_ite, if_neg hmod,
      seen_step hh (seen_opDecode _ _), seen_step hh (seen_rmAddress hh hmod), hn]
    show seen h (do Op.groupUse z s.modrm.regh (← fetchDataSize z s.rmAddress)) _ = _
    rw [seen_step hh (seen_fetchDataSize hh z _ _), rmFetched_dataSeg,
      (rmFetched_reads s).dataVal]
    rfl

theorem groupRm_multiplies {z : OpSize} {s : St} (hz : s.cpu.mode.opSize true = z)
    (hreg : s.modrm.regh = 5) :
    let d := s.cpu.getReg z 0
    let src := (s.rm z).val s
    Multiplies h (Op.groupRm true) s 0 true (imulParts d src).1 (imulParts d src).2.1
      (imulFlagsOf d src s.cpu.eflg) := by
  have hbyte : z ≠ .byte := by
    subst hz
    unfold Mode.opSize
    cases s.cpu.mode.data32 <;> decide
  obtain ⟨u, hu, hx⟩ := groupRm_uses hh hz (by rw [hreg]; decide)
  intro d src
  refine ⟨u, hu, ?_⟩
  rw [hx, hreg]
  show (seen h (imulSize z src) u).2 = _
  rw [seen_imulSize hh hbyte, hu.eflg, hu.getReg]

theorem imulRRm_multiplies (op2 : U8) {z : OpSize} {s : St} (hz : s.cpu.mode.opSize true = z) :
    let d := s.cpu.getReg z s.modrm.regh
    let src := (s.rm z).val s
    Multiplies h (Op2.imulRRm op2) s s.modrm.regh false (imulParts d src).1 (imulParts d src).2.1
      (imulFlagsOf d src s.cpu.eflg) := by
  have hone : Reads s (s.fetched .b8) := Reads.refl.fetched .b8
  intro d src
  unfold src St.rm Op2.imulRRm dataSize
  split
  · next hmod =>
    refine multiplies_store hh hone ?_
    rw [seen_step hh (seen_opDecode _ s), seen_step hh (seen_modrm hh s),
      seen_step hh (seen_opSizeEq ((hone.opSize true).trans hz)),
      seen_step hh (seen_decodeReg z _ _), seen_step hh (seen_opDecode _ _), seen_ite, if_pos hmod,
      seen_step hh (seen_decodeReg z _ _), seen_step hh (seen_getReg z _ _),
      seen_step hh (seen_getReg z _ _), hone.getReg, hone.getReg]
    rfl
  · next hmod =>
    obtain ⟨hload, -⟩ := rmLoaded_reads s z
    refine multiplies_store hh hload ?_
    rw [seen_step hh (seen_opDecode _ s), seen_step hh (seen_modrm hh s),
      seen_step hh (seen_opSizeEq ((hone.opSize true).trans hz)),
      seen_step hh (seen_decodeReg z _ _), seen_step hh (seen_opDecode _ _), seen_ite,
      if_neg hmod, seen_step hh (seen_rmAddress hh hmod),
      seen_step hh (seen_fetchDataSize hh z _ _), rmFetched_dataSeg,
      seen_step hh (seen_getReg z _ _), hload.getReg, (rmFetched_reads s).dataVal]
    rfl

theorem imulWordImmediate_immediate (ext : U16 → U32) (z : OpSize) :
    Immediate h (Op.imulWordImmediate ext) z (fun s n => s.immAt z n) := by
  have hsize : ∀ t, seen h (Op.imulWordImmediate ext z) t =
      ((t.code z.width t.cpu.eip).setWidth z.bits, (t.fetched z.width).view) := by
    intro t
    rw [← seen_fetchSize hh z t]
    cases z with
    | byte => rfl
    | word =>
      unfold Op.imulWordImmediate
      rw [seen_step hh (seen_fetchWord hh t), seen_step hh (seen_opDecode _ _),
        seen_step hh (seen_decode _ _), seen_pure]
      exact (seen_fetchWord hh t).symm
    | long =>
      unfold Op.imulWordImmediate
      rw [seen_step hh (seen_fetchLong hh t), seen_step hh (seen_opDecode _ _),
        seen_step hh (seen_decode _ _), seen_pure]
      exact (seen_fetchLong hh t).symm
  refine ⟨z.width, fun s t n hst heip => ?_⟩
  rw [hsize, hst.code, heip]
  rfl

theorem imulByteImmediate_immediate (z : OpSize) :
    Immediate h Op.imulByteImmediate z (fun s n => s.imm8At z n) := by
  refine ⟨.b8, fun s t n hst heip => ?_⟩
  unfold Op.imulByteImmediate
  rw [seen_step hh (seen_fetchByte hh t), seen_step hh (seen_opDecode _ _),
    seen_step hh (seen_decode _ _), seen_pure, hst.code, heip]
  rfl

theorem imulImm_multiplies {z : OpSize} {s : St} (hz : s.cpu.mode.opSize true = z)
    {immReg immMem : (z : OpSize) → Emu (BitVec z.bits)} {val : St → Nat → BitVec z.bits}
    (hreg : Immediate h immReg z val) (hmem : Immediate h immMem z val) :
    let d := (s.rm z).val s
    let src := val s s.rmLength
    Multiplies h (Op.imulImm immReg immMem) s s.modrm.regh false (imulParts d src).1
      (imulParts d src).2.1 (imulFlagsOf d src s.cpu.eflg) := by
  have hone : Reads s (s.fetched .b8) := Reads.refl.fetched .b8
  obtain ⟨wreg, hvalReg⟩ := hreg.seen
  obtain ⟨wmem, hvalMem⟩ := hmem.seen
  intro d src
  unfold d St.rm Op.imulImm dataSize
  split
  · next hmod =>
    have hlen : s.rmLength = 1 := if_pos hmod
    have himm : Reads s ((s.fetched .b8).fetched wreg) := hone.fetched wreg
    refine multiplies_store hh himm ?_
    rw [seen_step hh (seen_opDecode _ s), seen_step hh (seen_modrm hh s),
      seen_step hh (seen_opSizeEq ((hone.opSize true).trans hz)),
      seen_step hh (seen_decodeReg z _ _), seen_step hh (seen_opDecode _ _), seen_ite, if_pos hmod,
      seen_step hh (seen_decodeReg z _ _), seen_step hh (hvalReg s _ 1 hone rfl),
      seen_step hh (seen_getReg z _ _), himm.getReg, ← hlen]
    rfl
  · next hmod =>
    obtain ⟨hload, -⟩ := rmLoaded_reads s z
    have heip : (s.rmFetched.loaded z.width s.rmSeg s.rmAddress).cpu.eip =
        s.cpu.advance s.rmLength := by
      rw [loaded_cpu, rmFetched_eip hmod]
    refine multiplies_store hh (hload.fetched wmem) ?_
    rw [seen_step hh (seen_opDecode _ s), seen_step hh (seen_modrm hh s),
      seen_step hh (seen_opSizeEq ((hone.opSize true).trans hz)),
      seen_step hh (seen_decodeReg z _ _), seen_step hh (seen_opDecode _ _), seen_ite,
      if_neg hmod, seen_step hh (seen_rmAddress hh hmod),
      seen_step hh (seen_fetchDataSize hh z _ _), rmFetched_dataSeg,
      seen_step hh (hvalMem s _ _ hload heip), (rmFetched_reads s).dataVal]
    rfl

end

end X86Emu
