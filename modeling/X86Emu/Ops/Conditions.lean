import X86Emu.Ops.Calls
import X86Emu.Ops.Counters

/-!
# Conditions of jumps, byte sets and moves

The conditions are coded twice: `eval_condition` with truth values, for `jcc` and `setcc`, and
`conditional_move` with the masked flags themselves. The two differ on the signed conditions in
the states with `SF` and `OF` set, as `ACCESS_FLAG(F_SF) == ACCESS_FLAG(F_OF)` compares 0x80 with
0x800 there.
-/

namespace X86Emu

open Lib Op Op2

/-! ## Masked flags -/

theorem rawFlag_eq (c : Cpu) (f : Flag) : rawFlag c f = if c.flag f then f.mask else 0 := by
  unfold rawFlag Flag.mask Cpu.flag
  rw [BitVec.and_twoPow]
  rfl

theorem Flag.mask_ne_zero (f : Flag) : f.mask ≠ 0#32 := by
  cases f <;> decide

theorem decide_rawFlag_eq_zero (c : Cpu) (f : Flag) :
    decide (rawFlag c f = 0#32) = !c.flag f := by
  rw [rawFlag_eq]
  cases c.flag f with
  | false => rfl
  | true => exact decide_eq_false f.mask_ne_zero

theorem decide_rawFlag_ne_zero (c : Cpu) (f : Flag) :
    decide (rawFlag c f ≠ 0#32) = c.flag f := by
  rw [decide_not, decide_rawFlag_eq_zero, Bool.not_not]

/-- The masks of `SF` and `OF` differ, so the masked flags are equal only when both are clear. -/
theorem decide_rawFlag_sf_eq_of (c : Cpu) :
    decide (rawFlag c .sf = rawFlag c .of) = (!c.flag .sf && !c.flag .of) := by
  rw [rawFlag_eq, rawFlag_eq]
  cases c.flag .sf <;> cases c.flag .of <;> decide

/-! ## The two codings -/

/-- The signed conditions `l` and `nl` with `SF` and `OF` set, and `le` and `nle` with `ZF` clear
besides. -/
def signedSlip (c : Cpu) (cc : BitVec 4) : Bool :=
  c.flag .sf && c.flag .of && (cc = 12 || cc = 13 || (cc = 14 || cc = 15) && !c.flag .zf)

/-- `conditional_move` moves when `eval_condition` holds, but for the slip. -/
theorem cmovNoop_eq (c : Cpu) (cc : BitVec 4) :
    (!cmovNoop c cc) = (evalCondition c cc ^^ signedSlip c cc) := by
  have hne : decide (rawFlag c .sf ≠ rawFlag c .of) = (c.flag .sf || c.flag .of) := by
    rw [decide_not, decide_rawFlag_sf_eq_of]
    cases c.flag .sf <;> cases c.flag .of <;> rfl
  unfold cmovNoop
  simp only [BitVec.ofNat_eq_ofNat, decide_rawFlag_eq_zero, decide_rawFlag_ne_zero,
    decide_rawFlag_sf_eq_of, hne]
  unfold evalCondition baseCondition signedSlip
  generalize c.flag .of = of
  generalize c.flag .sf = sf
  generalize c.flag .zf = zf
  generalize c.flag .cf = cf
  generalize c.flag .pf = pf
  revert of sf zf cf pf cc
  decide

/-! ## The four instructions -/

/-- `cmovcc` -/
def cmovCc (cc : BitVec 4) : Emu Unit := handlerAt x86emuOptab2 (4#4 ++ cc) (4#4 ++ cc)

/-- `jcc` with a displacement of one byte. -/
def jccShort (cc : BitVec 4) : Emu Unit := oneByte (7#4 ++ cc)

/-- `jcc` with a displacement of the operand size. -/
def jccNear (cc : BitVec 4) : Emu Unit := handlerAt x86emuOptab2 (8#4 ++ cc) (8#4 ++ cc)

/-- `setcc` -/
def setCc (cc : BitVec 4) : Emu Unit := handlerAt x86emuOptab2 (9#4 ++ cc) (9#4 ++ cc)

/-- Sixteen opcodes in a row with one handler. -/
theorem handlerAt_row {table : List Handler} {f : Handler} {row : BitVec 4}
    (hrow : (table.drop (16 * row.toNat)).take 16 = List.replicate 16 f) (cc : BitVec 4) :
    handlerAt table (row ++ cc) = f := by
  have hop : (row ++ cc).toNat = 16 * row.toNat + cc.toNat := by
    rw [BitVec.toNat_append, ← Nat.shiftLeft_add_eq_or_of_lt cc.isLt, Nat.shiftLeft_eq,
      Nat.mul_comm]
  have hentry : table[16 * row.toNat + cc.toNat]? = some f := by
    rw [← List.getElem?_drop, ← List.getElem?_take_of_lt cc.isLt, hrow,
      List.getElem?_replicate_of_lt cc.isLt]
  unfold handlerAt
  rw [List.getD_eq_getElem?_getD, hop, hentry]
  rfl

theorem cmovCc_eq (cc : BitVec 4) : cmovCc cc = conditionalMove (4#4 ++ cc) :=
  congrFun (handlerAt_row rfl cc) _

theorem jccShort_eq (cc : BitVec 4) : jccShort cc = jumpShortCc (7#4 ++ cc) :=
  congrFun (handlerAt_row rfl cc) _

theorem jccNear_eq (cc : BitVec 4) : jccNear cc = longJump (8#4 ++ cc) :=
  congrFun (handlerAt_row rfl cc) _

theorem setCc_eq (cc : BitVec 4) : setCc cc = setByte (9#4 ++ cc) :=
  congrFun (handlerAt_row rfl cc) _

/-- The low half of the opcode is the condition code. -/
theorem condOp_low (group cc : BitVec 4) : (group ++ cc).setWidth 4 = cc := by
  revert group cc
  decide

theorem evalCondition_congr {c c' : Cpu} (heflg : c'.eflg = c.eflg) (cc : BitVec 4) :
    evalCondition c' cc = evalCondition c cc := by
  unfold evalCondition baseCondition Cpu.flag
  rw [heflg]

theorem cmovNoop_congr {c c' : Cpu} (heflg : c'.eflg = c.eflg) (cc : BitVec 4) :
    cmovNoop c' cc = cmovNoop c cc := by
  unfold cmovNoop rawFlag
  rw [heflg]

/-- The state after the bytes of the operand of `mod` and `rm`. -/
def St.rmDecoded (s : St) : St := if s.modrm.mod = 3 then s.fetched .b8 else s.rmFetched

/-- The state after this operand is read. -/
def St.rmRead (s : St) (z : OpSize) : St :=
  if s.modrm.mod = 3 then s.fetched .b8 else s.rmFetched.loaded z.width s.rmSeg s.rmAddress

/-- The operand is moved to the register. -/
def St.moved (s : St) (z : OpSize) : St :=
  (s.rmRead z).put (·.setReg z s.modrm.regh ((s.rm z).val s))

/-- A displacement is fetched and the jump is taken. -/
def St.jumped (s : St) (width : MemioWidth) (target : U32) : St :=
  (s.fetched width).put fun c => { c with eip := target }

/-- The target of a near jump, at whose displacement the instruction pointer is. -/
def St.nearTarget (s : St) (z : OpSize) : U32 :=
  ((s.cpu.advance z.bytes + (s.immAt z 0).signExtend 32).setWidth z.bits).setWidth 32

section

variable {inp : PortInput} {h : Host} (hh : h.Blind inp)

include hh

/-- `cmovcc` moves but under `noop`. -/
theorem seen_cmovCc (cc : BitVec 4) {z : OpSize} {s : St} (hz : s.cpu.mode.opSize true = z) :
    (seen h (cmovCc cc) s).2 =
      (if !cmovNoop s.cpu cc then s.moved z else s.rmDecoded).view := by
  have hone : Reads s (s.fetched .b8) := Reads.refl.fetched .b8
  rw [cmovCc_eq]
  unfold conditionalMove St.moved St.rmRead St.rmDecoded St.rm
  rw [condOp_low, seen_step hh (seen_opDecode _ s), seen_step hh (seen_modrm hh s),
    seen_step hh (seen_opDecode _ _), seen_step hh (seen_getCpu _),
    cmovNoop_congr hone.eflg, seen_step hh (seen_dataSize _), hone.opSize, hz,
    seen_step hh (seen_decodeReg z _ _), seen_step hh (seen_opDecode _ _), seen_ite]
  by_cases hmod : s.modrm.mod = 3
  · rw [if_pos hmod, if_pos hmod, if_pos hmod, if_pos hmod, seen_step hh (seen_decodeReg z _ _),
      seen_ite, seen_step hh (seen_getReg z _ _), seen_setReg, hone.getReg]
    cases cmovNoop s.cpu cc <;> rfl
  · rw [if_neg hmod, if_neg hmod, if_neg hmod, if_neg hmod,
      seen_step hh (seen_rmAddress hh hmod), seen_ite,
      seen_step hh (seen_fetchDataSize hh z _ _), rmFetched_dataSeg, seen_setReg,
      (rmFetched_reads s).dataVal]
    cases cmovNoop s.cpu cc <;> rfl

theorem seen_jumpIf (cc : BitVec 4) (target : U32) (s : St) (width : MemioWidth) :
    (seen h (jumpIf cc target) (s.fetched width)).2 =
      (if evalCondition s.cpu cc then s.jumped width target else s.fetched width).view := by
  have hcond : evalCondition (s.fetched width).cpu cc = evalCondition s.cpu cc :=
    evalCondition_congr rfl cc
  unfold jumpIf St.jumped
  rw [seen_step hh (seen_getCpu _), seen_ite, seen_setEip, seen_pure, hcond]
  cases evalCondition s.cpu cc <;> rfl

theorem seen_jccShort (cc : BitVec 4) (s : St) : (seen h (jccShort cc) s).2 =
    (if evalCondition s.cpu cc then s.jumped .b8 s.shortTarget else s.fetched .b8).view := by
  rw [jccShort_eq, ← seen_jumpIf hh]
  unfold jumpShortCc decodeCond
  rw [condOp_low, seen_step hh (seen_opDecode _ s), seen_step hh (seen_opDecode _ s),
    seen_step hh (seen_fetchTarget hh s), seen_step hh (seen_decodeAddr hh _ _),
    seen_step hh (seen_cutTarget _ _)]
  rfl

theorem seen_jccNear (cc : BitVec 4) {z : OpSize} {s : St} (hz : s.cpu.mode.opSize true = z) :
    (seen h (jccNear cc) s).2 =
      (if evalCondition s.cpu cc then s.jumped z.width (s.nearTarget z)
        else s.fetched z.width).view := by
  obtain ⟨hnext, hsize⟩ := fetched_next s z
  rw [jccNear_eq, ← seen_jumpIf hh]
  unfold longJump decodeCond
  rw [condOp_low, seen_step hh (seen_opDecode _ s), seen_step hh (seen_opDecode _ s),
    seen_step hh (seen_fetchNearOfs hh hz), seen_step hh (seen_getEip _),
    seen_step hh (seen_truncTarget _ (hsize.trans hz)), seen_step hh (seen_decodeAddr hh _ _),
    hnext]
  rfl

theorem seen_setCc (cc : BitVec 4) (s : St) : (seen h (setCc cc) s).2 =
    (s.rmDecoded.write (s.rm .byte) (if evalCondition s.cpu cc then 1 else 0)).view := by
  have hcond : ∀ {t}, Reads s t →
      setByteValue t.cpu cc = if evalCondition s.cpu cc then 1 else 0 := fun ht => by
    unfold setByteValue
    rw [evalCondition_congr ht.eflg]
  rw [setCc_eq]
  unfold setByte decodeCond St.rmDecoded St.rm
  rw [condOp_low, seen_step hh (seen_opDecode _ s), seen_step hh (seen_opDecode _ s),
    seen_step hh (seen_modrm hh s), seen_ite]
  by_cases hmod : s.modrm.mod = 3
  · have hreg : seen h (decodeRmByteRegister s.modrm.regl) (s.fetched .b8) =
        (Reg8.ofBits s.modrm.regl, (s.fetched .b8).view) := rfl
    rw [if_pos hmod, if_pos hmod, if_pos hmod, seen_step hh hreg, seen_step hh (seen_getCpu _),
      hcond (Reads.refl.fetched .b8)]
    exact congrArg Prod.snd (seen_setReg .byte _ _ _)
  · rw [if_neg hmod, if_neg hmod, if_neg hmod, seen_step hh (seen_rmAddress hh hmod),
      seen_step hh (seen_getCpu _), hcond (rmFetched_reads s)]
    refine (congrArg Prod.snd (seen_storeDataSize hh .byte _ _ _)).trans ?_
    rw [rmFetched_dataSeg]
    rfl

end

/-- In the states with the flags of `c` the instructions with condition code `cc` decide alike:
`cmovcc` moves, the two `jcc` jump and `setcc` stores 1 when `eval_condition` holds; otherwise they
only fetch their bytes, and `setcc` stores 0. -/
structure DecideAlike (h : Host) (c : Cpu) (cc : BitVec 4) : Prop where
  cmov : ∀ s z, s.cpu.eflg = c.eflg → s.cpu.mode.opSize true = z → (seen h (cmovCc cc) s).2 =
    (if evalCondition c cc then s.moved z else s.rmDecoded).view
  short : ∀ s, s.cpu.eflg = c.eflg → (seen h (jccShort cc) s).2 =
    (if evalCondition c cc then s.jumped .b8 s.shortTarget else s.fetched .b8).view
  near : ∀ s z, s.cpu.eflg = c.eflg → s.cpu.mode.opSize true = z → (seen h (jccNear cc) s).2 =
    (if evalCondition c cc then s.jumped z.width (s.nearTarget z) else s.fetched z.width).view
  set : ∀ s, s.cpu.eflg = c.eflg → (seen h (setCc cc) s).2 =
    (s.rmDecoded.write (s.rm .byte) (if evalCondition c cc then 1 else 0)).view

/-- `cmovcc ax,cx` with 1 in `CX` and 0 in `AX`. -/
def cmovState (eflg : U32) : St := {
  mem := fullMem fun _ => 0xc1
  cpu := { eflg := eflg, gen := fun r => if r = .cx then 1 else 0 } }

/-- There it can be seen whether the move is made. -/
theorem cmovState_moved (eflg : U32) :
    ((cmovState eflg).moved .word).view ≠ ((cmovState eflg).rmDecoded).view := by
  have hcode : (cmovState eflg).modrm = ⟨3, 0, 1⟩ :=
    calc (cmovState eflg).modrm = (cmovState 0).modrm :=
          congrArg (fun v : U32 => ModRm.ofByte (v.setWidth 8))
            (code_congr (s := cmovState 0) (t := cmovState eflg) (.refl _) rfl .b8 0)
      _ = ⟨3, 0, 1⟩ := by decide +kernel
  have hval : ((cmovState eflg).rm .word).val (cmovState eflg) = 1 := by
    rw [St.rm, hcode]
    rfl
  intro hview
  have hax := congrArg (fun t : St => t.cpu.gen .ax) hview
  unfold St.moved St.rmRead St.rmDecoded at hax
  rw [hval, hcode] at hax
  revert hax
  change ¬((setLo16 0 1 : U32) = 0)
  decide

theorem decideAlike_iff {inp : PortInput} {h : Host} (hh : h.Blind inp) (c : Cpu) (cc : BitVec 4) :
    DecideAlike h c cc ↔ signedSlip c cc = false := by
  have hmove := cmovNoop_eq c cc
  constructor
  · intro halike
    have hcmov := halike.cmov (cmovState c.eflg) .word rfl rfl
    have hnoop : cmovNoop (cmovState c.eflg).cpu cc = cmovNoop c cc := cmovNoop_congr rfl cc
    rw [seen_cmovCc hh cc (z := .word) rfl, hnoop, hmove] at hcmov
    have hvisible := cmovState_moved c.eflg
    cases hslip : signedSlip c cc with
    | false => rfl
    | true =>
      rw [hslip, Bool.xor_true] at hcmov
      cases hcond : evalCondition c cc with
      | false => exact absurd (by simpa [hcond] using hcmov) hvisible
      | true => exact absurd (by simpa [hcond] using hcmov.symm) hvisible
  · intro hslip
    rw [hslip, Bool.xor_false] at hmove
    refine ⟨fun s z heflg hz => ?_, fun s heflg => ?_, fun s z heflg hz => ?_, fun s heflg => ?_⟩
    · rw [seen_cmovCc hh cc hz, cmovNoop_congr heflg, hmove]
    · rw [seen_jccShort hh, evalCondition_congr heflg]
    · rw [seen_jccNear hh cc hz, evalCondition_congr heflg]
    · rw [seen_setCc hh, evalCondition_congr heflg]

/-! ## After an operation -/

/-- The operations that set the flags: those of group A, and the ones with opcodes of their own. -/
inductive AluOp
  | opA (type : BitVec 3)
  | test | inc | dec | neg
  deriving DecidableEq, Repr

/-- The flag program of an operation; its result is left out. -/
def AluOp.prog (op : AluOp) (z : OpSize) (d s : BitVec z.bits) : FlagOp Unit :=
  match op with
  | opA type => do let _ ← X86Emu.opA z type d s
  | test => testSize z d s
  | inc => do let _ ← incSize z d
  | dec => do let _ ← decSize z d
  | neg => do let _ ← negSize z d

/-- The registers after an operation. -/
def Cpu.afterAlu (c : Cpu) (op : AluOp) (z : OpSize) (d s : BitVec z.bits) : Cpu :=
  { c with eflg := ((op.prog z d s).run () c.eflg).2 }

/-- After any operation on any operands, `cmovcc`, `jcc` and `setcc` decide alike if and only if the
signed slip does not happen. -/
theorem decideAlike_afterAlu {inp : PortInput} {h : Host} (hh : h.Blind inp) (c : Cpu) (op : AluOp)
    (z : OpSize) (d s : BitVec z.bits) (cc : BitVec 4) :
    DecideAlike h (c.afterAlu op z d s) cc ↔ signedSlip (c.afterAlu op z d s) cc = false :=
  decideAlike_iff hh _ cc

/-- After `cmp` of 1 with 2 the conditions `l` are met alike. -/
theorem decideAlike_afterAlu_cmp :
    DecideAlike (defaultHost fun _ _ _ => 0) (({} : Cpu).afterAlu (.opA 7) .byte 1 2) 12 :=
  (decideAlike_afterAlu (defaultHost_default fun _ _ _ => 0).blind {} (.opA 7) .byte 1 2 12).mpr
    (by decide)

/-- `cmp` of 0x7f with 0xff sets `SF` and `OF`: `cmovl` moves, and `jl` does not jump. -/
theorem decideAlike_cmp_fails :
    ¬DecideAlike (defaultHost fun _ _ _ => 0)
      (({ eflg := 2 } : Cpu).afterAlu (.opA 7) .byte 0x7f 0xff) 12 := by
  rw [decideAlike_iff (defaultHost_default fun _ _ _ => 0).blind]
  decide

end X86Emu
