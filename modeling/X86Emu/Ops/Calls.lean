import X86Emu.Ops.Slots

/-!
# Calls and returns

The call instructions push the address of the next instruction, and the returns pop it. A call
through a register reads it after the push, so a call through the stack pointer goes astray.
-/

namespace X86Emu

open Lib

/-! ## The call instructions -/

inductive CallForm
  | nearImm
  | nearRm
  | farImm
  | farRm
  deriving DecidableEq, Repr

namespace CallForm

/-- The handlers of 0xe8, 0x9a, and 0xff with /2 and /3. -/
def handler : CallForm → Emu Unit
  | nearImm => Op.callNearImm 0xe8
  | farImm => Op.callFarImm 0x9a
  | nearRm | farRm => Op.opcFfWordRm 0xff

def far : CallForm → Bool
  | nearImm | nearRm => false
  | farImm | farRm => true

/-- The bytes after the opcode are those of the form. -/
def Encoded (f : CallForm) (s : St) : Prop :=
  match f with
  | nearImm | farImm => True
  | nearRm => s.modrm.regh = 2
  | farRm => s.modrm.regh = 3 ∧ s.modrm.mod ≠ 3

/-- The number of bytes after the opcode. -/
def length (f : CallForm) (z : OpSize) (s : St) : Nat :=
  match f with
  | nearImm => z.bytes
  | farImm => z.bytes + 2
  | nearRm | farRm => s.rmLength

/-- The address of the next instruction. -/
def next (f : CallForm) (z : OpSize) (s : St) : U32 := s.cpu.advance (f.length z s)

/-- The offset of the target, from the immediate or from the operand before the instruction. -/
def target (f : CallForm) (z : OpSize) (s : St) : BitVec z.bits :=
  match f with
  | nearImm => (f.next z s + (s.immAt z 0).signExtend 32).setWidth z.bits
  | farImm => s.immAt z 0
  | nearRm => (s.rm z).val s
  | farRm => (s.dataVal z.width s.rmSeg s.rmAddress).setWidth z.bits

/-- The selector of the target. -/
def selector (f : CallForm) (z : OpSize) (s : St) : U16 :=
  match f with
  | nearImm | nearRm => (s.cpu.seg .cs).sel
  | farImm => s.immAt .word z.bytes
  | farRm => (s.dataVal .b16 s.rmSeg (s.rmAddress + BitVec.ofNat 32 z.bytes)).setWidth 16

/-- What is pushed. -/
def frame (f : CallForm) (z : OpSize) (s : St) : List (BitVec z.bits) :=
  if f.far then [(s.cpu.seg .cs).sel.setWidth z.bits, (f.next z s).setWidth z.bits]
  else [(f.next z s).setWidth z.bits]

/-- The jump after the pushes. -/
def jump (f : CallForm) (cs : U16) (eip : U32) (p : St) : St :=
  if f.far then p.wentFar cs eip else p.put fun c => { c with eip := eip }

/-- The offset that the code jumps to: a register is read after the push. -/
def jumpedTo (f : CallForm) (z : OpSize) (s : St) : BitVec z.bits :=
  if f = nearRm ∧ s.modrm.mod = 3 then
    (s.cpu.moveSp (-BitVec.ofNat 32 z.bytes)).getReg z s.modrm.regl
  else f.target z s

end CallForm

section

variable {inp : PortInput} {h : Host} (hh : h.Blind inp) {z : OpSize}

include hh

theorem seen_pushSel (v : U16) {s : St} (hz : s.cpu.mode.opSize true = z) :
    seen h (Op.pushSel v) s = ((), (s.pushed z.width ((v.setWidth z.bits).setWidth 32)).view) := by
  unfold Op.pushSel
  rw [seen_step hh (seen_getMode s), seen_ite]
  rcases opSize_cases s.cpu.mode with ⟨hdata, hsize⟩ | ⟨hdata, hsize⟩
  · obtain rfl : OpSize.long = z := hsize.symm.trans hz
    rw [hdata, if_pos rfl, seen_pushLong hh]
    exact congrArg (fun x => ((), (s.pushed .b32 x).view)) (BitVec.setWidth_eq _).symm
  · obtain rfl : OpSize.word = z := hsize.symm.trans hz
    rw [hdata, if_neg Bool.false_ne_true, seen_pushWord hh]
    exact congrArg (fun x : U16 => ((), (s.pushed .b16 (x.setWidth 32)).view))
      (BitVec.setWidth_eq v).symm

theorem seen_pushIp {s : St} (hz : s.cpu.mode.opSize true = z) : seen h Op.pushIp s =
    ((), (s.pushed z.width ((s.cpu.eip.setWidth z.bits).setWidth 32)).view) := by
  have hne : z ≠ .byte := hz ▸ opSize_ne_byte s.cpu.mode
  have hip : seen h (getIpSize z) s = (s.cpu.eip.setWidth z.bits, s.view) := rfl
  unfold Op.pushIp
  rw [seen_step hh (seen_dataSize s), hz, seen_step hh hip, seen_pushSize hh hne]

theorem seen_pushFar {s : St} (hz : s.cpu.mode.opSize true = z) : seen h Op.pushFar s =
    ((), (s.pushes z [(s.cpu.seg .cs).sel.setWidth z.bits, s.cpu.eip.setWidth z.bits]).view) := by
  have hpushed : ∀ v : U32, (s.pushed z.width v).cpu.mode.opSize true = z ∧
      (s.pushed z.width v).cpu.eip = s.cpu.eip := by
    intro v
    rw [pushed_cpu, moveSp_mode, moveSp_eq]
    exact ⟨hz, rfl⟩
  unfold Op.pushFar
  rw [seen_step hh (seen_getCpu s), seen_step hh (seen_pushSel hh _ hz),
    seen_pushIp hh (hpushed _).1, (hpushed _).2]
  rfl

omit hh in
theorem fetched_next (s : St) (z : OpSize) : (s.fetched z.width).cpu.eip = s.cpu.advance z.bytes ∧
    (s.fetched z.width).cpu.mode.opSize true = s.cpu.mode.opSize true := by
  refine ⟨?_, rfl⟩
  rw [fetched_eip, size_width]
  cases z <;> rfl

omit hh in
theorem seen_truncTarget (eip : U32) {s : St} (hz : s.cpu.mode.opSize true = z) :
    seen h (Op.truncTarget eip) s = ((eip.setWidth z.bits).setWidth 32, s.view) := by
  have hones := and_ones eip 0 16
  rw [BitVec.shiftLeft_zero, BitVec.shiftLeft_zero, BitVec.ushiftRight_zero] at hones
  have hvalue : seen h (Op.truncTarget eip) s =
      (if s.cpu.mode.data32 then eip else eip &&& 0xffff, s.view) := rfl
  rw [hvalue]
  rcases opSize_cases s.cpu.mode with ⟨hdata, hsize⟩ | ⟨hdata, hsize⟩
  · obtain rfl : OpSize.long = z := hsize.symm.trans hz
    rw [hdata, if_pos rfl]
    exact congrArg (·, s.view)
      ((congrArg (BitVec.setWidth 32) (BitVec.setWidth_eq eip)).trans (BitVec.setWidth_eq eip)).symm
  · obtain rfl : OpSize.word = z := hsize.symm.trans hz
    rw [hdata, if_neg Bool.false_ne_true]
    exact congrArg (·, s.view) hones

theorem seen_fetchNearOfs {s : St} (hz : s.cpu.mode.opSize true = z) :
    seen h Op.fetchNearOfs s = ((s.immAt z 0).signExtend 32, (s.fetched z.width).view) := by
  unfold Op.fetchNearOfs St.immAt
  rw [advance_zero, seen_step hh (seen_getMode s), seen_ite]
  rcases opSize_cases s.cpu.mode with ⟨hdata, hsize⟩ | ⟨hdata, hsize⟩
  · obtain rfl : OpSize.long = z := hsize.symm.trans hz
    rw [hdata, if_pos rfl, seen_fetchLong hh s]
    have hsame : ((s.code .b32 s.cpu.eip).setWidth 32).signExtend 32 = s.code .b32 s.cpu.eip := by
      rw [BitVec.setWidth_eq, BitVec.signExtend_eq]
    exact congrArg (·, (s.fetched .b32).view) hsame.symm
  · obtain rfl : OpSize.word = z := hsize.symm.trans hz
    rw [hdata, if_neg Bool.false_ne_true, seen_fetchSignedWord hh s]
    rfl

theorem seen_callNearImm {s : St} (hz : s.cpu.mode.opSize true = z) :
    ∃ r, Reads s r ∧ seen h (Op.callNearImm 0xe8) s =
      ((), (CallForm.jump .nearImm (CallForm.selector .nearImm z s)
        ((CallForm.jumpedTo .nearImm z s).setWidth 32)
        (r.pushes z (CallForm.frame .nearImm z s))).view) := by
  obtain ⟨hnext, hsize⟩ := fetched_next s z
  have haddr : ∀ eip t, seen h (Op.decodeAddr eip) t = ((), t.view) := fun _ _ => rfl
  refine ⟨s.fetched z.width, Reads.refl.fetched z.width, ?_⟩
  unfold Op.callNearImm
  rw [seen_step hh (seen_opDecode _ s), seen_step hh (seen_fetchNearOfs hh hz),
    seen_step hh (seen_getEip _), seen_step hh (seen_truncTarget _ (hsize.trans hz)),
    seen_step hh (haddr _ _), seen_step hh (seen_pushIp hh (hsize.trans hz)), seen_setEip, hnext]
  rfl

theorem seen_callFarImm {s : St} (hz : s.cpu.mode.opSize true = z) :
    ∃ r, Reads s r ∧ seen h (Op.callFarImm 0x9a) s =
      ((), (CallForm.jump .farImm (CallForm.selector .farImm z s)
        ((CallForm.jumpedTo .farImm z s).setWidth 32)
        (r.pushes z (CallForm.frame .farImm z s))).view) := by
  obtain ⟨hnext, hsize⟩ := fetched_next s z
  have hfar : ∀ cs eip t, seen h (Op.decodeFar cs eip) t = ((), t.view) := fun _ _ _ => rfl
  have hofs : seen h Op.fetchFarOfs s = ((s.immAt z 0).setWidth 32, (s.fetched z.width).view) := by
    unfold Op.fetchFarOfs St.immAt
    rw [advance_zero, seen_step hh (seen_getMode s), seen_ite]
    rcases opSize_cases s.cpu.mode with ⟨hdata, hsize⟩ | ⟨hdata, hsize⟩
    · obtain rfl : OpSize.long = z := hsize.symm.trans hz
      rw [hdata, if_pos rfl, seen_fetchLong hh s]
      have hsame : ((s.code .b32 s.cpu.eip).setWidth 32).setWidth 32 = s.code .b32 s.cpu.eip := by
        rw [BitVec.setWidth_eq, BitVec.setWidth_eq]
      exact congrArg (·, (s.fetched .b32).view) hsame.symm
    · obtain rfl : OpSize.word = z := hsize.symm.trans hz
      rw [hdata, if_neg Bool.false_ne_true, seen_step hh (seen_fetchWord hh s), seen_pure]
      rfl
  have hsel : seen h fetchWord (s.fetched z.width) =
      (CallForm.selector .farImm z s, ((s.fetched z.width).fetched .b16).view) := by
    rw [seen_fetchWord hh, fetched_code, hnext]
    rfl
  have heip : ((s.fetched z.width).fetched .b16).cpu.eip = s.cpu.advance (z.bytes + 2) := by
    rw [fetched_eip, advance_fetched, size_width]
    cases z <;> rfl
  refine ⟨(s.fetched z.width).fetched .b16, (Reads.refl.fetched z.width).fetched .b16, ?_⟩
  unfold Op.callFarImm
  rw [seen_step hh (seen_opDecode _ s), seen_step hh hofs, seen_step hh hsel,
    seen_step hh (hfar _ _ _),
    seen_step hh (seen_pushFar hh (s := (s.fetched z.width).fetched .b16) hz),
    seen_farTransfer hh, heip]
  rfl

omit hh in
theorem moveSp_getReg (c c' : Cpu) (hgen : c'.gen = c.gen)
    (hstack : c'.mode.stack32 = c.mode.stack32) (d : U32) (z : OpSize) (i : BitVec 3) :
    (c'.moveSp d).getReg z i = (c.moveSp d).getReg z i := by
  have hmoved : (c'.moveSp d).gen = (c.moveSp d).gen := by
    rw [moveSp_eq, moveSp_eq, hstack]
    unfold Cpu.setGen
    rw [hgen]
  cases z with
  | byte => exact congrArg (fun g => ({ c with gen := g } : Cpu).get8 (Reg8.ofBits i)) hmoved
  | word => exact congrArg (BitVec.setWidth 16) (congrFun hmoved _)
  | long => exact congrFun hmoved _

theorem seen_callNearRm {s : St} (hz : s.cpu.mode.opSize true = z)
    (hcode : CallForm.Encoded .nearRm s) : ∃ r, Reads s r ∧ seen h (Op.opcFfWordRm 0xff) s =
      ((), (CallForm.jump .nearRm (CallForm.selector .nearRm z s)
        ((CallForm.jumpedTo .nearRm z s).setWidth 32)
        (r.pushes z (CallForm.frame .nearRm z s))).view) := by
  have hreg : s.modrm.regh = 2 := hcode
  have hhandler : seen h (Op.opcFfWordRm 0xff) s =
      seen h (Op.jumpRm Op.pushIp s.modrm) (s.fetched .b8) := by
    unfold Op.opcFfWordRm
    rw [seen_step hh (seen_modrm hh s), hreg]
    exact seen_step hh (seen_opDecode _ _)
  rw [hhandler]
  unfold Op.jumpRm
  rw [seen_step hh (seen_dataSize _), seen_ite]
  have hdata : (s.fetched .b8).cpu.mode.opSize true = z := hz
  rw [hdata]
  by_cases hmod : s.modrm.mod = 3
  · have hlength : (s.fetched .b8).cpu.eip = s.cpu.advance s.rmLength := by
      unfold St.rmLength
      rw [if_pos hmod]
      rfl
    have hval : ((s.fetched .b8).cpu.moveSp (-BitVec.ofNat 32 z.bytes)).getReg z s.modrm.regl =
        (s.cpu.moveSp (-BitVec.ofNat 32 z.bytes)).getReg z s.modrm.regl :=
      moveSp_getReg s.cpu (s.fetched .b8).cpu rfl rfl _ z _
    refine ⟨s.fetched .b8, Reads.refl.fetched .b8, ?_⟩
    rw [if_pos hmod, seen_step hh (seen_decodeReg _ _ _), seen_step hh (seen_pushIp hh hdata),
      seen_step hh (seen_getReg _ _ _), seen_setEip, pushed_sp, hlength, hval]
    unfold CallForm.jumpedTo
    rw [if_pos ⟨rfl, hmod⟩]
    rfl
  · obtain ⟨hreads, hseg⟩ := rmLoaded_reads s z
    have hnext : (s.rmFetched.loaded z.width s.rmSeg s.rmAddress).cpu.eip =
        s.cpu.advance s.rmLength := by
      rw [loaded_cpu, rmFetched_eip hmod]
    have hfetch : seen h (fetchDataSize z s.rmAddress) s.rmFetched =
        ((s.rm z).val s, (s.rmFetched.loaded z.width s.rmSeg s.rmAddress).view) := by
      unfold St.rm
      rw [if_neg hmod, seen_fetchDataSize hh, rmFetched_dataSeg, (rmFetched_reads s).dataVal]
      rfl
    refine ⟨_, hreads, ?_⟩
    rw [if_neg hmod, seen_step hh (seen_opDecode _ _), seen_step hh (seen_rmAddress hh hmod),
      seen_step hh hfetch, seen_step hh (seen_pushIp hh ((hreads.opSize true).trans hz)),
      seen_setEip, hnext]
    unfold CallForm.jumpedTo
    rw [if_neg fun h => hmod h.2]
    rfl

theorem seen_callFarRm {s : St} (hz : s.cpu.mode.opSize true = z)
    (hcode : CallForm.Encoded .farRm s) : ∃ r, Reads s r ∧ seen h (Op.opcFfWordRm 0xff) s =
      ((), (CallForm.jump .farRm (CallForm.selector .farRm z s)
        ((CallForm.jumpedTo .farRm z s).setWidth 32)
        (r.pushes z (CallForm.frame .farRm z s))).view) := by
  obtain ⟨hreg, hmod⟩ : s.modrm.regh = 3 ∧ s.modrm.mod ≠ 3 := hcode
  have hhandler : seen h (Op.opcFfWordRm 0xff) s =
      seen h (Op.jumpFarRm Op.pushFar s.modrm) (s.fetched .b8) := by
    unfold Op.opcFfWordRm
    rw [seen_step hh (seen_modrm hh s), hreg]
    show seen h (if s.modrm.mod = 3 then _ else _) (s.fetched .b8) = _
    rw [seen_ite, if_neg hmod]
    exact seen_step hh (seen_opDecode _ _)
  obtain ⟨hreads, hseg⟩ := rmLoaded_reads s z
  have hne : z ≠ .byte := hz ▸ opSize_ne_byte s.cpu.mode
  have hsecond : (if z = .long then 4 else 2 : U32) = BitVec.ofNat 32 z.bytes := by
    cases z with
    | byte => exact absurd rfl hne
    | word => rfl
    | long => rfl
  have hfetch : seen h (fetchDataSize z s.rmAddress) s.rmFetched =
      ((s.dataVal z.width s.rmSeg s.rmAddress).setWidth z.bits,
        (s.rmFetched.loaded z.width s.rmSeg s.rmAddress).view) := by
    rw [seen_fetchDataSize hh, rmFetched_dataSeg, (rmFetched_reads s).dataVal]
  have hsel : seen h (fetchDataWord (s.rmAddress + BitVec.ofNat 32 z.bytes))
      (s.rmFetched.loaded z.width s.rmSeg s.rmAddress) =
      (CallForm.selector .farRm z s, ((s.rmFetched.loaded z.width s.rmSeg s.rmAddress).loaded .b16
        s.rmSeg (s.rmAddress + BitVec.ofNat 32 z.bytes)).view) := by
    have hword := seen_fetchDataSize hh .word (s.rmAddress + BitVec.ofNat 32 z.bytes)
      (s.rmFetched.loaded z.width s.rmSeg s.rmAddress)
    rw [hseg, hreads.dataVal] at hword
    exact hword
  have hall := hreads.loaded .b16 s.rmSeg (s.rmAddress + BitVec.ofNat 32 z.bytes)
  have hnext : ((s.rmFetched.loaded z.width s.rmSeg s.rmAddress).loaded .b16 s.rmSeg
      (s.rmAddress + BitVec.ofNat 32 z.bytes)).cpu.eip = s.cpu.advance s.rmLength := by
    rw [loaded_cpu, loaded_cpu, rmFetched_eip hmod]
  have hcs : ((s.rmFetched.loaded z.width s.rmSeg s.rmAddress).loaded .b16 s.rmSeg
      (s.rmAddress + BitVec.ofNat 32 z.bytes)).cpu.seg .cs = s.cpu.seg .cs := by
    obtain ⟨eip, segDsSs, halted, hcpu⟩ := hall.cpu
    rw [hcpu]
  have htext : ∀ (c : Prop) [Decidable c] (text : String) (f : Unit → Emu Unit) t,
      seen h (if c then opDecode text >>= f else f ()) t = seen h (f ()) t := by
    intro c _ text f t
    rw [seen_ite]
    split
    · exact seen_step hh (seen_opDecode _ t)
    · rfl
  have hdata : (s.fetched .b8).cpu.mode.opSize true = z := hz
  refine ⟨_, hall, ?_⟩
  rw [hhandler]
  unfold Op.jumpFarRm
  rw [seen_step hh (seen_getMode _), seen_step hh (seen_dataSize _)]
  dsimp only
  rw [htext, seen_step hh (seen_rmAddress hh hmod), hdata, seen_step hh hfetch, hsecond,
    seen_step hh hsel, seen_step hh (seen_pushFar hh ((hall.opSize true).trans hz)),
    seen_farTransfer hh, hnext, hcs]
  rfl

/-- Every form pushes its frame and jumps. -/
theorem seen_call (f : CallForm) {s : St} (hz : s.cpu.mode.opSize true = z)
    (hcode : f.Encoded s) : ∃ r, Reads s r ∧ seen h f.handler s =
      ((), (f.jump (f.selector z s) ((f.jumpedTo z s).setWidth 32)
        (r.pushes z (f.frame z s))).view) := by
  cases f with
  | nearImm => exact seen_callNearImm hh hz
  | nearRm => exact seen_callNearRm hh hz hcode
  | farImm => exact seen_callFarImm hh hz
  | farRm => exact seen_callFarRm hh hz hcode

/-! ## The returns -/

theorem seen_retNear (op : U8) {s : St} (hz : s.cpu.mode.opSize true = z) :
    seen h (Op.retNear op) s = ((), ((s.popped z.width).put fun c => { c with
      eip := (s.mem.num z (s.cpu.below 0)).setWidth 32 }).view) := by
  unfold Op.retNear
  rw [seen_step hh (seen_opDecode _ s), seen_step hh (seen_popData hh hz), seen_setEip]

theorem seen_retFar (op : U8) {s : St} (hz : s.cpu.mode.opSize true = z) :
    seen h (Op.retFar op) s = ((), (((s.popped z.width).popped z.width).wentFar
      (((s.popped z.width).mem.num z ((s.popped z.width).cpu.below 0)).setWidth 32 |>.setWidth 16)
      ((s.mem.num z (s.cpu.below 0)).setWidth 32)).view) := by
  have hz' : (s.popped z.width).cpu.mode.opSize true = z := by
    rw [popped_cpu, moveSp_mode]
    exact hz
  unfold Op.retFar
  rw [seen_step hh (seen_opDecode _ s), seen_step hh (seen_popData hh hz),
    seen_step hh (seen_popData hh hz'), seen_farTransfer hh]

end

/-! ## Code segments -/

/-- `CS` holds the selector `v` and what belongs to it. -/
def St.CsIs (t : St) (v : U16) : Prop :=
  if t.cpu.prot then ∃ d, t.Encodes v d ∧ d.Present ∧ t.cpu.seg .cs = d.cache v
  else (t.cpu.seg .cs).sel = v ∧ (t.cpu.seg .cs).base = BitVec.ofNat 32 (16 * v.toNat)

/-- In protected mode the selector is not one of those taken for null, and it can be loaded. -/
def St.CsLoads (s : St) (v : U16) : Prop := s.cpu.prot = true → 7 < v.toNat ∧ s.Loadable v

/-- What selectors refer to. -/
def Cpu.tables (c : Cpu) : Bool × Sel × U32 × U32 := (c.prot, c.ldt, c.gdtBase, c.gdtLimit)

theorem encodes_congr {s t : St} (htables : t.cpu.tables = s.cpu.tables)
    (hmem : s.mem.Marked t.mem) (v : U16) (d : SegDescr) : t.Encodes v d ↔ s.Encodes v d := by
  obtain ⟨-, hldt, hbase, hlimit⟩ : t.cpu.prot = s.cpu.prot ∧ t.cpu.ldt = s.cpu.ldt ∧
      t.cpu.gdtBase = s.cpu.gdtBase ∧ t.cpu.gdtLimit = s.cpu.gdtLimit := by
    unfold Cpu.tables at htables
    simpa using htables
  unfold St.Encodes
  dsimp only
  rw [hldt, hbase, hlimit, hmem.access_result (by decide), hmem.access_result (by decide)]

theorem csLoads_congr {s t : St} (htables : t.cpu.tables = s.cpu.tables)
    (hmem : s.mem.Marked t.mem) (v : U16) : t.CsLoads v ↔ s.CsLoads v := by
  have hprot : t.cpu.prot = s.cpu.prot := congrArg Prod.fst htables
  unfold St.CsLoads St.Loadable
  rw [hprot]
  simp only [encodes_congr htables hmem]

theorem csIs_congr {s t : St} (htables : t.cpu.tables = s.cpu.tables) (hseg : t.cpu.seg = s.cpu.seg)
    (hmem : s.mem.Marked t.mem) (v : U16) : t.CsIs v ↔ s.CsIs v := by
  have hprot : t.cpu.prot = s.cpu.prot := congrArg Prod.fst htables
  unfold St.CsIs
  rw [hprot, hseg]
  simp only [encodes_congr htables hmem]

/-- A far transfer changes `CS` and `EIP` only. -/
theorem wentFar_kept (s : St) (cs : U16) (eip : U32) :
    (s.wentFar cs eip).cpu.tables = s.cpu.tables ∧ (s.wentFar cs eip).cpu.gen = s.cpu.gen ∧
      (s.wentFar cs eip).cpu.mode = s.cpu.mode ∧
      (s.wentFar cs eip).cpu.seg .ss = s.cpu.seg .ss ∧ s.mem.Marked (s.wentFar cs eip).mem := by
  obtain ⟨sel, hsel⟩ := segLoaded_cpu s (.seg .cs) cs
  have hcpu : (s.wentFar cs eip).cpu = { s.cpu.setSel (.seg .cs) sel with eip := eip } := by
    rw [← hsel]
    rfl
  refine ⟨?_, ?_, ?_, ?_, segLoaded_marked s (.seg .cs) cs⟩ <;> rw [hcpu] <;> rfl

/-- A far transfer loads `CS` exactly when the selector can be loaded. -/
theorem wentFar_csIs (s : St) (cs : U16) (eip : U32) :
    (s.wentFar cs eip).CsIs cs ↔ s.CsLoads cs := by
  obtain ⟨htables, -, -, -, hmem⟩ := wentFar_kept s cs eip
  have hprot : (s.wentFar cs eip).cpu.prot = s.cpu.prot := congrArg Prod.fst htables
  have hcs : (s.wentFar cs eip).cpu.seg .cs = (s.segLoaded (.seg .cs) cs).cpu.getSel (.seg .cs) :=
    rfl
  unfold St.CsIs St.CsLoads
  rw [hprot, hcs]
  simp only [encodes_congr htables hmem]
  cases hmode : s.cpu.prot with
  | false =>
    rw [if_neg Bool.false_ne_true]
    refine iff_of_true ?_ fun h => absurd h Bool.false_ne_true
    obtain ⟨⟨hcpu, -⟩, -⟩ := (segLoaded_real hmode (.seg .cs) cs).real hmode
    rw [hcpu, getSel_setSel]
    exact ⟨rfl, rfl⟩
  | true =>
    rw [if_pos rfl]
    by_cases hlow : cs.toNat ≤ 7
    · refine iff_of_false ?_ fun h => absurd (h rfl).1 (by omega)
      rintro ⟨d, -, hpresent, hcache⟩
      rw [(segLoaded_some hmode (newCache_eq_null hlow s) (.seg .cs)).1, getSel_setSel] at hcache
      have hbit : (0 : U16).getLsbD 4 = (d.acc.setWidth 16).getLsbD 4 :=
        congrArg (fun c => c.acc.getLsbD 4) hcache
      rw [BitVec.getLsbD_setWidth, hpresent.1] at hbit
      exact absurd hbit (by decide)
    · constructor
      · rintro ⟨d, hd, hpresent, -⟩ _
        exact ⟨by omega, d, hd, hpresent⟩
      · intro hload
        obtain ⟨hhigh, d, hd, hpresent⟩ := hload rfl
        have hnew := (newCache_eq_some hhigh _).mpr ⟨d, hd, hpresent, rfl⟩
        refine ⟨d, hd, hpresent, ?_⟩
        rw [(segLoaded_some hmode hnew (.seg .cs)).1, getSel_setSel]

/-! ## Calls and returns match -/

/-- The instruction in between changes neither the segments nor the tables. -/
structure Follows (p u : St) : Prop extends Resumes p u where
  seg : u.cpu.seg = p.cpu.seg
  tables : u.cpu.tables = p.cpu.tables

/-- The return of a form. -/
def CallForm.ret (f : CallForm) : Emu Unit := if f.far then Op.retFar 0xcb else Op.retNear 0xc3

/-- The call leads from `s` to `p`, and the return to `t`. -/
structure CallReturns (f : CallForm) (z : OpSize) (s p t : St) : Prop where
  target : p.cpu.eip = (f.target z s).setWidth 32
  targetCs : f.far = true → p.CsIs (f.selector z s)
  eip : t.cpu.eip = f.next z s
  sp : t.cpu.gen .sp = s.cpu.gen .sp
  cs : if f.far then t.CsIs (s.cpu.seg .cs).sel else t.cpu.seg = s.cpu.seg

/-- The register form with the stack pointer. -/
def CallForm.ThroughSp (f : CallForm) (s : St) : Prop :=
  f = nearRm ∧ s.modrm.mod = 3 ∧ s.modrm.regl = 4

section

variable {f : CallForm} {z : OpSize} {s : St}

theorem setWidth_inj {z : OpSize} {v w : BitVec z.bits} :
    v.setWidth 32 = w.setWidth 32 ↔ v = w := by
  have hle : z.bits ≤ 32 := by cases z <;> decide
  constructor
  · intro heq
    have hnat := congrArg BitVec.toNat heq
    rw [BitVec.toNat_setWidth_of_le hle, BitVec.toNat_setWidth_of_le hle] at hnat
    exact BitVec.eq_of_toNat_eq hnat
  · exact fun heq => heq ▸ rfl

/-- A push changes the stack pointer in every width. -/
theorem moveSp_getReg_sp (hz : z ≠ .byte) (c : Cpu) :
    (c.moveSp (-BitVec.ofNat 32 z.bytes)).getReg z 4 ≠ c.getReg z 4 := by
  intro heq
  have hlow : ((c.moveSp (-BitVec.ofNat 32 z.bytes)).gen .sp).setWidth 16 =
      (c.gen .sp).setWidth 16 := by
    cases z with
    | byte => exact absurd rfl hz
    | word => exact heq
    | long => exact congrArg (BitVec.setWidth 16) heq
  rw [moveSp_sp, idxAdd_low] at hlow
  have hzero := (BitVec.add_right_inj _).mp (hlow.trans (BitVec.add_zero _).symm)
  revert hzero
  clear hlow heq
  cases z with
  | byte => exact absurd rfl hz
  | word => decide
  | long => decide

/-- Only the stack pointer has another value after the push. -/
theorem jumpedTo_eq_iff (hz : z ≠ .byte) : f.jumpedTo z s = f.target z s ↔ ¬f.ThroughSp s := by
  unfold CallForm.jumpedTo CallForm.ThroughSp
  by_cases hreg : f = .nearRm ∧ s.modrm.mod = 3
  · obtain ⟨rfl, hmod⟩ := hreg
    have htarget : CallForm.target .nearRm z s = s.cpu.getReg z s.modrm.regl := by
      show (s.rm z).val s = _
      unfold St.rm
      rw [if_pos hmod]
      rfl
    rw [if_pos ⟨rfl, hmod⟩, htarget]
    by_cases hsp : s.modrm.regl = 4
    · rw [hsp]
      exact iff_of_false (moveSp_getReg_sp hz s.cpu) fun h => h ⟨rfl, hmod, rfl⟩
    · refine iff_of_true (getReg_congr hz _ _ (moveSp_ne ?_ _)) fun h => hsp h.2.2
      exact fun h => hsp (ofBits_sp.mp h)
  · rw [if_neg hreg]
    exact iff_of_true rfl fun h => hreg ⟨h.1, h.2.1⟩

/-- The address of the next instruction as the return pops it. -/
theorem next_eq_iff (hz : z ≠ .byte) (next : U32) :
    (next.setWidth z.bits).setWidth 32 = next ↔ z = .long ∨ next.toNat < 0x10000 := by
  cases z with
  | byte => exact absurd rfl hz
  | word =>
    rw [or_iff_right (by decide), BitVec.toNat_eq]
    show ((next.setWidth 16).setWidth 32).toNat = next.toNat ↔ _
    rw [BitVec.toNat_setWidth_of_le (by decide), BitVec.toNat_setWidth]
    omega
  | long =>
    refine iff_of_true ?_ (Or.inl rfl)
    show (next.setWidth 32).setWidth 32 = next
    rw [BitVec.setWidth_eq, BitVec.setWidth_eq]

theorem jump_resumes (f : CallForm) (cs : U16) (eip : U32) (p : St) :
    Resumes p (f.jump cs eip p) ∧ (f.jump cs eip p).cpu.tables = p.cpu.tables ∧
      (f.jump cs eip p).cpu.eip = eip := by
  unfold CallForm.jump
  split
  · obtain ⟨htables, hgen, hmode, hss, hmem⟩ := wentFar_kept p cs eip
    exact ⟨⟨congrFun hgen .sp, hss, congrArg Mode.stack32 hmode, hmem⟩, htables, rfl⟩
  · exact ⟨⟨rfl, rfl, rfl, .refl _⟩, rfl, rfl⟩

theorem pushes_tables (s : St) (z : OpSize) (vs : List (BitVec z.bits)) :
    (s.pushes z vs).cpu.tables = s.cpu.tables := by
  rw [pushes_cpu, moveSp_eq]
  rfl

variable {u : St} (hres : Resumes (s.pushes z (f.frame z s)) u) (hsep : s.mem.Sep)
  (hram : s.StackRam z (f.frame z s).length)

include hres hsep hram

/-- What a near return finds. -/
theorem near_popped (hfar : f.far = false) :
    u.mem.num z (u.cpu.below 0) = (f.next z s).setWidth z.bits ∧
      (u.popped z.width).cpu.gen .sp = s.cpu.gen .sp := by
  have hframe : f.frame z s = [(f.next z s).setWidth z.bits] := if_neg (by rw [hfar]; decide)
  have hbytes := (bytes_le z).2
  rw [hframe] at hres hram
  have hdown : s.cpu.Down (0 + z.bytes) u.cpu := by
    have hpushed := hres.down (pushes_down s z _)
    rwa [List.length_singleton, Nat.one_mul, ← Nat.zero_add z.bytes] at hpushed
  have hnum := pushes_num hsep _ hram (by rw [List.length_singleton]; omega)
    (i := 0) Nat.zero_lt_one
  rw [Nat.zero_add, Nat.one_mul] at hnum
  refine ⟨?_, (popped_down hdown).zero⟩
  rw [hdown.below, hres.num, Nat.zero_add, Nat.add_zero]
  exact hnum

/-- What a far return finds. -/
theorem far_popped (hfar : f.far = true) :
    u.mem.num z (u.cpu.below 0) = (f.next z s).setWidth z.bits ∧
      (u.popped z.width).mem.num z ((u.popped z.width).cpu.below 0) =
        (s.cpu.seg .cs).sel.setWidth z.bits ∧
      ((u.popped z.width).popped z.width).cpu.gen .sp = s.cpu.gen .sp := by
  have hframe : f.frame z s =
      [(s.cpu.seg .cs).sel.setWidth z.bits, (f.next z s).setWidth z.bits] := if_pos hfar
  have hbytes := (bytes_le z).2
  rw [hframe] at hres hram
  have hdown : s.cpu.Down (0 + z.bytes + z.bytes) u.cpu := by
    have hpushed := hres.down (pushes_down s z _)
    rwa [List.length_cons, List.length_singleton,
      show (1 + 1) * z.bytes = 0 + z.bytes + z.bytes by omega] at hpushed
  have hlen : [(s.cpu.seg .cs).sel.setWidth z.bits, (f.next z s).setWidth z.bits].length * z.bytes ≤
      0x8000 := by
    rw [List.length_cons, List.length_singleton]
    omega
  have hlast := pushes_num hsep _ hram hlen (i := 1) Nat.one_lt_two
  have hfirst := pushes_num hsep _ hram hlen (i := 0) Nat.zero_lt_two
  rw [show (1 + 1) * z.bytes = 0 + z.bytes + z.bytes by omega] at hlast
  rw [show (0 + 1) * z.bytes = 0 + z.bytes by omega] at hfirst
  have hpop := popped_down hdown
  refine ⟨?_, ?_, (popped_down hpop).zero⟩
  · rw [hdown.below, hres.num, Nat.add_zero]
    exact hlast
  · rw [hpop.below, (popped_marked u z).num, hres.num, Nat.add_zero]
    exact hfirst

end

section

variable {inp : PortInput} {h : Host} (hh : h.Blind inp) (f : CallForm) {s u : St} {z : OpSize}
  (hz : s.cpu.mode.opSize true = z) (hcode : f.Encoded s)

include hh hz hcode

/-- What the call does, seen from the state before it. -/
theorem call_spec (hsep : s.mem.Sep) :
    ((f.handler.run h s).2.cpu.eip = (f.jumpedTo z s).setWidth 32 ∧
      (f.handler.run h s).2.cpu.tables = s.cpu.tables ∧
      (f.far = false → (f.handler.run h s).2.cpu.seg = s.cpu.seg)) ∧
    Resumes (s.pushes z (f.frame z s)) (f.handler.run h s).2 ∧
    (f.far = true → ((f.handler.run h s).2.CsIs (f.selector z s) ↔
      (s.pushes z (f.frame z s)).CsLoads (f.selector z s))) := by
  obtain ⟨r, hreads, hseen⟩ := seen_call hh f hz hcode
  obtain ⟨hcpu, hmem, -⟩ := view_parts (congrArg Prod.snd hseen)
  obtain ⟨hjump, htables, heip⟩ := jump_resumes f (f.selector z s) ((f.jumpedTo z s).setWidth 32)
    (r.pushes z (f.frame z s))
  obtain ⟨eip, segDsSs, halted, hrcpu⟩ := hreads.cpu
  have hpushed := (hreads.resumes).pushes hsep (f.frame z s)
  have hrtables : (r.pushes z (f.frame z s)).cpu.tables = s.cpu.tables := by
    rw [pushes_tables, hrcpu]
    rfl
  refine ⟨⟨?_, ?_, fun hnear => ?_⟩, ?_, fun hfar => ?_⟩
  · rw [hcpu, heip]
  · rw [hcpu, htables, hrtables]
  · rw [hcpu]
    unfold CallForm.jump
    rw [if_neg (by rw [hnear]; decide), put_cpu]
    dsimp only
    rw [pushes_cpu, moveSp_seg, hrcpu]
  · refine hpushed.trans ⟨?_, ?_, ?_, ?_⟩
    · rw [hcpu, hjump.sp]
    · rw [hcpu, hjump.ss]
    · rw [hcpu, hjump.stack32]
    · rw [hmem]
      exact hjump.mem
  · have hcs : (f.handler.run h s).2.CsIs (f.selector z s) ↔
        ((r.pushes z (f.frame z s)).wentFar (f.selector z s)
          ((f.jumpedTo z s).setWidth 32)).CsIs (f.selector z s) := by
      have hgo : f.jump (f.selector z s) ((f.jumpedTo z s).setWidth 32)
          (r.pushes z (f.frame z s)) = (r.pushes z (f.frame z s)).wentFar (f.selector z s)
            ((f.jumpedTo z s).setWidth 32) := if_pos hfar
      rw [hgo] at hcpu hmem
      exact csIs_congr (by rw [hcpu]) (by rw [hcpu]) (by rw [hmem]; exact .refl _) _
    rw [hcs, wentFar_csIs]
    exact csLoads_congr (by rw [hrtables, pushes_tables]) hpushed.mem _

/-- What the return does after the call. -/
theorem ret_spec (hsep : s.mem.Sep) (hram : s.StackRam z (f.frame z s).length)
    (hfol : Follows (f.handler.run h s).2 u) (hdata : u.cpu.mode.data32 = s.cpu.mode.data32) :
    (f.ret.run h u).2.cpu.eip = ((f.next z s).setWidth z.bits).setWidth 32 ∧
      (f.ret.run h u).2.cpu.gen .sp = s.cpu.gen .sp ∧
      ((if f.far then (f.ret.run h u).2.CsIs (s.cpu.seg .cs).sel
        else (f.ret.run h u).2.cpu.seg = s.cpu.seg) ↔
        (f.far = true → (s.pushes z (f.frame z s)).CsLoads (s.cpu.seg .cs).sel)) := by
  obtain ⟨⟨-, htables, hseg⟩, hcall, -⟩ := call_spec hh f hz hcode hsep
  have hres := hcall.trans hfol.toResumes
  have hzu : u.cpu.mode.opSize true = z := by
    rw [← hz]
    unfold Mode.opSize
    rw [hdata]
  unfold CallForm.ret
  cases hfar : f.far with
  | false =>
    obtain ⟨hnum, hsp⟩ := near_popped hres hsep hram hfar
    obtain ⟨hcpu, -, -⟩ := view_parts (congrArg Prod.snd (seen_retNear hh 0xc3 hzu))
    rw [if_neg Bool.false_ne_true, if_neg Bool.false_ne_true, hcpu, put_cpu]
    refine ⟨?_, hsp, iff_of_true ?_ fun h => absurd h Bool.false_ne_true⟩
    · rw [hnum]
    · dsimp only
      rw [popped_cpu, moveSp_seg, hfol.seg, hseg hfar]
  | true =>
    obtain ⟨hnum, hsel, hsp⟩ := far_popped hres hsep hram hfar
    have hv := seen_retFar hh 0xcb hzu
    have hback : (((s.cpu.seg .cs).sel.setWidth z.bits).setWidth 32).setWidth 16 =
        (s.cpu.seg .cs).sel := by
      apply BitVec.eq_of_toNat_eq
      rw [BitVec.toNat_setWidth, BitVec.toNat_setWidth, BitVec.toNat_setWidth]
      have hlt := (s.cpu.seg .cs).sel.isLt
      cases z with
      | byte => exact absurd hz (opSize_ne_byte _)
      | word => simp only [OpSize.bits]; omega
      | long => simp only [OpSize.bits]; omega
    rw [hnum, hsel, hback] at hv
    obtain ⟨hcpu, hmem, -⟩ := view_parts (congrArg Prod.snd hv)
    obtain ⟨-, hgen, -, -, -⟩ := wentFar_kept ((u.popped z.width).popped z.width)
      (s.cpu.seg .cs).sel (((f.next z s).setWidth z.bits).setWidth 32)
    rw [if_pos rfl, if_pos rfl]
    refine ⟨by rw [hcpu]; rfl, by rw [hcpu, hgen, hsp], ?_⟩
    have hcs := csIs_congr (s := ((u.popped z.width).popped z.width).wentFar
      (s.cpu.seg .cs).sel (((f.next z s).setWidth z.bits).setWidth 32))
      (t := ((Op.retFar 0xcb).run h u).2) (by rw [hcpu]) (by rw [hcpu])
      (by rw [hmem]; exact .refl _) (s.cpu.seg .cs).sel
    rw [hcs, wentFar_csIs, forall_prop_of_true rfl]
    refine csLoads_congr ?_ ?_ _
    · rw [popped_cpu, popped_cpu, moveSp_eq, moveSp_eq, pushes_tables]
      exact hfol.tables.trans htables
    · exact hres.mem.trans ((popped_marked u z).trans (popped_marked _ z))

/-- Calls and returns match exactly when the call is not through the stack pointer, the address of
the next instruction fits the operand size, and `CS` can be loaded by both far transfers. -/
theorem call_returns_iff (hsep : s.mem.Sep) (hram : s.StackRam z (f.frame z s).length)
    (hfol : Follows (f.handler.run h s).2 u) (hdata : u.cpu.mode.data32 = s.cpu.mode.data32) :
    CallReturns f z s (f.handler.run h s).2 (f.ret.run h u).2 ↔
      ¬f.ThroughSp s ∧ (z = .long ∨ (f.next z s).toNat < 0x10000) ∧
        (f.far = true → (s.pushes z (f.frame z s)).CsLoads (f.selector z s) ∧
          (s.pushes z (f.frame z s)).CsLoads (s.cpu.seg .cs).sel) := by
  have hne : z ≠ .byte := hz ▸ opSize_ne_byte s.cpu.mode
  obtain ⟨⟨heip, -, -⟩, -, hcs⟩ := call_spec hh f hz hcode hsep
  obtain ⟨hreip, hrsp, hrcs⟩ := ret_spec hh f hz hcode hsep hram hfol hdata
  have htarget : (f.handler.run h s).2.cpu.eip = (f.target z s).setWidth 32 ↔ ¬f.ThroughSp s := by
    rw [heip, setWidth_inj]
    exact jumpedTo_eq_iff hne
  have hnext : (f.ret.run h u).2.cpu.eip = f.next z s ↔
      z = .long ∨ (f.next z s).toNat < 0x10000 := by
    rw [hreip]
    exact next_eq_iff hne _
  constructor
  · intro hall
    refine ⟨htarget.mp hall.target, hnext.mp hall.eip, fun hfar => ⟨?_, ?_⟩⟩
    · exact (hcs hfar).mp (hall.targetCs hfar)
    · exact hrcs.mp hall.cs hfar
  · rintro ⟨hreg, hfits, hloads⟩
    exact ⟨htarget.mpr hreg, fun hfar => (hcs hfar).mpr (hloads hfar).1, hnext.mpr hfits, hrsp,
      hrcs.mpr fun hfar => (hloads hfar).2⟩

end

/-- After a reset, with a memory that holds one byte everywhere. -/
def callState (b : U8) : St where
  cpu := resetCpu
  mem := fullMem fun _ => b

theorem narrow_follows (p : St) : Follows p p.narrow := ⟨narrow_resumes p, rfl, rfl⟩

/-- A call of an immediate. -/
theorem call_returns_iff_imm :
    let h := defaultHost fun _ _ _ => 0
    let p := (CallForm.nearImm.handler.run h (callState 0)).2
    CallReturns .nearImm .word (callState 0) p (CallForm.nearImm.ret.run h p.narrow).2 := by
  intro h p
  have hh : h.Blind fun _ _ _ => 0 := (defaultHost_default _).blind
  have hfol : Follows p p.narrow := narrow_follows p
  exact (call_returns_iff hh .nearImm (s := callState 0) (z := .word) (by decide) trivial
    (fullMem_sep _) (fun _ _ => fullMem_ram _ _ _) hfol rfl).mpr
    ⟨fun hsp => absurd hsp.1 (by decide), Or.inr (by decide), fun hfar => absurd hfar (by decide)⟩

/-- `call sp` -/
theorem call_returns_fails :
    let h := defaultHost fun _ _ _ => 0
    let p := (CallForm.nearRm.handler.run h (callState 0xd4)).2
    CallForm.Encoded .nearRm (callState 0xd4) ∧ (callState 0xd4).StackRam .word 1 ∧
      ∀ t, ¬CallReturns .nearRm .word (callState 0xd4) p t := by
  intro h p
  have hmodrm : (callState 0xd4).modrm = ⟨3, 2, 4⟩ := by decide +kernel
  have hcode : CallForm.Encoded .nearRm (callState 0xd4) := congrArg ModRm.regh hmodrm
  refine ⟨hcode, fun _ _ => fullMem_ram _ _ _, fun t hall => ?_⟩
  have hh : h.Blind fun _ _ _ => 0 := (defaultHost_default _).blind
  have hspec := (call_spec hh .nearRm (z := .word) (by decide) hcode (fullMem_sep _)).1.1
  have hsame := setWidth_inj.mp (hspec.symm.trans hall.target)
  exact (jumpedTo_eq_iff (by decide)).mp hsame
    ⟨rfl, congrArg ModRm.mod hmodrm, congrArg ModRm.regl hmodrm⟩

end X86Emu
