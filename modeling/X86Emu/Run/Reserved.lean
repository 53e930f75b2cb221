import X86Emu.Effects.Frame
import X86Emu.Run.Api

/-!
# Reserved flag bits

Bit 1 of `EFLAGS` is 1 and the bits 3, 5 and 15 are 0 after the reset. Arithmetic and interrupts
write single flags, none of which is one of these bits. POPF, IRET and SAHF load `EFLAGS` from the
stack or from AH: they set bit 1, but they do not clear the others.
-/

namespace X86Emu

open Lib

/-- Bit 1 is 1, and the bits 3, 5 and 15 are 0. -/
structure ReservedOk (fl : U32) : Prop where
  bit1 : fl.getLsbD 1 = true
  bit3 : fl.getLsbD 3 = false
  bit5 : fl.getLsbD 5 = false
  bit15 : fl.getLsbD 15 = false

instance (fl : U32) : Decidable (ReservedOk fl) :=
  decidable_of_iff (fl.getLsbD 1 = true ∧ fl.getLsbD 3 = false ∧ fl.getLsbD 5 = false ∧
    fl.getLsbD 15 = false)
    ⟨fun ⟨h1, h3, h5, h15⟩ => ⟨h1, h3, h5, h15⟩, fun h => ⟨h.bit1, h.bit3, h.bit5, h.bit15⟩⟩

/-- The flags are the same: what the handlers of the host have to keep. -/
def LeavesFlags (s t : St) : Prop := t.cpu.eflg = s.cpu.eflg

/-- The reserved bits are not spoiled. -/
def StaysReserved (s t : St) : Prop := ReservedOk s.cpu.eflg → ReservedOk t.cpu.eflg

/-! ## Flag programs -/

/-- A flag program only writes the named flags. -/
theorem flagOp_bit {α : Type} (x : FlagOp α) (fl : U32) {i : Nat} (hi : ∀ f : Flag, i ≠ f.bit) :
    (x.run () fl).2.getLsbD i = fl.getLsbD i := by
  have hrefl : ∀ fl : U32, fl.getLsbD i = fl.getLsbD i := fun _ => rfl
  have htrans : ∀ {fl₁ fl₂ fl₃ : U32}, fl₂.getLsbD i = fl₁.getLsbD i →
      fl₃.getLsbD i = fl₂.getLsbD i → fl₃.getLsbD i = fl₁.getLsbD i := fun h₁ h₂ => h₂.trans h₁
  refine x.invariant (R := fun fl fl' => fl'.getLsbD i = fl.getLsbD i) hrefl htrans ?_ fl
  intro β y hy fl
  have hmask : ∀ f : Flag, (Flag.mask f).getLsbD i = false := by
    intro f
    unfold Flag.mask
    rw [BitVec.getLsbD_twoPow]
    simp [Ne.symm (hi f)]
  cases hy with
  | access f => rfl
  | set f => simp [hmask]
  | clear f =>
    by_cases hlt : i < 32
    · rw [BitVec.getLsbD_and, BitVec.getLsbD_not, hmask]
      simp [hlt]
    · simp [BitVec.getLsbD_of_ge fl i (Nat.le_of_not_lt hlt)]
  | toggle f => simp [hmask]

theorem ReservedOk.flags {α : Type} (x : FlagOp α) {fl : U32} (hfl : ReservedOk fl) :
    ReservedOk (x.run () fl).2 where
  bit1 := (flagOp_bit x fl (by intro f; cases f <;> decide)).trans hfl.bit1
  bit3 := (flagOp_bit x fl (by intro f; cases f <;> decide)).trans hfl.bit3
  bit5 := (flagOp_bit x fl (by intro f; cases f <;> decide)).trans hfl.bit5
  bit15 := (flagOp_bit x fl (by intro f; cases f <;> decide)).trans hfl.bit15

/-! ## Relations kept by programs -/

namespace StaysReserved

theorem of_leaves {s t : St} (hst : LeavesFlags s t) : StaysReserved s t := by
  intro hs
  rw [hst]
  exact hs

variable {h : Host} (hh : h.Respects LeavesFlags)

include hh

theorem logBlind : LogBlind h StaysReserved where
  refl _ hs := hs
  trans h₁ h₂ hs := h₂ (h₁ hs)
  log _ _ hs := hs
  flush hf s t := of_leaves (hh.flush hf s t)

theorem callMemio (kind : MemioKind) (bits : MemioBits) (addr val : U32) (s : St) :
    StaysReserved s (callMemio kind bits addr val h s).2 := by
  have hmem : (h.memio s kind bits addr val).2.cpu.eflg = s.cpu.eflg :=
    hh.memio s kind bits addr val
  exact of_leaves hmem

/-- All primitive operations but the loads of `EFLAGS`. -/
theorem keeps : Keeps h StaysReserved (true, true, true, false, true, true) := by
  refine Keeps.withSeg (g := (true, true, true, false, false, true)) (KeepsRule.keeps ?_)
    fun ref _ _ hs => by cases ref <;> exact hs
  exact {
    toLogBlind := logBlind hh
    aside := fun hst hs => by
      cases hst
      exact hs
    read := fun _ width addr val s => callMemio hh _ _ addr val s
    write := fun _ width addr val s => callMemio hh _ _ addr val s
    data := fun _ _ hdata _ hs => by cases hdata <;> exact hs
    flags := fun _ _ x _ hs => hs.flags x
    eflg := fun hf => absurd hf (by decide)
    seg := fun hf => absurd hf (by decide)
    crx := fun _ _ _ _ hs => hs
    cpuid := fun _ _ hf s => of_leaves (hh.cpuid hf s)
    rdmsr := fun _ _ hf s => of_leaves (hh.rdmsr hf s)
    wrmsr := fun _ _ hf s => of_leaves (hh.wrmsr hf s) }

theorem quietRule : QuietRule h StaysReserved where
  toLogBlind := logBlind hh
  reset _ hs := hs
  quiet {s t} hq := by
    cases hq with
    | cpu hf =>
      obtain ⟨_, _, _, _, _, _, heq⟩ := hf s.cpu
      exact of_leaves (by unfold LeavesFlags; rw [heq])
    | fetch => exact (keeps hh).does fetchByte (by decide) _
    | peek addr => exact callMemio hh _ _ addr _ _
    | codeCheck hf => exact of_leaves (hh.codeCheck hf _)
    | _ => exact fun hs => hs
  delivery hst := by
    cases hst with
    | intr hf nr type => exact of_leaves (hh.intr hf _ nr type)
    | frame nr type err => exact (keeps hh).does (deliverInt nr type err) (by decide) _
    | _ => exact fun hs => hs

end StaysReserved

/-! ## Loads of the flags -/

/-- What POPF, IRET and SAHF load, POPF and IRET from the stack. Other instructions load nothing. -/
def flagsImage (op1 : U8) : Emu U32 := do
  if op1 = 0x9d then
    if (← getMode).data32 then
      opDecode "popfd"
      popLong
    else
      opDecode "popf"
      return (← popWord).setWidth 32
  else if op1 = 0xcf then
    opDecode "iret"
    let _ ← Op.popData
    let _ ← Op.popData
    Op.popData
  else if op1 = 0x9e then
    opDecode "sahf"
    return (← get8 .ah).setWidth 32
  else
    return 0

/-- The instruction loads a flags image with bit 3, 5 or 15 set; SAHF only loads the low byte. -/
def loadsReserved (h : Host) (op1 : U8) (s : St) : Prop :=
  ¬ReservedOk (((flagsImage op1).run h s).1 ||| fAlwaysOn)

instance (h : Host) (op1 : U8) (s : St) : Decidable (loadsReserved h op1 s) :=
  inferInstanceAs (Decidable ¬_)

theorem popf_run (h : Host) (s : St) :
    runHandler h 0x9d s =
      let p := (flagsImage 0x9d).run h s
      { p.2 with cpu := { p.2.cpu with eflg := p.1 ||| fAlwaysOn } } := by
  show ((Op.popfWord 0x9d).run h s).2 = _
  unfold Op.popfWord flagsImage
  rw [if_pos rfl, Prog.run_bind, Prog.run_bind, Prog.run_ite, Prog.run_ite]
  split <;> rfl

theorem iret_run (h : Host) (s : St) :
    ∃ cs eip, runHandler h 0xcf s =
      let p := (flagsImage 0xcf).run h s
      ((Op.farTransfer cs eip).run h
        { p.2 with cpu := { p.2.cpu with eflg := p.1 ||| fAlwaysOn } }).2 := by
  show ∃ cs eip, ((Op.iret 0xcf).run h s).2 = _
  unfold flagsImage Op.iret
  rw [if_neg (by decide), if_pos rfl]
  simp only [Prog.run_bind]
  generalize (opDecode "iret").run h s = p₀
  generalize Op.popData.run h p₀.2 = p₁
  generalize Op.popData.run h p₁.2 = p₂
  generalize Op.popData.run h p₂.2 = p₃
  exact ⟨_, _, rfl⟩

theorem sahf_run (h : Host) (s : St) :
    (runHandler h 0x9e s).cpu.eflg =
      (s.cpu.eflg &&& 0xffffff00) |||
        ((((flagsImage 0x9e).run h s).1 ||| fAlwaysOn) &&& 0xff) := by
  unfold flagsImage
  rw [if_neg (by decide), if_neg (by decide), if_pos rfl]
  rfl

theorem runHandler_reserved {h : Host} (hh : h.Respects LeavesFlags) {op1 : U8} {s : St}
    (hload : ¬loadsReserved h op1 s) : StaysReserved s (runHandler h op1 s) := by
  have hkeeps := StaysReserved.keeps hh
  rw [loadsReserved, not_not] at hload
  by_cases hpopf : op1 = 0x9d
  · subst hpopf
    intro _
    rw [popf_run]
    exact hload
  by_cases hiret : op1 = 0xcf
  · subst hiret
    obtain ⟨cs, eip, hrun⟩ := iret_run h s
    intro _
    rw [hrun]
    exact hkeeps.does (Op.farTransfer cs eip) (by decide) _ hload
  by_cases hsahf : op1 = 0x9e
  · subst hsahf
    intro hs
    rw [sahf_run]
    obtain ⟨h1, h3, h5, h15⟩ := hload
    generalize ((flagsImage 0x9e).run h s).1 ||| fAlwaysOn = v at *
    constructor
    · simp [h1]
    · simpa using h3
    · simpa using h5
    · simpa using hs.bit15
  by_cases hop1 : op1 = 0x0f
  · subst hop1
    have hfetch := hkeeps.does fetchByte (by decide) s
    have hall : ∀ op2 : U8, effects2 op2.toNat ≤ (true, true, true, false, true, true) := by
      decide +kernel
    rw [runHandler_twoByte]
    exact hkeeps.trans hfetch (hkeeps.graded (handler2_does _) (hall _) _)
  · have hall : ∀ op1 : U8, op1 ≠ 0x9d → op1 ≠ 0xcf → op1 ≠ 0x9e → op1 ≠ 0x0f →
        effects1 op1.toNat ≤ (true, true, true, false, true, true) := by decide +kernel
    exact hkeeps.handler (hall op1 hpopf hiret hsahf hop1) s

/-! ## Whole runs -/

/-- No instruction of the run loads a flags image with bit 3, 5 or 15 set. -/
def NoneLoadsReserved (h : Host) (e : RunEnv) (n : Nat) (rs : U32) (s : St) : Prop :=
  ∀ p ∈ executed h e n rs s, ¬loadsReserved h p.1 { p.2 with hist := .instr p.1 :: p.2.hist }

theorem runLoop_reserved {h : Host} (hh : h.Respects LeavesFlags) {e : RunEnv} {n : Nat} {rs : U32}
    {s : St} (hnone : NoneLoadsReserved h e n rs s) : StaysReserved s (runLoop h e n rs s).2 := by
  have hrule := StaysReserved.quietRule hh
  refine hrule.runLoop_executed e n rs s fun p hp _ hs => ?_
  exact hrule.finish e _ (runHandler_reserved hh (hnone p hp) hs)

/-! ## Images -/

theorem ReservedOk.image {fl : U32} (hfl : ReservedOk fl) (mask : U32) :
    ReservedOk ((fl &&& mask) ||| fAlwaysOn) := by
  obtain ⟨-, h3, h5, h15⟩ := hfl
  constructor
  · rw [BitVec.getLsbD_or, Bool.or_eq_true]
    exact Or.inr (by decide)
  · rw [BitVec.getLsbD_or, BitVec.getLsbD_and, h3, Bool.false_and]
    decide
  · rw [BitVec.getLsbD_or, BitVec.getLsbD_and, h5, Bool.false_and]
    decide
  · rw [BitVec.getLsbD_or, BitVec.getLsbD_and, h15, Bool.false_and]
    decide

theorem ReservedOk.alwaysOn {fl : U32} (hfl : ReservedOk fl) : ReservedOk (fl ||| fAlwaysOn) := by
  have himage := hfl.image (BitVec.allOnes 32)
  rwa [BitVec.and_allOnes] at himage

/-- A value of the size of a stack slot is pushed, cut to it. -/
def pushCut (long : Bool) (v : U32) : Emu Unit :=
  if long then pushLong v else pushWord (v.setWidth 16)

/-- A frame that `generate_int` is about to push: the state, the interrupt, `CS` and `EIP` in the
frame, and the new ones. -/
structure Frame where
  start : St
  intr : Intr
  ret : U32 × U32
  new : U32 × U32

/-- The frame of the interrupt that waits, when the host does not handle it. -/
def frameStart (h : Host) (s : St) : Option Frame :=
  if s.intr.type = 0 then none
  else
    let s := logLine 128 (·.has traceInts) (fun s => intText s.intr) h s
    let (handled, t) := callIntr s.intr.nr s.intr.type h { s with
      intrStats := Function.update s.intrStats s.intr.nr (s.intrStats s.intr.nr + 1)
      hist := .deliver s.intr.nr s.intr.type :: s.hist }
    if handled then none
    else
      let ret := t.cpu.returnAddr s.intr.type
      let (new, u) := (idtLookup s.intr.nr ret.1 ret.2).run h t
      some ⟨u, s.intr, ret, new⟩

/-- The frame with a given flags image, and what `generate_int` does after it. -/
def Frame.deliver (f : Frame) (fl : U32) : Emu Unit := do
  let long := f.start.cpu.prot && f.start.cpu.mode.code32
  pushCut long fl
  pushCut long f.ret.1
  pushCut long f.ret.2
  if f.intr.type &&& intrModeErrcode ≠ 0 then pushLong f.intr.errcode
  flags (clearFlag .if')
  flags (clearFlag .tf)
  x86emuSetSegRegister (.seg .cs) (f.new.1.setWidth 16)
  setEip f.new.2

/-- The flags images that the instruction and the delivery after it give away are those of a value
with the reserved bits right: PUSHF pushes it, LAHF puts its low byte into `AH`, and the interrupt
frame begins with it. -/
structure ImagesOk (h : Host) (op1 : U8) (s : St) : Prop where
  pushf : op1 = 0x9c → ∃ fl, ReservedOk fl ∧ runHandler h op1 s = ((do
    opDecode (if s.cpu.mode.data32 then "pushfd" else "pushf")
    pushCut s.cpu.mode.data32 fl : Emu Unit).run h s).2
  lahf : op1 = 0x9f → ∃ fl, ReservedOk fl ∧ runHandler h op1 s = ((do
    opDecode "lahf"
    set8 .ah (fl.setWidth 8) : Emu Unit).run h s).2
  frame : ∀ f, frameStart h (runHandler h op1 s) = some f → ∃ fl t, ReservedOk fl ∧
    t = ((f.deliver fl).run h f.start).2 ∧
      handleInterrupt h (runHandler h op1 s) = { t with intr := { t.intr with type := 0 } }

theorem pushf_image {h : Host} {s : St} (hs : ReservedOk s.cpu.eflg) :
    ∃ fl, ReservedOk fl ∧ runHandler h 0x9c s = ((do
      opDecode (if s.cpu.mode.data32 then "pushfd" else "pushf")
      pushCut s.cpu.mode.data32 fl : Emu Unit).run h s).2 := by
  refine ⟨_, hs.image (if h.cpuid.isSome then fMsk ||| fbId else fMsk), ?_⟩
  show ((Op.pushfWord 0x9c).run h s).2 = _
  unfold Op.pushfWord
  simp only [Prog.run_bind]
  rw [Prog.run_ite]
  show (if s.cpu.mode.data32 = true then _ else _ : Unit × St).2 = _
  cases s.cpu.mode.data32 <;> rfl

theorem lahf_image {h : Host} {s : St} (hs : ReservedOk s.cpu.eflg) :
    ∃ fl, ReservedOk fl ∧ runHandler h 0x9f s = ((do
      opDecode "lahf"
      set8 .ah (fl.setWidth 8) : Emu Unit).run h s).2 :=
  ⟨_, hs.alwaysOn, rfl⟩

/-- The frame begins with the flags of the state it is pushed in. -/
theorem pushFrame_run (h : Host) (cs eip : U32) (u : St) : (pushFrame cs eip).run h u = ((do
    pushCut (u.cpu.prot && u.cpu.mode.code32) u.cpu.eflg
    pushCut (u.cpu.prot && u.cpu.mode.code32) cs
    pushCut (u.cpu.prot && u.cpu.mode.code32) eip : Emu Unit).run h u) := by
  unfold pushFrame
  simp only [Prog.run_bind]
  rw [Prog.run_ite]
  show (if (u.cpu.prot && u.cpu.mode.code32) = true then _ else _ : Unit × St) = _
  cases u.cpu.prot && u.cpu.mode.code32 <;> rfl

theorem deliverInt_run (h : Host) (i : Intr) (t : St) :
    let ret := t.cpu.returnAddr i.type
    let p := (idtLookup i.nr ret.1 ret.2).run h t
    (deliverInt i.nr i.type i.errcode).run h t =
      (Frame.deliver ⟨p.2, i, ret, p.1⟩ p.2.cpu.eflg).run h p.2 := by
  intro ret p
  unfold deliverInt
  show (do
    pushFrame ret.1 ret.2
    if i.type &&& intrModeErrcode ≠ 0 then pushLong i.errcode
    flags (clearFlag .if')
    flags (clearFlag .tf)
    x86emuSetSegRegister (.seg .cs) (p.1.1.setWidth 16)
    setEip p.1.2 : Emu Unit).run h p.2 = _
  rw [Prog.run_bind, pushFrame_run]
  rfl

theorem handleInterrupt_frame {h : Host} {s : St} {f : Frame} (hf : frameStart h s = some f) :
    handleInterrupt h s = { ((f.deliver f.start.cpu.eflg).run h f.start).2 with
      intr := { ((f.deliver f.start.cpu.eflg).run h f.start).2.intr with type := 0 } } := by
  unfold frameStart at hf
  unfold handleInterrupt generateInt
  by_cases hnone : s.intr.type = 0
  · rw [if_pos hnone] at hf
    cases hf
  · rw [if_neg hnone] at hf ⊢
    dsimp only at hf ⊢
    generalize logLine 128 (·.has traceInts) (fun s => intText s.intr) h s = v at hf ⊢
    generalize callIntr v.intr.nr v.intr.type h _ = p at hf ⊢
    obtain ⟨handled, t⟩ := p
    cases handled with
    | true => cases hf
    | false =>
      cases hf
      rw [if_neg Bool.false_ne_true, deliverInt_run]

section

variable {h : Host} (hh : h.Respects LeavesFlags)

include hh

theorem frameStart_reserved {s : St} {f : Frame} (hf : frameStart h s = some f)
    (hs : ReservedOk s.cpu.eflg) : ReservedOk f.start.cpu.eflg := by
  have hline :=
    (StaysReserved.logBlind hh).line 128 (·.has traceInts) (fun s => intText s.intr) s hs
  unfold frameStart at hf
  by_cases hnone : s.intr.type = 0
  · rw [if_pos hnone] at hf
    cases hf
  · rw [if_neg hnone] at hf
    dsimp only at hf
    generalize logLine 128 (·.has traceInts) (fun s => intText s.intr) h s = v at hf hline
    have hcall : ∀ t p, callIntr v.intr.nr v.intr.type h t = p → t.cpu = v.cpu →
        ReservedOk p.2.cpu.eflg := by
      rintro t p rfl ht
      have hkept : LeavesFlags t (callIntr v.intr.nr v.intr.type h t).2 := by
        unfold callIntr
        split
        · next f hintr => exact hh.intr hintr t _ _
        · rfl
      rw [hkept, ht]
      exact hline
    generalize hp : callIntr v.intr.nr v.intr.type h _ = p at hf
    have hflags := hcall _ p hp rfl
    obtain ⟨handled, t⟩ := p
    cases handled with
    | true => cases hf
    | false =>
      cases hf
      exact (StaysReserved.keeps hh).does (idtLookup _ _ _) (by decide) t hflags

/-- Where the reserved bits are right and stay so, the images are right. -/
theorem imagesOk {op1 : U8} {s : St} (hload : ¬loadsReserved h op1 s)
    (hs : ReservedOk s.cpu.eflg) : ImagesOk h op1 s where
  pushf := by
    rintro rfl
    exact pushf_image hs
  lahf := by
    rintro rfl
    exact lahf_image hs
  frame f hf := ⟨f.start.cpu.eflg, _,
    frameStart_reserved hh hf (runHandler_reserved hh hload hs), rfl, handleInterrupt_frame hf⟩

end

/-- At all instruction boundaries of a run from the reset in which no instruction loads a flags
image with reserved bits set, the reserved bits of `EFLAGS` are right, and so are those of all
images that its instructions and the interrupts after them give away. -/
theorem reset_run_reserved {h : Host} (hh : h.Respects LeavesFlags) (flags : U32) (fuel n : Nat)
    (s : St) (hnone : NoneLoadsReserved h (beginRun h flags fuel (x86emuReset s)).1 n 0
      (beginRun h flags fuel (x86emuReset s)).2) :
    let (e, s₀) := beginRun h flags fuel (x86emuReset s)
    ReservedOk (runLoop h e n 0 s₀).2.cpu.eflg ∧
      ∀ p ∈ executed h e n 0 s₀, ImagesOk h p.1 { p.2 with hist := .instr p.1 :: p.2.hist } := by
  have hreset : ReservedOk (x86emuReset s).cpu.eflg := by
    show ReservedOk 2
    decide
  have hrule := StaysReserved.quietRule hh
  have hbegin := hrule.steps (Steps.beginRun flags fuel (x86emuReset s)) hreset
  refine ⟨runLoop_reserved hh hnone hbegin, fun p hp => ?_⟩
  have hdispatch := hrule.dispatched _ n 0 _
    (fun q hq hs => hrule.finish _ _ (runHandler_reserved hh (hnone q hq) hs)) p hp hbegin
  exact imagesOk hh (hnone p hp) hdispatch

/-- PUSHF right after the reset. -/
theorem reset_run_reserved_pushf :
    let h := defaultHost fun _ _ _ => 0
    let (e, s₀) := beginRun h 0 5 (x86emuReset { mem := fullMem fun _ => 0x9c })
    ReservedOk (runLoop h e 3 0 s₀).2.cpu.eflg ∧
      ∀ p ∈ executed h e 3 0 s₀, ImagesOk h p.1 { p.2 with hist := .instr p.1 :: p.2.hist } :=
  reset_run_reserved (defaultHost_respects _ (fun _ _ _ => rfl) (fun _ => rfl) fun _ => rfl) 0 5 3
    { mem := fullMem fun _ => 0x9c } (by
      unfold NoneLoadsReserved
      decide +kernel)

/-- POPF right after the reset, with 0x9d9d on the stack, sets bits 3 and 15. -/
theorem reset_run_reserved_fails :
    ¬∀ h : Host, h.Respects LeavesFlags → ∀ (flags : U32) (fuel n : Nat) (s : St),
      let (e, s₀) := beginRun h flags fuel (x86emuReset s)
      ReservedOk (runLoop h e n 0 s₀).2.cpu.eflg := by
  intro hclaim
  have hpopf := hclaim (defaultHost fun _ _ _ => 0)
    (defaultHost_respects _ (fun _ _ _ => rfl) (fun _ => rfl) fun _ => rfl) 0 5 1
    { mem := fullMem fun _ => 0x9d }
  revert hpopf
  decide +kernel

end X86Emu
