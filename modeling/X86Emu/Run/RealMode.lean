import X86Emu.Effects.Frame
import X86Emu.Run.Api
import X86Emu.Run.Steps

/-!
# Segment registers in real mode

As long as `CR0.PE` is clear, the caches of the segment registers follow their selectors: the base
is 16 times the selector, limit and access bits are those of the reset. So every instruction
starts with all mode bits clear. Segment registers are only loaded by
`x86emu_set_seg_register`, and no instruction both loads one and writes a control register.
-/

namespace X86Emu

open Lib

/-- The cache of a selector in real mode. -/
def realSel (r : SegReg) (sel : U16) : Sel :=
  { sel, base := 16 * sel.setWidth 32, limit := 0xffff, acc := (resetSel r).acc }

/-- All segment registers have real mode caches. -/
def Cpu.RealSegs (c : Cpu) : Prop := ∀ r, r ≠ .noseg → c.seg r = realSel r (c.seg r).sel

/-- Real mode with real mode caches. -/
structure InReal (s : St) : Prop where
  real : s.cpu.prot = false
  segs : s.cpu.RealSegs

/-- The segment registers are the same, and protected mode is not entered: what the handlers of the
host have to keep. -/
structure LeavesSegs (s t : St) : Prop where
  seg : t.cpu.seg = s.cpu.seg
  real : s.cpu.prot = false → t.cpu.prot = false

/-! ## Loads in real mode -/

/-- The selector and the base of a cache are written. -/
def Sel.loadReal (v : Sel) (val : U16) : Sel := { v with sel := val, base := val.setWidth 32 <<< 4 }

theorem shiftLeft_four (v : U32) : v <<< 4 = 16 * v := by
  rw [BitVec.shiftLeft_eq_mul_twoPow, BitVec.mul_comm]
  rfl

theorem setSegRegister_real {h : Host} {s : St} (hreal : s.cpu.prot = false) (ref : SelRef)
    (val : U16) :
    ((x86emuSetSegRegister ref val).run h s).2 =
      { s with cpu := s.cpu.setSel ref ((s.cpu.getSel ref).loadReal val) } := by
  unfold x86emuSetSegRegister
  rw [Prog.run_bind, Prog.run_ite, if_neg]
  · rfl
  · show ¬s.cpu.prot = true
    rw [hreal]
    exact Bool.false_ne_true

theorem Cpu.RealSegs.setSel {c : Cpu} (hc : c.RealSegs) (ref : SelRef) (val : U16) :
    (c.setSel ref ((c.getSel ref).loadReal val)).RealSegs := by
  cases ref with
  | ldt => exact hc
  | seg r =>
    intro r' hr'
    show Function.update c.seg r _ r' = realSel r' (Function.update c.seg r _ r').sel
    by_cases heq : r' = r
    · subst heq
      rw [Function.update_self]
      show (c.seg r').loadReal val = realSel r' val
      rw [hc r' hr']
      unfold Sel.loadReal
      rw [shiftLeft_four]
      rfl
    · rw [Function.update_of_ne heq]
      exact hc r' hr'

/-! ## Relations kept by programs -/

/-- Real mode with its caches is not left. -/
def StaysReal (s t : St) : Prop := InReal s → InReal t

namespace StaysReal

theorem of_leaves {s t : St} (hst : LeavesSegs s t) : StaysReal s t := by
  intro hs
  refine ⟨hst.real hs.real, ?_⟩
  unfold Cpu.RealSegs
  rw [hst.seg]
  exact hs.segs

theorem of_eq {s t : St} (hseg : t.cpu.seg = s.cpu.seg) (hcrx : t.cpu.crx = s.cpu.crx) :
    StaysReal s t :=
  of_leaves ⟨hseg, fun hs => by unfold Cpu.prot at hs ⊢; rw [hcrx]; exact hs⟩

variable {h : Host} (hh : h.Respects LeavesSegs)

include hh

theorem logBlind : LogBlind h StaysReal where
  refl _ hs := hs
  trans h₁ h₂ hs := h₂ (h₁ hs)
  log _ _ := of_eq rfl rfl
  flush hf s t := of_leaves (hh.flush hf s t)

theorem callMemio (kind : MemioKind) (bits : MemioBits) (addr val : U32) (s : St) :
    StaysReal s (callMemio kind bits addr val h s).2 := by
  obtain ⟨hseg, hreal⟩ := hh.memio s kind bits addr val
  exact of_leaves ⟨hseg, hreal⟩

/-- All primitive operations but the writes to control registers. -/
theorem keeps : Keeps h StaysReal (true, true, true, true, true, false) := KeepsRule.keeps {
  toLogBlind := logBlind hh
  aside := fun hst => by
    cases hst
    exact of_eq rfl rfl
  read := fun _ width addr val s => callMemio hh _ _ addr val s
  write := fun _ width addr val s => callMemio hh _ _ addr val s
  data := fun _ _ hdata s => by cases hdata <;> exact of_eq rfl rfl
  flags := fun _ _ _ _ => of_eq rfl rfl
  eflg := fun _ _ _ => of_eq rfl rfl
  seg := fun _ ref val s hs => by
    rw [setSegRegister_real hs.real]
    refine ⟨?_, hs.segs.setSel ref val⟩
    cases ref <;> exact hs.real
  crx := fun hf => absurd hf (by decide)
  cpuid := fun _ _ hf s => of_leaves (hh.cpuid hf s)
  rdmsr := fun _ _ hf s => of_leaves (hh.rdmsr hf s)
  wrmsr := fun _ _ hf s => of_leaves (hh.wrmsr hf s) }

/-- Outside the opcode handlers real mode is not left. -/
theorem quietRule : QuietRule h StaysReal where
  toLogBlind := logBlind hh
  reset _ := of_eq rfl rfl
  quiet {s t} hq := by
    cases hq with
    | cpu hf =>
      obtain ⟨_, _, _, _, _, _, heq⟩ := hf s.cpu
      exact of_eq (by rw [heq]) (by rw [heq])
    | fetch => exact (keeps hh).does fetchByte (by decide) _
    | peek addr => exact callMemio hh _ _ addr _ _
    | codeCheck hf => exact of_leaves (hh.codeCheck hf _)
    | _ => exact of_eq rfl rfl
  delivery hst := by
    cases hst with
    | intr hf nr type => exact of_leaves (hh.intr hf _ nr type)
    | frame nr type err => exact (keeps hh).does (deliverInt nr type err) (by decide) _
    | _ => exact of_eq rfl rfl

end StaysReal

/-! ## Instructions -/

/-- The segment registers are the same. -/
def SameSegs (s t : St) : Prop := t.cpu.seg = s.cpu.seg

/-- Without a load of a segment register they stay. -/
theorem SameSegs.keeps {h : Host} (hh : h.Respects LeavesSegs) :
    Keeps h SameSegs (true, true, true, true, false, true) := KeepsRule.keeps {
  refl := fun _ => rfl
  trans := fun h₁ h₂ => Eq.trans h₂ h₁
  log := fun _ _ => rfl
  flush := fun hf s t => (hh.flush hf s t).seg
  aside := fun hst => by
    cases hst
    rfl
  read := fun _ width addr val s => (hh.memio s _ _ addr val).seg
  write := fun _ width addr val s => (hh.memio s _ _ addr val).seg
  data := fun _ _ hdata s => by cases hdata <;> rfl
  flags := fun _ _ _ _ => rfl
  eflg := fun _ _ _ => rfl
  seg := fun hf => absurd hf (by decide)
  crx := fun _ _ _ _ => rfl
  cpuid := fun _ _ hf s => (hh.cpuid hf s).seg
  rdmsr := fun _ _ hf s => (hh.rdmsr hf s).seg
  wrmsr := fun _ _ hf s => (hh.wrmsr hf s).seg }

/-- An instruction after which `CR0.PE` is clear keeps the caches: it either loads no segment
register, or it writes no control register. -/
theorem runHandler_inReal {h : Host} (hh : h.Respects LeavesSegs) {op1 : U8} {s : St}
    (hs : InReal s) (hreal : (runHandler h op1 s).cpu.prot = false) :
    InReal (runHandler h op1 s) := by
  have hsame : ∀ {t}, SameSegs s t → t.cpu.prot = false → InReal t := by
    intro t hseg ht
    refine ⟨ht, ?_⟩
    unfold Cpu.RealSegs
    rw [hseg]
    exact hs.segs
  by_cases hop1 : op1 = 0x0f
  · subst hop1
    have hfetch := (StaysReal.keeps hh).does fetchByte (by decide) s hs
    have hsegs := (SameSegs.keeps hh).does fetchByte (by decide) s
    rw [runHandler_twoByte] at hreal ⊢
    generalize fetchByte.run h s = p at *
    have hsplit : ∀ op2 : U8, effects2 op2.toNat ≤ (true, true, true, true, true, false) ∨
        effects2 op2.toNat ≤ (true, true, true, true, false, true) := by decide +kernel
    rcases hsplit p.1 with hf | hf
    · exact (StaysReal.keeps hh).graded (handler2_does p.1) hf p.2 hfetch
    · exact hsame ((SameSegs.keeps hh).trans hsegs
        ((SameSegs.keeps hh).graded (handler2_does p.1) hf p.2)) hreal
  · have hall : ∀ op1 : U8, op1 ≠ 0x0f →
        effects1 op1.toNat ≤ (true, true, true, true, true, false) := by decide +kernel
    exact (StaysReal.keeps hh).handler (hall op1 hop1) s hs

/-! ## Whole runs -/

/-- No instruction of the run sets `CR0.PE`. -/
def NeverProtected (h : Host) (e : RunEnv) (n : Nat) (rs : U32) (s : St) : Prop :=
  ∀ p ∈ executed h e n rs s,
    (runHandler h p.1 { p.2 with hist := .instr p.1 :: p.2.hist }).cpu.prot = false

theorem runLoop_inReal {h : Host} (hh : h.Respects LeavesSegs) {e : RunEnv} {n : Nat} {rs : U32}
    {s : St} (hnever : NeverProtected h e n rs s) (hs : InReal s) :
    InReal (runLoop h e n rs s).2 := by
  have hrule := StaysReal.quietRule hh
  refine hrule.runLoop_executed e n rs s (fun p hp _ hp₂ => ?_) hs
  have hstart : InReal { p.2 with hist := .instr p.1 :: p.2.hist } := ⟨hp₂.real, hp₂.segs⟩
  have hdone := hrule.finish e _ (runHandler_inReal hh hstart (hnever p hp))
  exact ⟨hdone.real, hdone.segs⟩

theorem reset_inReal (s : St) : InReal (x86emuReset s) := by
  have hreal : resetCpu.prot = false := by decide
  refine ⟨hreal, ?_⟩
  intro r hr
  cases r with
  | noseg => exact absurd rfl hr
  | _ => rfl

/-- In real mode with its caches an instruction starts with all mode bits clear. -/
theorem InReal.startMode {s : St} (hs : InReal s) : (startInstr s).cpu.mode = {} := by
  have hcs := hs.segs .cs (by decide)
  have hss := hs.segs .ss (by decide)
  have hcode : accD (resetSel .cs).acc = false := by decide
  have hstack : accD (resetSel .ss).acc = false := by decide
  show s.cpu.startMode = {}
  unfold Cpu.startMode
  rw [hcs, hss]
  show (⟨false, false, false, accD (resetSel .cs).acc, accD (resetSel .cs).acc,
    accD (resetSel .ss).acc, accD (resetSel .cs).acc, false⟩ : Mode) = {}
  rw [hcode, hstack]

/-- At all instruction boundaries of a run from the reset in which `CR0.PE` is never set, the
segment registers have real mode caches, and the next instruction starts with all mode bits
clear. -/
theorem reset_run_realSegs {h : Host} (hh : h.Respects LeavesSegs) (flags : U32) (fuel n : Nat)
    (s : St) (hnever : NeverProtected h (beginRun h flags fuel (x86emuReset s)).1 n 0
      (beginRun h flags fuel (x86emuReset s)).2) :
    let (e, s₀) := beginRun h flags fuel (x86emuReset s)
    let t := (runLoop h e n 0 s₀).2
    t.cpu.RealSegs ∧ (startInstr t).cpu.mode = {} := by
  have hbegin := (StaysReal.quietRule hh).steps (Steps.beginRun flags fuel (x86emuReset s))
    (reset_inReal s)
  have hrun := runLoop_inReal hh hnever hbegin
  exact ⟨hrun.segs, hrun.startMode⟩

/-- A run from the reset over a memory of far calls. -/
theorem reset_run_realSegs_calls :
    let h := defaultHost fun _ _ _ => 0
    let (e, s₀) := beginRun h 0 5 (x86emuReset { mem := fullMem fun _ => 0x9a })
    let t := (runLoop h e 3 0 s₀).2
    t.cpu.RealSegs ∧ (startInstr t).cpu.mode = {} :=
  reset_run_realSegs (defaultHost_respects _ (fun _ _ _ => ⟨rfl, id⟩) (fun _ => ⟨rfl, id⟩)
    fun _ => ⟨rfl, id⟩) 0 5 3 { mem := fullMem fun _ => 0x9a } (by
    unfold NeverProtected
    decide +kernel)

end X86Emu
