import X86Emu.Effects.Unchanged
import X86Emu.Run.Api
import X86Emu.Run.View

/-!
# The instruction limit

With `X86EMU_RUN_MAX_INSTR` a run stops as soon as the time stamp counter reaches `max_instr`. The
counter is the guest's `msr[0x10]`. Everything but the default WRMSR handler leaves it alone until
the instruction is over, so a run in which no WRMSR lowers the counter, or sets it to the value
that the next increment wraps to 0, executes at most `max_instr - R_TSC` instructions.
-/

namespace X86Emu

open Lib

/-! ## Counting instructions -/

def Event.isInstr : Event → Bool
  | .instr _ => true
  | _ => false

/-- How many instructions have been executed. -/
def St.instrs (s : St) : Nat := s.hist.countP Event.isInstr

/-- The counter, the limit and the number of instructions are the same. -/
structure SameBudget (s t : St) : Prop where
  tsc : t.tsc = s.tsc
  limit : t.maxInstr = s.maxInstr
  instrs : t.instrs = s.instrs

namespace SameBudget

theorem refl (s : St) : SameBudget s s := ⟨rfl, rfl, rfl⟩

theorem trans {s t u : St} (h₁ : SameBudget s t) (h₂ : SameBudget t u) : SameBudget s u :=
  ⟨h₂.tsc.trans h₁.tsc, h₂.limit.trans h₁.limit, h₂.instrs.trans h₁.instrs⟩

theorem intrRaise (nr : U8) (type err : U32) (s : St) :
    SameBudget s (x86emuIntrRaise nr type err s) := by
  unfold x86emuIntrRaise
  dsimp only
  split <;> exact ⟨rfl, rfl, rfl⟩

variable {inp : PortInput} {h : Host} (hh : h.Default inp)

include hh

theorem callMemio (kind : MemioKind) (bits : MemioBits) (addr val : U32) (s : St) :
    SameBudget s (callMemio kind bits addr val h s).2 := by
  obtain ⟨mem, io, hframe⟩ := vmMemio_frame inp s kind bits addr val
  unfold X86Emu.callMemio
  rw [hh.memio]
  dsimp only
  rw [hframe]
  exact ⟨rfl, rfl, rfl⟩

theorem logBlind : LogBlind h SameBudget where
  refl := refl
  trans := trans
  log _ _ := ⟨rfl, rfl, rfl⟩
  flush hf := by
    rw [hh.flush] at hf
    cases hf

/-- Of the primitive operations only the WRMSR handler writes the counter. -/
theorem keeps : Keeps h SameBudget (true, false, true, true, true, true) := by
  refine Keeps.withSeg (g := (true, false, true, true, false, true)) (KeepsRule.keeps ?_)
    fun _ _ _ => ⟨rfl, rfl, rfl⟩
  exact {
    toLogBlind := logBlind hh
    aside := fun hst => by
      cases hst with
      | mk eip mode bytes text intr start len perm hev =>
        refine ⟨rfl, rfl, ?_⟩
        show List.countP _ (_ ++ _) = _
        rw [List.countP_append, List.countP_eq_zero.mpr, Nat.zero_add]
        · rfl
        · intro ev hmem
          have hminor := hev ev hmem
          cases ev with
          | instr op1 => exact absurd hminor id
          | _ => exact Bool.false_ne_true
    read := fun _ width addr val s => callMemio hh _ _ addr val s
    write := fun _ width addr val s => callMemio hh _ _ addr val s
    data := fun _ _ _ _ => ⟨rfl, rfl, rfl⟩
    flags := fun _ _ _ _ => ⟨rfl, rfl, rfl⟩
    eflg := fun _ _ _ => ⟨rfl, rfl, rfl⟩
    seg := fun hf => absurd hf (by decide)
    crx := fun _ _ _ _ => ⟨rfl, rfl, rfl⟩
    cpuid := fun _ _ hf => by
      rw [hh.cpuid] at hf
      cases hf
    rdmsr := fun _ _ hf _ => by
      rw [hh.rdmsr] at hf
      cases hf
      exact ⟨rfl, rfl, rfl⟩
    wrmsr := fun hf => absurd hf (by decide) }

/-- Outside the opcode handlers the counter only changes by its increment. -/
theorem quietRule : QuietRule h SameBudget where
  toLogBlind := logBlind hh
  reset _ := ⟨rfl, rfl, rfl⟩
  quiet hq := by
    cases hq with
    | msr hu v => exact ⟨Function.update_of_ne (β := fun _ => U64) hu.symm v _, rfl, rfl⟩
    | fetch => exact (keeps hh).does fetchByte (by decide) _
    | peek addr => exact callMemio hh _ _ addr _ _
    | codeCheck hf =>
      rw [hh.codeCheck] at hf
      cases hf
    | _ => exact ⟨rfl, rfl, rfl⟩
  delivery hst := by
    cases hst with
    | intr hf nr type =>
      rw [hh.intr] at hf
      cases hf
    | frame nr type err => exact (keeps hh).does (deliverInt nr type err) (by decide) _
    | _ => exact ⟨rfl, rfl, rfl⟩

end SameBudget

/-! ## One instruction -/

/-- The value WRMSR writes. -/
def St.edxEax (s : St) : U64 := s.cpu.gen .dx ++ s.cpu.gen .ax

/-- WRMSR of the time stamp counter with a lower value, or with the one the increment wraps. -/
def lowersTsc (h : Host) (op1 : U8) (s : St) : Prop :=
  op1 = 0x0f ∧ (fetchByte.run h s).1 = 0x30 ∧ s.cpu.gen .cx = 0x10 ∧
    (s.edxEax < s.tsc ∨ s.edxEax = BitVec.allOnes 64)

instance (h : Host) (op1 : U8) (s : St) : Decidable (lowersTsc h op1 s) := by
  unfold lowersTsc
  infer_instance

/-- Every instruction but WRMSR keeps the counter. -/
theorem runHandler_sameBudget {inp : PortInput} {h : Host} (hh : h.Default inp) {op1 : U8} {s : St}
    (hop : ¬(op1 = 0x0f ∧ (fetchByte.run h s).1 = 0x30)) :
    SameBudget s (runHandler h op1 s) := by
  by_cases hop1 : op1 = 0x0f
  · subst hop1
    have hfetch := (SameBudget.keeps hh).does fetchByte (by decide) s
    have hop2 : (fetchByte.run h s).1 ≠ 0x30 := fun h2 => hop ⟨rfl, h2⟩
    rw [runHandler_twoByte]
    generalize fetchByte.run h s = p at hfetch hop2 ⊢
    refine hfetch.trans ((SameBudget.keeps hh).graded (handler2_does p.1) ?_ p.2)
    have hall : ∀ op2 : U8, op2 ≠ 0x30 →
        effects2 op2.toNat ≤ (true, false, true, true, true, true) := by decide +kernel
    exact hall p.1 hop2
  · refine (SameBudget.keeps hh).handler ?_ s
    have hall : ∀ op1 : U8, op1 ≠ 0x0f →
        effects1 op1.toNat ≤ (true, false, true, true, true, true) := by decide +kernel
    exact hall op1 hop1

theorem Host.Default.passive {inp : PortInput} {h : Host} (hh : h.Default inp) :
    h.Passive inp where
  memio := hh.memio
  flush hf := by
    rw [hh.flush] at hf
    cases hf

/-- What WRMSR does to the counter. -/
theorem wrmsr_budget {inp : PortInput} {h : Host} (hh : h.Default inp) (op2 : U8) (s : St) :
    let t := ((Op2.wrmsr op2).run h s).2
    t.maxInstr = s.maxInstr ∧ t.instrs = s.instrs ∧
      t.tsc = if s.cpu.gen .cx = 0x10 then s.edxEax else s.tsc := by
  intro t
  have hrun : t = if s.cpu.gen .cx ≥ Op2.x86emuMsrs then
      x86emuIntrRaise 6 (intrTypeFault ||| intrModeRestart) 0
        { s with disasm := s.disasm ++ "wrmsr".toList }
      else (callHandler h.wrmsr { s with disasm := s.disasm ++ "wrmsr".toList }).2 := by
    show ((Op2.wrmsr op2).run h s).2 = _
    unfold Op2.wrmsr
    simp only [Prog.run_bind, Prog.run_ite]
    rw [apply_ite Prod.snd]
    rfl
  rw [hrun]
  split
  · next hcx =>
    have hsame := SameBudget.intrRaise 6 (intrTypeFault ||| intrModeRestart) 0
      { s with disasm := s.disasm ++ "wrmsr".toList }
    have hne : s.cpu.gen .cx ≠ 0x10 := by
      intro h10
      rw [h10] at hcx
      exact absurd hcx (by decide)
    rw [if_neg hne]
    exact ⟨hsame.limit, hsame.instrs, hsame.tsc⟩
  · rw [hh.wrmsr]
    refine ⟨rfl, rfl, ?_⟩
    show (Function.update s.msr s.msrIndex s.edxEax) 0x10 = _
    split
    · next h10 =>
      have hidx : s.msrIndex = 0x10 := by rw [St.msrIndex, h10]; rfl
      rw [hidx, Function.update_self]
    · next h10 =>
      have hidx : (0x10 : Nat) ≠ s.msrIndex := fun heq =>
        h10 (BitVec.eq_of_toNat_eq heq.symm)
      exact Function.update_of_ne (β := fun _ => U64) hidx _ _

/-- An instruction that does not lower the counter. -/
theorem runHandler_budget {inp : PortInput} {h : Host} (hh : h.Default inp) {op1 : U8} {s : St}
    (hlow : ¬lowersTsc h op1 s) (hmax : s.tsc ≠ BitVec.allOnes 64) :
    let t := runHandler h op1 s
    t.maxInstr = s.maxInstr ∧ t.instrs = s.instrs ∧ s.tsc ≤ t.tsc ∧ t.tsc ≠ BitVec.allOnes 64 := by
  intro t
  by_cases hop : op1 = 0x0f ∧ (fetchByte.run h s).1 = 0x30
  · obtain ⟨rfl, hop2⟩ := hop
    have hfetch := (SameBudget.keeps hh).does fetchByte (by decide) s
    have hregs := (Unchanged.keeps hh.passive).does fetchByte (by decide) s
    have ht : t = ((Op2.wrmsr 0x30).run h (fetchByte.run h s).2).2 := by
      show runHandler h 0x0f s = _
      rw [runHandler_twoByte, hop2]
      rfl
    obtain ⟨hlimit, hinstrs, htsc⟩ := wrmsr_budget hh 0x30 (fetchByte.run h s).2
    have hval : (fetchByte.run h s).2.edxEax = s.edxEax := by rw [St.edxEax, hregs.gen]; rfl
    rw [hregs.gen, hval, hfetch.tsc] at htsc
    rw [ht, hlimit, hinstrs, htsc]
    refine ⟨hfetch.limit, hfetch.instrs, ?_⟩
    split
    · next h10 =>
      rw [lowersTsc, not_and, not_and, not_and] at hlow
      have hval := hlow rfl hop2 h10
      rw [not_or, BitVec.not_lt] at hval
      exact hval
    · exact ⟨BitVec.le_refl _, hmax⟩
  · have hsame := runHandler_sameBudget hh hop
    have htsc : t.tsc = s.tsc := hsame.tsc
    exact ⟨hsame.limit, hsame.instrs, by rw [htsc]; exact ⟨BitVec.le_refl _, hmax⟩⟩

/-! ## Whole runs -/

/-- How far the counter is from the limit. -/
def St.remaining (s : St) : Nat := s.maxInstr.toNat - s.tsc.toNat

/-- The instructions executed and those that remain, taken together, do not grow. -/
structure Budgeted (s t : St) : Prop where
  limit : t.maxInstr = s.maxInstr
  spent : t.instrs + t.remaining ≤ s.instrs + s.remaining

namespace Budgeted

theorem of_same {s t : St} (hst : SameBudget s t) : Budgeted s t :=
  ⟨hst.limit, by rw [St.remaining, St.remaining, hst.limit, hst.tsc, hst.instrs]⟩

theorem trans {s t u : St} (h₁ : Budgeted s t) (h₂ : Budgeted t u) : Budgeted s u :=
  ⟨h₂.limit.trans h₁.limit, h₂.spent.trans h₁.spent⟩

variable {inp : PortInput} {h : Host} (hh : h.Default inp)

include hh

/-- Without a limit there is nothing to keep. -/
theorem quietRule : QuietRule h fun s t => s.maxInstr ≠ 0 → Budgeted s t where
  refl s _ := of_same (.refl s)
  trans h₁ h₂ hmax := (h₁ hmax).trans (h₂ ((h₁ hmax).limit ▸ hmax))
  log s buf _ := of_same ((SameBudget.logBlind hh).log s buf)
  flush hf s t _ := of_same ((SameBudget.logBlind hh).flush hf s t)
  quiet hq _ := of_same ((SameBudget.quietRule hh).quiet hq)
  delivery hst _ := of_same ((SameBudget.quietRule hh).delivery hst)
  reset s _ := of_same ((SameBudget.quietRule hh).reset s)

/-- An instruction is dispatched below the limit. -/
theorem below_of_exec {e : RunEnv} (he : e.has runMaxInstr = true) {rs rs' : U32} {op1 : U8}
    {s s₁ : St} (hmax : s₁.maxInstr ≠ 0) (hchecks : runChecks h e rs s = (.exec rs' op1, s₁)) :
    s₁.tsc < s₁.maxInstr := by
  have hreached := maxInstrReached_of_exec hchecks
  have hsame := (SameBudget.quietRule hh).steps (Steps.runChecks (h := h) e rs s)
  rw [hchecks] at hsame
  rw [hsame.limit] at hmax
  unfold maxInstrReached at hreached
  simp only [he, hmax, Bool.true_and, ne_eq, not_false_eq_true, decide_true,
    decide_eq_false_iff_not, BitVec.not_le] at hreached
  rw [hsame.tsc, hsame.limit]
  exact hreached

/-- An instruction that is dispatched below the limit takes one from what remains. -/
theorem execInstr (e : RunEnv) {op1 : U8} {s : St} (hlow : ¬lowersTsc h op1 s)
    (hbelow : s.tsc < s.maxInstr) : Budgeted s (execInstr h e op1 s) := by
  have hmax : s.tsc ≠ BitVec.allOnes 64 := by
    intro hall
    rw [hall, BitVec.lt_def, BitVec.toNat_allOnes] at hbelow
    omega
  have hlow' : ¬lowersTsc h op1 { s with hist := .instr op1 :: s.hist } := by
    have hbyte := (run_view hh.blind fetchByte { s with hist := .instr op1 :: s.hist }).1.symm.trans
      (run_view hh.blind fetchByte s).1
    unfold lowersTsc
    rw [hbyte]
    exact hlow
  obtain ⟨hlimit, hinstrs, hle, hne⟩ := runHandler_budget hh hlow' hmax
  have hfinish := (SameBudget.quietRule hh).finish e
    (runHandler h op1 { s with hist := .instr op1 :: s.hist })
  have hrun : X86Emu.execInstr h e op1 s = (X86Emu.processDebug h (logCode h (updateRealTsc h e
      (handleInterrupt h (runHandler h op1 { s with hist := .instr op1 :: s.hist }))))).setMsr 0x10
      ((processDebug h (logCode h (updateRealTsc h e
        (handleInterrupt h (runHandler h op1 { s with hist := .instr op1 :: s.hist }))))).tsc +
          1) :=
    rfl
  rw [hrun]
  generalize runHandler h op1 { s with hist := .instr op1 :: s.hist } = t at *
  generalize X86Emu.processDebug h (logCode h (updateRealTsc h e (handleInterrupt h t))) = u at *
  have htsc : (u.setMsr 0x10 (u.tsc + 1)).tsc = t.tsc + 1 := by
    show Function.update u.msr 0x10 (u.tsc + 1) 0x10 = _
    rw [Function.update_self, hfinish.tsc]
  have hmaxInstr : (u.setMsr 0x10 (u.tsc + 1)).maxInstr = s.maxInstr := hfinish.limit.trans hlimit
  have hcount : (u.setMsr 0x10 (u.tsc + 1)).instrs = s.instrs + 1 :=
    (hfinish.instrs.trans hinstrs).trans (List.countP_cons_of_pos rfl)
  refine ⟨hmaxInstr, ?_⟩
  rw [St.remaining, St.remaining, htsc, hmaxInstr, hcount]
  have hnext : (t.tsc + 1).toNat = t.tsc.toNat + 1 := by
    have hlt := t.tsc.isLt
    have hne' : t.tsc.toNat ≠ 2 ^ 64 - 1 := fun heq =>
      hne (BitVec.eq_of_toNat_eq (heq.trans BitVec.toNat_allOnes.symm))
    rw [BitVec.toNat_add]
    exact Nat.mod_eq_of_lt (by show _ + 1 < _; omega)
  rw [hnext]
  rw [BitVec.lt_def] at hbelow
  have hle' : s.tsc.toNat ≤ t.tsc.toNat := hle
  omega

end Budgeted

/-- No WRMSR of the run lowers the counter. -/
def NoneLowers (h : Host) (flags : U32) (fuel : Nat) (s : St) : Prop :=
  ∀ p ∈ executed h (beginRun h flags fuel s).1 fuel 0 (beginRun h flags fuel s).2,
    ¬lowersTsc h p.1 p.2

/-- A run in which no WRMSR lowers the counter executes at most `max_instr - R_TSC`
instructions. -/
theorem x86emuRun_instrs_le {inp : PortInput} {h : Host} (hh : h.Default inp) {flags : U32}
    (hflags : flags &&& runMaxInstr ≠ 0) {s : St} (hmax : s.maxInstr ≠ 0) {fuel : Nat}
    (hlow : NoneLowers h flags fuel s) :
    (x86emuRun h flags fuel s).2.instrs ≤ s.instrs + (s.maxInstr.toNat - s.tsc.toNat) := by
  have hbegin := (SameBudget.quietRule hh).steps (Steps.beginRun (h := h) flags fuel s)
  have he : (beginRun h flags fuel s).1.has runMaxInstr = true := bne_iff_ne.mpr hflags
  unfold NoneLowers at hlow
  have hloop := (Budgeted.quietRule hh).runLoop_executed (beginRun h flags fuel s).1 fuel 0
    (beginRun h flags fuel s).2 fun p hp ⟨_, _, _, hchecks⟩ hlimit =>
      Budgeted.execInstr hh _ (hlow p hp) (Budgeted.below_of_exec hh he hlimit hchecks)
  have hspent : (runLoop h (beginRun h flags fuel s).1 fuel 0
      (beginRun h flags fuel s).2).2.instrs ≤
      s.instrs + (s.maxInstr.toNat - s.tsc.toNat) := by
    rw [← hbegin.limit] at hmax
    have hle := (hloop hmax).spent
    rw [St.remaining, St.remaining, hbegin.limit, hbegin.tsc, hbegin.instrs] at hle
    omega
  unfold x86emuRun
  dsimp only
  generalize runLoop h (beginRun h flags fuel s).1 fuel 0 (beginRun h flags fuel s).2 =
    p at hspent ⊢
  split
  · rw [((SameBudget.quietRule hh).endRun _ _ _).instrs]
    exact hspent
  · exact hspent

/-- Two of the NOPs that fill the memory are executed when the limit is 2. -/
theorem x86emuRun_instrs_nops :
    let s : St := { cpu := resetCpu, mem := fullMem fun _ => 0x90, maxInstr := 2 }
    (x86emuRun (defaultHost fun _ _ _ => 0) runMaxInstr 5 s).2.instrs ≤
      s.instrs + (s.maxInstr.toNat - s.tsc.toNat) :=
  x86emuRun_instrs_le (defaultHost_default _) (by decide) (by decide) (by
    unfold NoneLowers
    decide +kernel)

/-- A memory of WRMSRs, which set the counter to 0 again and again. -/
def wrmsrLoop : St :=
  { cpu := resetCpu.setGen .cx 0x10
    mem := fullMem fun i => if i.getLsbD 0 then 0x30 else 0x0f
    maxInstr := 2 }

theorem x86emuRun_instrs_exceeds :
    ¬∀ (inp : PortInput) (h : Host), h.Default inp → ∀ (flags : U32) (s : St) (fuel : Nat),
      flags &&& runMaxInstr ≠ 0 → s.maxInstr ≠ 0 →
      (x86emuRun h flags fuel s).2.instrs ≤ s.instrs + (s.maxInstr.toNat - s.tsc.toNat) := by
  intro hclaim
  have hle := hclaim _ _ (defaultHost_default fun _ _ _ => 0) runMaxInstr wrmsrLoop 3 (by decide)
    (by decide)
  exact absurd hle (by decide +kernel)

end X86Emu
