import X86Emu.Lib.Mailbox
import X86Emu.Run.Api
import X86Emu.Run.Events

/-!
# Raised interrupts

`x86emu_intr_raise` puts an interrupt into a slot that holds one interrupt, and `handle_interrupt`
delivers it after the instruction and then empties the slot. As the slot is emptied after the
delivery and not before it, an interrupt raised in the course of a delivery, as by the host's
interrupt handler, is dropped. In a run without one, the interrupts that are raised while none is
waiting are delivered, in this order and each of them once.
-/

namespace X86Emu

open Lib

/-- Number and type of the interrupt that is waiting for delivery. -/
def St.waiting (s : St) : Option (U8 × U32) :=
  if s.intr.type = 0 then none else some (s.intr.nr, s.intr.type)

/-- What an event does to the slot; the type 0 stands for no interrupt. -/
def Event.action? : Event → Option (BoxAction (U8 × U32))
  | .raise nr type _ => if type = 0 then none else some (.post (nr, type))
  | .deliver nr type => some (.take (nr, type))
  | _ => none

/-- The raises and deliveries among the events, which stand with the last one first, in the order in
which they happened. -/
def actions (evs : List Event) : List (BoxAction (U8 × U32)) := evs.reverse.filterMap Event.action?

theorem actions_append (evs evs' : List Event) :
    actions (evs' ++ evs) = actions evs ++ actions evs' := by
  unfold actions
  rw [List.reverse_append, List.filterMap_append]

/-! ## What handlers do -/

/-- A handler of the host raises interrupts, and leaves the slot alone otherwise: what the handlers
of the host have to keep. -/
inductive CallsRaise : St → St → Prop
  | other {s t : St} (hintr : t.intr = s.intr) (hstats : t.intrStats = s.intrStats)
      (hhist : t.hist = s.hist) : CallsRaise s t
  | raise (nr : U8) (type err : U32) (s : St) : CallsRaise s (x86emuIntrRaise nr type err s)
  | trans {s t u : St} : CallsRaise s t → CallsRaise t u → CallsRaise s u

/-- The events `evs` lead from `s` to `t`; interrupts may be raised, and none is delivered. -/
structure PostsBy (evs : List Event) (s t : St) : Prop where
  hist : t.hist = evs ++ s.hist
  none_taken : taken (actions evs) = []
  handled : Handled s.waiting (actions evs) t.waiting
  stats : t.intrStats = s.intrStats
  kept : s.intr.type ≠ 0 → t.intr = s.intr

def Posts (s t : St) : Prop := ∃ evs, PostsBy evs s t

namespace Posts

/-- A step with an event that is neither a raise nor a delivery, or with none. -/
theorem of_same {s t : St} (evs : List Event) (hintr : t.intr = s.intr)
    (hstats : t.intrStats = s.intrStats) (hhist : t.hist = evs ++ s.hist)
    (hevs : actions evs = []) : Posts s t := by
  refine ⟨evs, hhist, ?_, ?_, hstats, fun _ => hintr⟩
  · rw [hevs]
    rfl
  · unfold St.waiting
    rw [hevs, hintr]
    exact .nil _

theorem refl (s : St) : Posts s s := of_same [] rfl rfl rfl rfl

theorem trans {s t u : St} (h₁ : Posts s t) (h₂ : Posts t u) : Posts s u := by
  obtain ⟨evs₁, hhist₁, htaken₁, hhandled₁, hstats₁, hkept₁⟩ := h₁
  obtain ⟨evs₂, hhist₂, htaken₂, hhandled₂, hstats₂, hkept₂⟩ := h₂
  refine ⟨evs₂ ++ evs₁, ?_, ?_, ?_, hstats₂.trans hstats₁, ?_⟩
  · rw [hhist₂, hhist₁, List.append_assoc]
  · rw [actions_append, taken_append, htaken₁, htaken₂]
    rfl
  · rw [actions_append]
    exact hhandled₁.append hhandled₂
  · intro hs
    have heq := hkept₁ hs
    rw [hkept₂ (by rw [heq]; exact hs), heq]

/-- A raise while one is waiting changes nothing, the others fill the slot. -/
theorem raise (nr : U8) (type err : U32) (s : St) : Posts s (x86emuIntrRaise nr type err s) := by
  have hact : actions [.raise nr type err] = if type = 0 then [] else [.post (nr, type)] := by
    by_cases htype : type = 0
    · subst htype
      rfl
    · rw [if_neg htype]
      unfold actions Event.action?
      simp only [List.reverse_singleton, List.filterMap_cons, if_neg htype, List.filterMap_nil]
  unfold x86emuIntrRaise
  dsimp only
  by_cases hfull : s.intr.type = 0
  · rw [if_pos hfull]
    refine ⟨[.raise nr type err], rfl, ?_, ?_, rfl, fun hne => absurd hfull hne⟩
    · rw [hact]
      split <;> rfl
    · unfold St.waiting
      rw [hact, if_pos hfull]
      dsimp only
      split
      · exact .nil _
      · exact .accept (.nil _)
  · rw [if_neg hfull]
    refine ⟨[.raise nr type err], rfl, ?_, ?_, rfl, fun _ => rfl⟩
    · rw [hact]
      split <;> rfl
    · unfold St.waiting
      rw [hact, if_neg hfull]
      split
      · exact .nil _
      · exact .drop (.nil _)

theorem of_calls {s t : St} (hst : CallsRaise s t) : Posts s t := by
  induction hst with
  | other hintr hstats hhist => exact of_same [] hintr hstats hhist rfl
  | raise nr type err s => exact raise nr type err s
  | trans _ _ ih₁ ih₂ => exact ih₁.trans ih₂

variable {h : Host} (hh : h.Respects CallsRaise)

include hh

theorem logBlind : LogBlind h Posts where
  refl := refl
  trans := trans
  log _ _ := of_same [] rfl rfl rfl rfl
  flush hf s t := of_calls (hh.flush hf s t)

theorem callMemio (kind : MemioKind) (bits : MemioBits) (addr val : U32) (s : St) :
    Posts s (callMemio kind bits addr val h s).2 := by
  have hcall := of_calls (hh.memio s kind bits addr val)
  refine hcall.trans (of_same [.memio kind bits addr _ _] rfl rfl rfl rfl)

/-- Opcode handlers raise interrupts, and leave the slot alone otherwise. -/
theorem emu {α : Type} (x : Emu α) (s : St) : Posts s (x.run h s).2 := by
  refine x.invariant refl trans ?_ s
  intro β y hy s
  have hsame : ∀ {t : St}, t.intr = s.intr → t.intrStats = s.intrStats → t.hist = s.hist →
      Posts s t := fun hintr hstats hhist => of_same [] hintr hstats hhist rfl
  cases hy with
  | capture bytes =>
    dsimp only
    unfold captureBytes
    split <;> exact hsame rfl rfl rfl
  | memio kind width addr val => exact callMemio hh _ _ addr val s
  | fetchStop addr => exact of_same [.fetchError addr] rfl rfl rfl rfl
  | log thr guard text _ => exact (logBlind hh).line thr guard text s
  | raise nr type err => exact raise nr type err s
  | cpuid => exact callHandler_keeps refl (fun hf s => of_calls (hh.cpuid hf s)) s
  | rdmsr => exact callHandler_keeps refl (fun hf s => of_calls (hh.rdmsr hf s)) s
  | wrmsr => exact callHandler_keeps refl (fun hf s => of_calls (hh.wrmsr hf s)) s
  | debugRecord start ofs =>
    dsimp only
    unfold setDebugRecord
    split <;> exact hsame rfl rfl rfl
  | _ => exact hsame rfl rfl rfl

theorem checkRule : CheckRule h Posts where
  toLogBlind := logBlind hh
  reset _ := of_same [] rfl rfl rfl rfl
  quiet hq := by
    cases hq with
    | fetch => exact emu hh fetchByte _
    | peek addr => exact callMemio hh _ _ addr _ _
    | codeCheck hf => exact of_calls (hh.codeCheck hf _)
    | _ => exact of_same [] rfl rfl rfl rfl

end Posts

/-! ## Deliveries -/

/-- How often the interrupt is delivered. -/
def deliveries (nr : U8) (evs : List Event) : Nat := (taken (actions evs)).countP (·.1 = nr)

/-- The events `evs` lead from `s` to `t`; interrupts may be raised and delivered. -/
structure HandlesBy (evs : List Event) (s t : St) : Prop where
  hist : t.hist = evs ++ s.hist
  handled : Handled s.waiting (actions evs) t.waiting
  stats : ∀ nr, t.intrStats nr = s.intrStats nr + BitVec.ofNat 32 (deliveries nr evs)

def Handles (s t : St) : Prop := ∃ evs, HandlesBy evs s t

namespace Handles

theorem of_posts {s t : St} (hst : Posts s t) : Handles s t := by
  obtain ⟨evs, hhist, htaken, hhandled, hstats, -⟩ := hst
  refine ⟨evs, hhist, hhandled, fun nr => ?_⟩
  unfold deliveries
  rw [hstats, htaken]
  exact (BitVec.add_zero _).symm

theorem trans {s t u : St} (h₁ : Handles s t) (h₂ : Handles t u) : Handles s u := by
  obtain ⟨evs₁, hhist₁, hhandled₁, hstats₁⟩ := h₁
  obtain ⟨evs₂, hhist₂, hhandled₂, hstats₂⟩ := h₂
  refine ⟨evs₂ ++ evs₁, ?_, ?_, fun nr => ?_⟩
  · rw [hhist₂, hhist₁, List.append_assoc]
  · rw [actions_append]
    exact hhandled₁.append hhandled₂
  · have hcount : deliveries nr (evs₂ ++ evs₁) = deliveries nr evs₁ + deliveries nr evs₂ := by
      unfold deliveries
      rw [actions_append, taken_append, List.countP_append]
    rw [hstats₂, hstats₁, hcount, BitVec.ofNat_add, BitVec.add_assoc]

end Handles

/-- The interrupt that waits in `s`, if there is one, is delivered without another one being
raised. -/
def DeliversQuietly (h : Host) (s : St) : Prop :=
  s.intr.type ≠ 0 →
    let s := logLine 128 (·.has traceInts) (fun s => intText s.intr) h s
    ∀ a ∈ actions (newEvents s (generateInt s.intr.nr s.intr.type s.intr.errcode h s)),
      a.isPost = false

instance (h : Host) (s : St) : Decidable (DeliversQuietly h s) :=
  inferInstanceAs (Decidable (_ → _))

section

variable {h : Host} (hh : h.Respects CallsRaise)

include hh

/-- A delivery without a raise, and the emptying of the slot after it. -/
theorem generateInt_handles {s : St} (hfull : s.intr.type ≠ 0)
    (hquiet : ∀ a ∈ actions (newEvents s (generateInt s.intr.nr s.intr.type s.intr.errcode h s)),
      a.isPost = false) :
    let t := generateInt s.intr.nr s.intr.type s.intr.errcode h s
    Handles s { t with intr := { t.intr with type := 0 } } := by
  intro t
  let s₁ : St := { s with
    intrStats := Function.update s.intrStats s.intr.nr (s.intrStats s.intr.nr + 1)
    hist := .deliver s.intr.nr s.intr.type :: s.hist }
  have hposts : Posts s₁ t := by
    have hcall : ∀ nr type s, Posts s (callIntr nr type h s).2 := by
      intro nr type s
      unfold callIntr
      split
      · next f hf => exact Posts.of_calls (hh.intr hf s nr type)
      · exact Posts.refl s
    have hstart := hcall s.intr.nr s.intr.type s₁
    show Posts s₁ (generateInt _ _ _ h s)
    unfold generateInt
    dsimp only
    split
    · exact hstart
    · exact hstart.trans (Posts.emu hh _ _)
  obtain ⟨evs, hhist, htaken, -, hstats, -⟩ := hposts
  have hhist' : t.hist = (evs ++ [.deliver s.intr.nr s.intr.type]) ++ s.hist := by
    rw [hhist, List.append_assoc]
    rfl
  have hacts : actions (evs ++ [.deliver s.intr.nr s.intr.type]) =
      .take (s.intr.nr, s.intr.type) :: actions evs := actions_append _ evs
  rw [newEvents_eq hhist', hacts] at hquiet
  have hnone := eq_nil_of_none (fun a ha => hquiet a (List.mem_cons_of_mem _ ha)) htaken
  rw [hnone] at hacts
  refine ⟨_, hhist', ?_, fun nr => ?_⟩
  · have hwaiting : s.waiting = some (s.intr.nr, s.intr.type) := if_neg hfull
    rw [hacts, hwaiting]
    exact .take (.nil none)
  · unfold deliveries
    rw [hacts]
    show t.intrStats nr = _
    rw [hstats]
    show Function.update s.intrStats s.intr.nr (s.intrStats s.intr.nr + 1) nr = _
    by_cases hnr : nr = s.intr.nr
    · subst hnr
      rw [Function.update_self]
      simp [taken]
    · rw [Function.update_of_ne hnr]
      simp [taken, Ne.symm hnr]

theorem handleInterrupt_handles {s : St} (hquiet : DeliversQuietly h s) :
    Handles s (handleInterrupt h s) := by
  unfold handleInterrupt
  dsimp only
  by_cases hempty : s.intr.type = 0
  · rw [if_pos hempty]
    refine Handles.of_posts (Posts.of_same [] ?_ rfl rfl rfl)
    dsimp only
    rw [← hempty]
  · rw [if_neg hempty]
    have hline := (Posts.logBlind hh).line 128 (·.has traceInts) (fun s => intText s.intr) s
    refine (Handles.of_posts hline).trans (generateInt_handles hh ?_ (hquiet hempty))
    obtain ⟨evs, hline⟩ := hline
    rw [hline.kept hempty]
    exact hempty

theorem checkRule_handles : CheckRule h Handles where
  refl s := .of_posts (.refl s)
  trans := .trans
  log s buf := .of_posts ((Posts.logBlind hh).log s buf)
  flush hf s t := .of_posts ((Posts.logBlind hh).flush hf s t)
  quiet hq := .of_posts ((Posts.checkRule hh).quiet hq)
  reset s := .of_posts ((Posts.checkRule hh).reset s)

/-! ## Whole runs -/

theorem execInstr_handles (e : RunEnv) {op1 : U8} {s : St}
    (hquiet : DeliversQuietly h (afterHandler h op1 s)) : Handles s (execInstr h e op1 s) := by
  have hstart : Posts s { s with hist := .instr op1 :: s.hist } :=
    .of_same [.instr op1] rfl rfl rfl rfl
  have hrun : Posts s (afterHandler h op1 s) := hstart.trans (Posts.emu hh _ _)
  have hafter := (Posts.checkRule hh).afterDelivery e (handleInterrupt h (afterHandler h op1 s))
  have htick : ∀ u : St, Posts u (u.setMsr 0x10 (u.tsc + 1)) := fun _ =>
    .of_same [] rfl rfl rfl rfl
  exact (Handles.of_posts hrun).trans ((handleInterrupt_handles hh hquiet).trans
    (.of_posts (hafter.trans (htick _))))

end

/-- Every interrupt that is raised in the run while none is waiting is delivered once, in the order
of the raises, unless it is still waiting at the end; nothing waits when an instruction is done with
its delivery. `intr_stats` counts the deliveries. -/
structure NoneLost (h : Host) (e : RunEnv) (n : Nat) (s t : St) (evs : List Event) : Prop where
  hist : t.hist = evs ++ s.hist
  delivered : s.waiting.toList ++ accepted s.waiting (actions evs) =
    taken (actions evs) ++ t.waiting.toList
  prompt : ∀ p ∈ executed h e n 0 s, (handleInterrupt h (afterHandler h p.1 p.2)).waiting = none
  stats : ∀ nr, t.intrStats nr = s.intrStats nr + BitVec.ofNat 32 (deliveries nr evs)

/-- In a run in which no interrupt is raised in the course of a delivery, no interrupt is lost. -/
theorem run_noneLost {h : Host} (hh : h.Respects CallsRaise) (flags : U32) (fuel n : Nat) (s : St)
    (hquiet : ∀ p ∈ executed h (beginRun h flags fuel s).1 n 0 (beginRun h flags fuel s).2,
      DeliversQuietly h (afterHandler h p.1 p.2)) :
    let (e, s₀) := beginRun h flags fuel s
    ∃ evs, NoneLost h e n s₀ (runLoop h e n 0 s₀).2 evs := by
  obtain ⟨evs, hhist, hhandled, hstats⟩ := (checkRule_handles hh).runLoop_executed
    (beginRun h flags fuel s).1 n 0 (beginRun h flags fuel s).2 fun p hp _ =>
      execInstr_handles hh _ (hquiet p hp)
  exact ⟨evs, hhist, hhandled.accepted_eq, fun _ _ => rfl, hstats⟩

theorem defaultHost_raises (inp : PortInput) : (defaultHost inp).Respects CallsRaise :=
  defaultHost_respects inp (fun _ _ _ => .other rfl rfl rfl) (fun _ => .other rfl rfl rfl)
    fun _ => .other rfl rfl rfl

/-- A memory of INT instructions. -/
def intLoop : St := x86emuReset { mem := fullMem fun _ => 0xcd }

theorem run_noneLost_int :
    let (e, s₀) := beginRun (defaultHost fun _ _ _ => 0) 0 5 intLoop
    ∃ evs, NoneLost (defaultHost fun _ _ _ => 0) e 1 s₀
      (runLoop (defaultHost fun _ _ _ => 0) e 1 0 s₀).2 evs :=
  run_noneLost (defaultHost_raises fun _ _ _ => 0) 0 5 1 intLoop (by decide +kernel)

/-- An interrupt handler that raises interrupts may be installed besides the default handlers. -/
theorem withIntr_raises (inp : PortInput) {f : St → U8 → U32 → Bool × St}
    (hf : ∀ s nr type, CallsRaise s (f s nr type).2) :
    ({ defaultHost inp with intr := some f } : Host).Respects CallsRaise where
  memio := (defaultHost_raises inp).memio
  codeCheck hf := by cases hf
  cpuid hf := by cases hf
  intr hg s nr type := by
    cases hg
    exact hf s nr type
  rdmsr := (defaultHost_raises inp).rdmsr
  wrmsr := (defaultHost_raises inp).wrmsr
  flush hf := by cases hf

/-- A host whose interrupt handler raises interrupt 0x21. -/
def raisingHost : Host :=
  { defaultHost fun _ _ _ => 0 with
    intr := some fun s _ _ => (true, x86emuIntrRaise 0x21 intrTypeSoft 0 s) }

/-- The interrupt that the interrupt handler raises is neither delivered nor left in the slot. -/
theorem run_noneLost_fails :
    ¬∀ h : Host, h.Respects CallsRaise → ∀ (flags : U32) (fuel n : Nat) (s : St),
      let (e, s₀) := beginRun h flags fuel s
      ∃ evs, NoneLost h e n s₀ (runLoop h e n 0 s₀).2 evs := by
  intro hclaim
  obtain ⟨evs, hlost⟩ := hclaim raisingHost (withIntr_raises (fun _ _ _ => 0)
    fun s _ _ => .raise 0x21 intrTypeSoft 0 s) 0 5 1 intLoop
  have hevs := newEvents_eq hlost.hist
  have hdelivered := hlost.delivered
  rw [← hevs] at hdelivered
  revert hdelivered
  decide +kernel

end X86Emu
