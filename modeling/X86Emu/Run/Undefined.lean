import X86Emu.Decode.Seen
import X86Emu.Effects.Unchanged
import X86Emu.Run.Events

/-!
# Instructions that raise `#UD`

`INTR_RAISE_UD` only records the fault, and the handler goes on. Most handlers raise it before they
have written anything, and then return. `mov_word_RM_SR`, `mov_word_RM_IMM` and the SSE handlers do
not return: they carry their operation out.
-/

namespace X86Emu

open Lib Op Op2

/-! ## Raised faults -/

/-- `INTR_RAISE_UD` -/
def Event.isUd : Event → Bool
  | .raise nr type _ => X86Emu.isUd nr type
  | _ => false

/-- `#UD` has been raised between the two states. -/
def RaisesUd (s t : St) : Prop := (newEvents s t).any Event.isUd = true

instance (s t : St) : Decidable (RaisesUd s t) := inferInstanceAs (Decidable (_ = true))

/-- No `#UD` has been raised. -/
abbrev UdFree : St → St → Prop := Records fun ev => ev.isUd = false

theorem RaisesUd.mem {s t : St} (hraise : RaisesUd s t) : ∃ ev ∈ newEvents s t, ev.isUd = true :=
  List.any_eq_true.mp hraise

namespace UdFree

variable {s t u : St}

theorem not_raises (hs : UdFree s t) : ¬RaisesUd s t := by
  intro hraise
  obtain ⟨ev, hmem, hud⟩ := hraise.mem
  rw [hs.newEvents ev hmem] at hud
  exact Bool.false_ne_true hud

/-- What is raised after a part without `#UD`. -/
theorem raises {p : Event → Prop} (hs : UdFree s t) (ht : Records p t u)
    (hraise : RaisesUd s u) : RaisesUd t u := by
  obtain ⟨ev, hmem, hud⟩ := hraise.mem
  have hne : ¬ev.isUd = false := by
    rw [hud]
    exact Bool.noConfusion
  exact List.any_eq_true.mpr ⟨ev, hs.mem_later ht hne hmem, hud⟩

end UdFree

/-! ## Programs -/

/-- The default memory handler, and callbacks that do not raise `#UD` themselves; a flush function
and a code handler that change nothing. -/
structure Host.Orderly (inp : PortInput) (h : Host) : Prop extends h.Passive inp where
  callbacks : h.Respects UdFree
  codeCheck : ∀ {f}, h.codeCheck = some f → ∀ s, Unchanged s (f s).2

/-- The effects of the programs that never raise `#UD`. -/
abbrev neverUd : Effects := (false, true, true, true, true, true)

theorem le_neverUd {f : Effects} (hud : ¬f.1 = true) : f ≤ neverUd := by
  revert f
  decide

/-- When the program raises `#UD`, it leaves no trace. -/
structure SparesUd {α : Type} (h : Host) (x : Emu α) : Prop where
  grows : ∀ s, Records (fun _ => True) s (x.run h s).2
  spares : ∀ s, RaisesUd s (x.run h s).2 → Unchanged s (x.run h s).2

section

variable {inp : PortInput} {h : Host} (hh : h.Orderly inp)

include hh

/-- Programs without this effect do not raise `#UD`. -/
theorem udFree_keeps : Keeps h UdFree neverUd :=
  Records.keeps (g := (false, true, true, true, false, true)) hh.callbacks
    (fun _ _ _ _ _ => rfl) (fun _ => rfl) (fun _ _ _ hud => hud.resolve_right (by decide))
    (by decide)

/-- Every program only adds events. -/
theorem grows_keeps : Keeps h (Records fun _ => True) ⊤ := by
  have hcalls : h.Respects (Records fun _ => True) :=
    hh.callbacks.mono fun _ _ hs => hs.mono fun _ _ => True.intro
  exact Records.keeps (g := (true, true, true, true, false, true)) hcalls
    (fun _ _ _ _ _ => True.intro) (fun _ => True.intro) (fun _ _ _ _ => True.intro) le_rfl

namespace SparesUd

variable {α β : Type} {n : Nat} {f : Effects}

/-- A program that never raises it. -/
theorem never {x : Emu α} [hx : Does x n f] (hf : f ≤ neverUd) : SparesUd h x where
  grows := (grows_keeps hh).graded hx le_top
  spares s hraise := absurd hraise ((udFree_keeps hh).graded hx hf s).not_raises

/-- A memory form that never raises it. -/
theorem neverMem {mod : BitVec 2} (hmod : ¬mod = 3) {x : Emu α} [hx : Does (memForm hmod x) n f]
    (hf : f ≤ neverUd) : SparesUd h x := never (x := memForm hmod x) hh hf

/-- A program that writes nothing. -/
theorem quiet {x : Emu α} [hx : Does x n f] (hf : f ≤ mayUd) : SparesUd h x where
  grows := (grows_keeps hh).graded hx le_top
  spares s _ := (Unchanged.keeps hh.toPassive).graded hx hf s

/-- The first part neither raises it nor writes anything. -/
theorem bind {x : Emu α} {k : α → Emu β} [hx : Does x n f] (hf : f ≤ ⊥)
    (hk : ∀ a, SparesUd h (k a)) : SparesUd h (x >>= k) where
  grows s := ((grows_keeps hh).graded hx le_top s).trans ((hk _).grows _)
  spares s hraise := by
    have hfirst := (udFree_keeps hh).graded hx (hf.trans bot_le) s
    have hquiet := (Unchanged.keeps hh.toPassive).graded hx (hf.trans bot_le) s
    have hlate := hfirst.raises ((hk _).grows _) hraise
    exact hquiet.trans ((hk _).spares _ hlate)

omit hh in
theorem ite {c : Prop} [Decidable c] {x y : Emu α} (hx : c → SparesUd h x)
    (hy : ¬c → SparesUd h y) : SparesUd h (if c then x else y) := by
  split
  · next hc => exact hx hc
  · next hc => exact hy hc

/-- A handler that looks at something and then raises the fault, or goes on. -/
theorem checked {text : String} {x : Emu α} [hx : Does x n f] {c : α → Prop}
    [∀ a, Decidable (c a)] {k : α → Emu Unit} (hf : f ≤ ⊥) (hk : ∀ a, ¬c a → SparesUd h (k a)) :
    SparesUd h (do
      opDecode text
      let a ← x
      if c a then intrRaiseUd else k a) := by
  refine .bind hh (by decide) fun _ => .bind hh hf fun a => ?_
  exact .ite (fun _ => .quiet hh (by decide)) fun hc => hk a hc

/-- A program that leaves no trace. -/
theorem of_stays {x : Emu α} [Does x n f] (hx : Lib.Stays h Unchanged x) : SparesUd h x where
  grows := (grows_keeps hh).does x le_top
  spares s _ := hx.stays s

end SparesUd

theorem quiet_stays {α : Type} (x : Emu α) {n : Nat} {f : Effects} [hx : Does x n f]
    (hf : f ≤ mayUd) : Lib.Stays h Unchanged x :=
  ⟨fun s => (Unchanged.keeps hh.toPassive).graded hx hf s⟩

/-- A load of the entry that stands for a missing segment register. -/
theorem loadNoseg_stays (val : U16) :
    Lib.Stays h Unchanged (x86emuSetSegRegister (.seg .noseg) val) := by
  have hquiet := Unchanged.keeps hh.toPassive
  refine ⟨setSegRegister_keeps Unchanged.refl Unchanged.trans
    (fun hx s => hquiet.graded hx bot_le s) (fun v s => .of_eq ?_ rfl) val⟩
  unfold Cpu.bare
  dsimp only [Cpu.setSel]
  rw [Function.update_idem]

/-! ## Handlers -/

namespace Op

theorem illegalOp_spares (op : U8) : SparesUd h (illegalOp op) := .quiet hh (by decide)

theorem popRm_spares (op : U8) : SparesUd h (popRm op) := by
  unfold popRm
  exact .checked hh (by decide) fun _ _ => .never hh (by decide)

/-- For a missing segment register only its entry is loaded. -/
theorem movWordSrRm_spares (op : U8) : SparesUd h (movWordSrRm op) := by
  unfold movWordSrRm
  refine .bind hh (by decide) fun _ => .bind hh (by decide) fun m => ?_
  by_cases hreg : m.regh.toNat < 6
  · have hsome : decodeRmSegRegister m.regh =
        (opDecode (SegReg.ofBits m.regh).name >>= fun _ => pure (SegReg.ofBits m.regh)) :=
      if_pos hreg
    rw [hsome]
    exact .never hh (by decide)
  · have hnone : decodeRmSegRegister m.regh = (intrRaiseUd >>= fun _ => pure .noseg) :=
      if_neg hreg
    rw [hnone]
    show SparesUd h (intrRaiseUd >>= fun _ => do
      opDecode ","
      if m.mod = 3 then
        let r ← decodeRmWordRegister m.regl
        x86emuSetSegRegister (.seg .noseg) (← get16 r)
      else
        let addr ← decodeRmAddress m.mod m.regl
        x86emuSetSegRegister (.seg .noseg) (← fetchDataWord addr))
    have hchain : Chain Unchanged := ⟨Unchanged.refl, Unchanged.trans⟩
    have hraise := quiet_stays hh intrRaiseUd (by decide)
    have hcomma := quiet_stays hh (opDecode ",") (by decide)
    have hname := quiet_stays hh (decodeRmWordRegister m.regl) (by decide)
    have hreg := fun r => quiet_stays hh (get16 r) (by decide)
    have haddr := quiet_stays hh (decodeRmAddress m.mod m.regl) (by decide)
    have hfetch := fun addr => quiet_stays hh (fetchDataWord addr) (by decide)
    have hload := loadNoseg_stays hh
    refine .of_stays hh ?_
    infer_instance

theorem leaWordRM_spares (op : U8) : SparesUd h (leaWordRM op) := by
  unfold leaWordRM
  exact .checked hh (by decide) fun _ hmod => .neverMem hh hmod (by decide)

theorem loadFarPtr_spares (text : String) (seg : SegReg) : SparesUd h (loadFarPtr text seg) := by
  unfold loadFarPtr
  exact .checked hh (by decide) fun _ hmod => .neverMem hh hmod (by decide)

theorem movByteRmImm_spares (op : U8) : SparesUd h (movByteRmImm op) := by
  unfold movByteRmImm
  exact .checked hh (by decide) fun _ _ => .never hh (by decide)

theorem opcFeByteRm_spares (op : U8) : SparesUd h (opcFeByteRm op) := by
  unfold opcFeByteRm
  refine .bind hh (by decide) fun m => ?_
  split
  · exact .never hh (by decide)
  · exact .never hh (by decide)
  · exact .quiet hh (by decide)

theorem opcFfWordRm_spares (op : U8) : SparesUd h (opcFfWordRm op) := by
  unfold opcFfWordRm
  refine .bind hh (by decide) fun m => ?_
  split
  · exact .never hh (by decide)
  · exact .never hh (by decide)
  · exact .never hh (by decide)
  · exact .ite (fun _ => .quiet hh (by decide)) fun hmod => .neverMem hh hmod (by decide)
  · exact .never hh (by decide)
  · exact .ite (fun _ => .quiet hh (by decide)) fun hmod => .neverMem hh hmod (by decide)
  · exact .never hh (by decide)
  · exact .quiet hh (by decide)

end Op

namespace Op2

theorem illegalOp_spares (op : U8) : SparesUd h (illegalOp op) := .quiet hh (by decide)

theorem opc00_spares (op : U8) : SparesUd h (opc00 op) := by
  unfold opc00
  refine .bind hh (by decide) fun m => ?_
  split
  · next text _ => exact .bind hh (by decide) fun _ => .never hh (by decide)
  · exact .quiet hh (by decide)

theorem opc01_spares (op : U8) : SparesUd h (opc01 op) := by
  unfold opc01
  refine .bind hh (by decide) fun m => .ite (fun _ => .quiet hh (by decide)) fun hcheck => ?_
  have hmod := opc01_memForm hcheck
  split
  · next h => exact .neverMem hh (hmod (by omega) (by omega)) (by decide)
  · next h => exact .neverMem hh (hmod (by omega) (by omega)) (by decide)
  · next h => exact .neverMem hh (hmod (by omega) (by omega)) (by decide)
  · next h => exact .neverMem hh (hmod (by omega) (by omega)) (by decide)
  · exact .never hh (by decide)
  · exact .quiet hh (by decide)
  · exact .never hh (by decide)
  · next h4 _ h6 => exact .neverMem hh (hmod h4 h6) (by decide)

theorem movFromCtrl_spares (text : String) (regs : Cpu → BitVec 3 → U32) :
    SparesUd h (movFromCtrl text regs) := by
  unfold movFromCtrl
  refine .bind hh (by decide) fun _ => .bind hh (by decide) fun m => ?_
  exact .ite (fun _ => .never hh (by decide)) fun _ => .quiet hh (by decide)

theorem movToCtrl_spares (text : String) (set : BitVec 3 → U32 → Emu Unit) {f : Effects}
    [hs : ∀ r v, Does (set r v) 0 f] (hf : f ≤ neverUd) : SparesUd h (movToCtrl text set) := by
  unfold movToCtrl
  refine .bind hh (by decide) fun _ => .bind hh (by decide) fun m => ?_
  refine .bind hh (by decide) fun _ => .bind hh (by decide) fun _ => .ite (fun _ => ?_) fun _ => ?_
  · exact .bind hh (by decide) fun _ => .bind hh (by decide) fun _ => .never hh hf
  · exact .quiet hh (by decide)

theorem wrmsr_spares (op : U8) : SparesUd h (wrmsr op) := by
  unfold wrmsr
  exact .checked hh (by decide) fun _ _ => .never hh (by decide)

theorem rdmsr_spares (op : U8) : SparesUd h (rdmsr op) := by
  unfold rdmsr
  exact .checked hh (by decide) fun _ _ => .never hh (by decide)

/-- The handler of the host is called, or the fault is raised and nothing else done. -/
theorem cpuid_spares (op : U8) : SparesUd h (cpuid op) := by
  unfold cpuid
  refine .bind hh (by decide) fun _ => ⟨(grows_keeps hh).does _ le_top, fun s hraise => ?_⟩
  cases hcpuid : h.cpuid with
  | none =>
    have hrun : callCpuid.run h s = (false, s) := by
      show callHandler h.cpuid s = _
      rw [hcpuid]
      rfl
    rw [Prog.run_bind, hrun]
    exact (Unchanged.keeps hh.toPassive).does intrRaiseUd le_rfl s
  | some f =>
    have hrun : callCpuid.run h s = (true, f s) := by
      show callHandler h.cpuid s = _
      rw [hcpuid]
      rfl
    rw [Prog.run_bind, hrun] at hraise
    exact absurd hraise (hh.callbacks.cpuid hcpuid s).not_raises

theorem sysenter_spares (op : U8) : SparesUd h (sysenter op) := .quiet hh (by decide)

theorem sysexit_spares (op : U8) : SparesUd h (sysexit op) := .quiet hh (by decide)

theorem btXI_spares (op : U8) : SparesUd h (btXI op) := by
  unfold btXI
  refine .bind hh (by decide) fun m => ?_
  split
  · exact .never hh (by decide)
  · exact .quiet hh (by decide)

end Op2

/-- The second opcode bytes of the SSE instructions. -/
def sseOps : List (Nat × Nat) := [(0x10, 0x17), (0x28, 0x29), (0x2b, 0x2c), (0x54, 0x57)]

/-- The handlers of the second table that may raise the fault. -/
theorem optab2_spares : TableAll (fun i f => (effects2 i).1 = true → inBlocks sseOps i = false →
    ∀ op, SparesUd h (f op)) x86emuOptab2 0 := by
  unfold x86emuOptab2
  repeat' apply And.intro
  all_goals first
    | exact trivial
    | exact fun hud => absurd hud (by decide)
    | exact fun _ hcarry => absurd hcarry (by decide)
    | exact fun _ _ op => Op2.illegalOp_spares hh op
    | exact fun _ _ op => Op2.opc00_spares hh op
    | exact fun _ _ op => Op2.opc01_spares hh op
    | exact fun _ _ _ => Op2.movFromCtrl_spares hh _ _
    | exact fun _ _ _ => Op2.movToCtrl_spares hh _ _ (by decide)
    | exact fun _ _ op => Op2.wrmsr_spares hh op
    | exact fun _ _ op => Op2.rdmsr_spares hh op
    | exact fun _ _ op => Op2.cpuid_spares hh op
    | exact fun _ _ op => Op2.sysenter_spares hh op
    | exact fun _ _ op => Op2.sysexit_spares hh op
    | exact fun _ _ op => Op2.btXI_spares hh op
    | exact fun _ _ _ => Op.loadFarPtr_spares hh _ _

/-- The handlers of the first table that may raise the fault, but three. -/
theorem optab_spares : TableAll (fun i f => (effects1 i).1 = true →
    i ≠ 0x0f ∧ i ≠ 0x8c ∧ i ≠ 0xc7 → ∀ op, SparesUd h (f op)) x86emuOptab 0 := by
  unfold x86emuOptab
  repeat' apply And.intro
  all_goals first
    | exact trivial
    | exact fun hud => absurd hud (by decide)
    | exact fun _ hothers => absurd hothers (by decide)
    | exact fun _ _ op => Op.illegalOp_spares hh op
    | exact fun _ _ op => Op.popRm_spares hh op
    | exact fun _ _ op => Op.movWordSrRm_spares hh op
    | exact fun _ _ op => Op.leaWordRM_spares hh op
    | exact fun _ _ _ => Op.loadFarPtr_spares hh _ _
    | exact fun _ _ op => Op.movByteRmImm_spares hh op
    | exact fun _ _ op => Op.opcFeByteRm_spares hh op
    | exact fun _ _ op => Op.opcFfWordRm_spares hh op

end

/-! ## Handlers that go on -/

/-- The condition of `sse_enabled_check`. -/
def Cpu.sseEnabled (c : Cpu) : Bool :=
  !((c.crx 0).getLsbD 2 || !(c.crx 0).getLsbD 1) && (c.crx 4).getLsbD 9

theorem Unchanged.sseEnabled {s t : St} (hst : Unchanged s t) :
    t.cpu.sseEnabled = s.cpu.sseEnabled := by
  have hregs := congrArg Cpu.crx hst.cpu
  unfold Cpu.sseEnabled
  rw [show t.cpu.crx = s.cpu.crx from hregs]

section

variable {inp : PortInput} {h : Host} (hh : h.Orderly inp)

include hh

theorem udFree_bind {α β : Type} {x : Emu α} {k : α → Emu β} {n : Nat} {f : Effects}
    [hx : Does x n f] (hf : f ≤ neverUd) {s : St}
    (hk : UdFree (x.run h s).2 ((k (x.run h s).1).run h (x.run h s).2).2) :
    UdFree s ((x >>= k).run h s).2 := ((udFree_keeps hh).graded hx hf s).trans hk

/-- The register form and the memory form of an operand. -/
theorem udFree_form {mod : BitVec 2} {x y : Emu Unit} {n m : Nat} {f g : Effects}
    [hx : Does x n f] [hy : ∀ hmod : ¬mod = 3, Does (memForm hmod y) m g] (hf : f ≤ neverUd)
    (hg : g ≤ neverUd) (s : St) : UdFree s ((if mod = 3 then x else y).run h s).2 := by
  split
  · exact (udFree_keeps hh).graded hx hf s
  · next hmod => exact (udFree_keeps hh).graded (hy hmod) hg s

theorem fetchByte_val (s : St) : (fetchByte.run h s).1 = (s.code .b8 s.cpu.eip).setWidth 8 := by
  have hres := vmMemio_result inp s (.inr (.inr rfl)) .b8 (s.cpu.linear .cs s.cpu.eip) 0
  have hval : (fetchByte.run h s).1 =
      (h.memio s .x .b8 (s.cpu.linear .cs s.cpu.eip) 0).1.1.setWidth 8 := by
    unfold fetchByte fetchCode decodeMemio loggedMemio
    simp only [Prog.run_bind, Prog.run_ite]
    split <;> split <;> rfl
  rw [hval, hh.memio, hres]
  rfl

theorem fetchDecodeModrm_val (s : St) : (fetchDecodeModrm.run h s).1 =
    .ofByte ((s.code .b8 s.cpu.eip).setWidth 8) := by
  rw [← fetchByte_val hh s]
  rfl

namespace Op

/-- `MOV` from one of the six segment registers. -/
theorem movWordRmSr_udFree (op : U8) {s : St}
    (hreg : (ModRm.ofByte ((s.code .b8 s.cpu.eip).setWidth 8)).regh.toNat < 6) :
    UdFree s ((movWordRmSr op).run h s).2 := by
  unfold movWordRmSr
  refine udFree_bind hh (by decide) (udFree_bind hh (by decide) ?_)
  have hmodrm : (fetchDecodeModrm.run h ((opDecode "mov ").run h s).2).1 =
      .ofByte ((s.code .b8 s.cpu.eip).setWidth 8) := fetchDecodeModrm_val hh _
  rw [hmodrm]
  generalize ModRm.ofByte ((s.code .b8 s.cpu.eip).setWidth 8) = m at hreg ⊢
  have hsel : fetchSelector m.regh = (opDecode (SegReg.ofBits m.regh).name >>= fun _ => do
      return ((← getCpu).seg (SegReg.ofBits m.regh)).sel) := by
    unfold fetchSelector decodeRmSegRegister
    rw [if_pos hreg]
    rfl
  rw [hsel]
  exact udFree_form hh (by decide) (by decide) _

/-- `MOV` of an immediate word with a zero `reg` field. -/
theorem movWordRmImm_udFree (op : U8) {s : St}
    (hreg : (ModRm.ofByte ((s.code .b8 s.cpu.eip).setWidth 8)).regh = 0) :
    UdFree s ((movWordRmImm op).run h s).2 := by
  unfold movWordRmImm
  refine udFree_bind hh (by decide) (udFree_bind hh (by decide) ?_)
  have hmodrm : (fetchDecodeModrm.run h ((opDecode "mov ").run h s).2).1 =
      .ofByte ((s.code .b8 s.cpu.eip).setWidth 8) := fetchDecodeModrm_val hh _
  rw [hmodrm]
  generalize ModRm.ofByte ((s.code .b8 s.cpu.eip).setWidth 8) = m at hreg ⊢
  rw [if_neg (not_not.mpr hreg)]
  exact (udFree_keeps hh).does _ (by decide) _

end Op

namespace Op2

section

omit hh

/-- The check passes. -/
theorem sseEnabledCheck_run {s : St} (hsse : s.cpu.sseEnabled = true) :
    sseEnabledCheck.run h s = ((), s) := by
  unfold Cpu.sseEnabled at hsse
  rw [Bool.and_eq_true, Bool.not_eq_true', Bool.or_eq_false_iff] at hsse
  obtain ⟨⟨hem, hmp⟩, hfx⟩ := hsse
  have hpass : ¬((s.cpu.crx 0).getLsbD 2 = true ∨ (!(s.cpu.crx 0).getLsbD 1) = true) := by
    rw [hem, hmp]
    decide
  have hlast : ¬(!(s.cpu.crx 4).getLsbD 9) = true := by
    rw [hfx]
    decide
  unfold sseEnabledCheck
  rw [Prog.run_bind]
  refine (congrArg (fun x : Emu Unit => x.run h s) (if_neg hpass)).trans ?_
  exact congrArg (fun x : Emu Unit => x.run h s) (if_neg hlast)

theorem udFree_check {k : Unit → Emu Unit} {s : St} (hsse : s.cpu.sseEnabled = true)
    (hk : UdFree s ((k ()).run h s).2) : UdFree s ((sseEnabledCheck >>= k).run h s).2 := by
  rw [Prog.run_bind, sseEnabledCheck_run hsse]
  exact hk

end

theorem sseMovOps_udFree (op2 : U8) {s : St} (hsse : s.cpu.sseEnabled = true) :
    UdFree s ((sseMovOps op2).run h s).2 := by
  unfold sseMovOps
  refine udFree_bind hh (by decide) (udFree_check hsse (udFree_bind hh (by decide) ?_))
  exact udFree_form hh (by decide) (by decide) _

theorem ssePackOps_udFree {op2 : U8} {text : String} (htext : ssePackText op2 = some text) {s : St}
    (hsse : s.cpu.sseEnabled = true) : UdFree s ((ssePackOps op2).run h s).2 := by
  unfold ssePackOps sseText
  rw [htext]
  dsimp only
  refine udFree_bind hh (by decide) (udFree_check hsse ?_)
  exact (udFree_keeps hh).does _ (by decide) _

theorem sseLogicalOps_udFree {op2 : U8} {text : String} (htext : sseLogicalText op2 = some text)
    {s : St} (hsse : s.cpu.sseEnabled = true) : UdFree s ((sseLogicalOps op2).run h s).2 := by
  unfold sseLogicalOps sseText
  rw [htext]
  dsimp only
  refine udFree_bind hh (by decide) (udFree_check hsse ?_)
  exact (udFree_keeps hh).does _ (by decide) _

theorem sseMovPackedOps_udFree {op2 : U8} (htext : ∀ mod, (sseMovPackedText op2 mod).isSome = true)
    {s : St} (hsse : s.cpu.sseEnabled = true) : UdFree s ((sseMovPackedOps op2).run h s).2 := by
  have hquiet := (Unchanged.keeps hh.toPassive).does fetchDecodeModrm (by decide) s
  unfold sseMovPackedOps
  refine udFree_bind hh (by decide) ?_
  generalize (fetchDecodeModrm.run h s).1 = m
  obtain ⟨text, htext⟩ := Option.isSome_iff_exists.mp (htext m.mod)
  unfold sseText
  rw [htext]
  dsimp only
  refine udFree_bind hh (by decide) (udFree_check (hquiet.sseEnabled.trans hsse) ?_)
  exact udFree_form hh (by decide) (by decide) _

/-- While SSE is enabled, no SSE instruction raises the fault. -/
theorem sse_udFree {op2 : U8} (hop2 : inBlocks sseOps op2.toNat = true) {s : St}
    (hsse : s.cpu.sseEnabled = true) :
    UdFree s ((handlerAt x86emuOptab2 op2 op2).run h s).2 := by
  have hcases : ∀ op2 : U8, inBlocks sseOps op2.toNat = true →
      op2 ∈ [0x10, 0x11, 0x28, 0x29, 0x2b, 0x2c] ∨ op2 ∈ [0x12, 0x13, 0x16, 0x17] ∨
        op2 ∈ [0x14, 0x15] ∨ op2 ∈ [0x54, 0x55, 0x56, 0x57] := by decide
  simp only [List.mem_cons, List.not_mem_nil, or_false] at hcases
  rcases hcases op2 hop2 with hmov | hpacked | hpack | hlogical
  · rcases hmov with rfl | rfl | rfl | rfl | rfl | rfl <;>
      exact sseMovOps_udFree hh _ hsse
  · rcases hpacked with rfl | rfl | rfl | rfl <;>
      exact sseMovPackedOps_udFree hh (fun _ => rfl) hsse
  · rcases hpack with rfl | rfl <;> exact ssePackOps_udFree hh rfl hsse
  · rcases hlogical with rfl | rfl | rfl | rfl <;> exact sseLogicalOps_udFree hh rfl hsse

end Op2

/-! ## Instructions -/

/-- The second byte of the opcode after 0x0f, and the `reg` field of the byte after any other
opcode. -/
def St.opcodeExt (s : St) (op1 : U8) : U8 :=
  let next : U8 := (s.code .b8 s.cpu.eip).setWidth 8
  if op1 = 0x0f then next else (ModRm.ofByte next).regh.setWidth 8

/-- For which of them the handler goes on after it has raised `#UD`. -/
def carryingExts (op1 : U8) : List (Nat × Nat) :=
  match op1.toNat with
  | 0x8c => [(6, 7)]
  | 0xc7 => [(1, 7)]
  | 0x0f => sseOps
  | _ => []

/-- The instruction goes on after it has raised `#UD`; `sse` says whether SSE is enabled. -/
def CarriesOn (op1 ext : U8) (sse : Bool) : Prop :=
  inBlocks (carryingExts op1) ext.toNat = true ∧ (op1 = 0x0f → sse = false)

theorem twoByte_spares {op2 : U8} (hsse : ¬inBlocks sseOps op2.toNat = true) :
    SparesUd h (handlerAt x86emuOptab2 op2 op2) := by
  by_cases hud : (effects2 op2.toNat).1 = true
  · have htable := (optab2_spares hh).handlerAt length_x86emuOptab2 op2
    exact htable hud (Bool.not_eq_true _ ▸ hsse) op2
  · have hdoes := handler2_does op2
    exact .never hh (le_neverUd hud)

theorem oneByte_spares {op1 : U8} (hop1 : op1 ≠ 0x0f ∧ op1 ≠ 0x8c ∧ op1 ≠ 0xc7) :
    SparesUd h (handlerAt x86emuOptab op1 op1) := by
  by_cases hud : (effects1 op1.toNat).1 = true
  · have htable := (optab_spares hh).handlerAt length_x86emuOptab op1
    have hnat : ∀ op : U8, op1 ≠ op → op1.toNat ≠ op.toNat := fun op hne heq =>
      hne (BitVec.eq_of_toNat_eq heq)
    exact htable hud ⟨hnat 0x0f hop1.1, hnat 0x8c hop1.2.1, hnat 0xc7 hop1.2.2⟩ op1
  · have hdoes := handler_does op1
    exact .never hh (le_neverUd hud)

theorem runHandler_spares {op1 : U8} {s : St}
    (hcarry : ¬CarriesOn op1 (s.opcodeExt op1) s.cpu.sseEnabled)
    (hraise : RaisesUd s (runHandler h op1 s)) : Unchanged s (runHandler h op1 s) := by
  unfold CarriesOn at hcarry
  by_cases htwo : op1 = 0x0f
  · subst htwo
    rw [runHandler_twoByte, fetchByte_val hh] at hraise ⊢
    change ¬(inBlocks sseOps ((s.code .b8 s.cpu.eip).setWidth 8 : U8).toNat = true ∧ _) at hcarry
    generalize (s.code .b8 s.cpu.eip).setWidth 8 = op2 at hcarry hraise ⊢
    by_cases hop2 : inBlocks sseOps op2.toNat = true
    · have hon : s.cpu.sseEnabled = true := by
        by_contra hoff
        exact hcarry ⟨hop2, fun _ => Bool.not_eq_true _ ▸ hoff⟩
      have hquiet := (Unchanged.keeps hh.toPassive).does fetchByte (by decide) s
      have hfree := ((udFree_keeps hh).does fetchByte (by decide) s).trans
        (Op2.sse_udFree hh hop2 (hquiet.sseEnabled.trans hon))
      exact absurd hraise (UdFree.not_raises hfree)
    · exact (SparesUd.bind (x := fetchByte) hh (by decide) fun _ => twoByte_spares hh hop2).spares
        s hraise
  · have hexts := not_and'.mp hcarry fun hop1 => absurd hop1 htwo
    unfold St.opcodeExt at hexts
    rw [if_neg htwo] at hexts
    by_cases hmov : op1 = 0x8c
    · subst hmov
      have hreg : ∀ r : BitVec 3, ¬inBlocks (carryingExts 0x8c) (r.setWidth 8 : U8).toNat = true →
          r.toNat < 6 := by decide
      exact absurd hraise (UdFree.not_raises (Op.movWordRmSr_udFree hh 0x8c (hreg _ hexts)))
    · by_cases hmovImm : op1 = 0xc7
      · subst hmovImm
        have hreg : ∀ r : BitVec 3,
            ¬inBlocks (carryingExts 0xc7) (r.setWidth 8 : U8).toNat = true → r = 0 := by decide
        exact absurd hraise (UdFree.not_raises (Op.movWordRmImm_udFree hh 0xc7 (hreg _ hexts)))
      · exact (oneByte_spares hh ⟨htwo, hmov, hmovImm⟩).spares s hraise

/-! ## Iterations -/

theorem unchanged_steps : StepRule h Unchanged where
  refl := .refl
  trans := .trans
  cpu hf s := by
    obtain ⟨_, _, _, _, _, _, heq⟩ := hf s.cpu
    rw [heq]
    exact .of_eq rfl rfl
  buffers _ _ _ := .of_eq rfl rfl
  clock _ _ := .of_eq rfl rfl
  fetch s := (Unchanged.keeps hh.toPassive).does fetchByte (by decide) s
  peek addr s := Unchanged.callMemio hh.toPassive (by decide) _ addr _ s
  codeCheck hf s := hh.codeCheck hf s

theorem udFree_steps : StepRule h UdFree where
  refl := .refl
  trans := .trans
  cpu _ _ := .of_same rfl
  buffers _ _ _ := .of_same rfl
  clock _ _ := .of_same rfl
  fetch s := (udFree_keeps hh).does fetchByte (by decide) s
  peek addr s := Records.callMemio hh.callbacks (fun _ _ _ _ _ => rfl) _ _ addr _ s
  codeCheck hf s := hh.callbacks.codeCheck hf s

end

/-- An iteration from `s` dispatches an instruction in the state `u`. -/
structure Dispatches (h : Host) (e : RunEnv) (s : St) (op1 ext : U8) (sse : Bool) (u : St) :
    Prop where
  exec : ∃ rs rs', runChecks h e rs (logRegs h (startInstr s)) = (.exec rs' op1, u)
  ext : u.opcodeExt op1 = ext
  sse : u.cpu.sseEnabled = sse

theorem Dispatches.unchanged {inp : PortInput} {h : Host} (hh : h.Orderly inp) {op1 ext : U8}
    {sse : Bool} {e : RunEnv} {s u : St} (hdispatch : Dispatches h e s op1 ext sse u)
    (hcarry : ¬CarriesOn op1 ext sse) (hraise : RaisesUd s (afterHandler h op1 u)) :
    Unchanged s (afterHandler h op1 u) := by
  obtain ⟨⟨rs, rs', hchecks⟩, rfl, rfl⟩ := hdispatch
  have hquiet := (unchanged_steps hh).checks (Unchanged.logBlind hh.toPassive) e rs s
  have hfree := (udFree_steps hh).checks (Records.logBlind hh.callbacks) e rs s
  rw [hchecks] at hquiet hfree
  have hstart : Unchanged s { u with hist := .instr op1 :: u.hist } :=
    hquiet.trans (.of_eq rfl rfl)
  have hfree' : UdFree s { u with hist := .instr op1 :: u.hist } :=
    hfree.trans (.of_event rfl rfl)
  have hgrows : Records (fun _ => True) { u with hist := .instr op1 :: u.hist }
      (afterHandler h op1 u) := (grows_keeps hh).handler le_top _
  exact hstart.trans (runHandler_spares hh hcarry (hfree'.raises hgrows hraise))

/-- Between the start of an iteration and the delivery of the interrupts, such an instruction
changes nothing whenever it raises `#UD`. -/
def UdUnchanged (op1 ext : U8) (sse : Bool) : Prop :=
  ∀ (inp : PortInput) (h : Host), h.Orderly inp → ∀ (e : RunEnv) (s u : St),
    Dispatches h e s op1 ext sse u → RaisesUd s (afterHandler h op1 u) →
    Unchanged s (afterHandler h op1 u)

/-! ## Instructions that leave a trace -/

instance (op1 ext : U8) (sse : Bool) : Decidable (CarriesOn op1 ext sse) := by
  unfold CarriesOn
  infer_instance

/-- An instruction of this form with the operand `ax`, with `xmm0` and `xmm1` or, where there is no
such form, with `xmm0` and the memory at 0x800. -/
def udCode (op1 ext : U8) : List U8 :=
  if op1 = 0x0f then
    if ext = 0x13 ∨ ext = 0x17 then [0x0f, ext, 0x06, 0x00, 0x08] else [0x0f, ext, 0xc1]
  else [op1, 0xc0 ||| ext <<< 3, 0x34, 0x12]

/-- The state after a reset with the instruction at the start of the segment. All general registers
hold 1, all bytes of `xmm0` hold 0x0f and those of the other XMM registers 0x33. -/
def udState (op1 ext : U8) (sse : Bool) : St :=
  { cpu := { resetCpu with
      gen := fun _ => 1
      eip := 0
      xmm := fun r _ => if r = 0 then 0x0f else 0x33
      crx := fun i => if sse then if i = 0 then 2 else if i = 4 then 0x200 else 0 else 0 }
    mem := fullMem fun i => (udCode op1 ext).getD i.toNat 0 }

/-- What an iteration from `s` dispatches. -/
def dispatch (s : St) : Checked × St :=
  let h := defaultHost fun _ _ _ => 0
  runChecks h { flags := 0, fuel := 1 } 0 (logRegs h (startInstr s))

/-- `ax`, `xmm0` or the byte at 0x800 differs. -/
def TraceLeft (s t : St) : Prop :=
  t.cpu.gen .ax ≠ s.cpu.gen .ax ∨ (∃ i, t.cpu.xmm 0 i ≠ s.cpu.xmm 0 i) ∨
    (t.mem.flat 0x800).data ≠ (s.mem.flat 0x800).data

theorem TraceLeft.not_unchanged {s t : St} (htrace : TraceLeft s t) : ¬Unchanged s t := by
  intro hnone
  rcases htrace with hgen | ⟨i, hxmm⟩ | hdata
  · exact hgen (congrFun hnone.gen .ax)
  · have hregs := congrArg Cpu.xmm hnone.cpu
    exact hxmm (congrFun (congrFun hregs 0) i)
  · exact hdata (hnone.data 0x800)

/-- The handler of the iteration from `udState` raises `#UD` and leaves a trace. -/
def GoesWrong (op1 ext : U8) (sse : Bool) : Prop :=
  let s := udState op1 ext sse
  let u := (dispatch s).2
  (dispatch s).1 = .exec 0 op1 ∧ u.opcodeExt op1 = ext ∧ u.cpu.sseEnabled = sse ∧
    RaisesUd s (afterHandler (defaultHost fun _ _ _ => 0) op1 u) ∧
    TraceLeft s (afterHandler (defaultHost fun _ _ _ => 0) op1 u)

instance (s t : St) : Decidable (TraceLeft s t) := by
  unfold TraceLeft
  infer_instance

instance (op1 ext : U8) (sse : Bool) : Decidable (GoesWrong op1 ext sse) := by
  unfold GoesWrong
  infer_instance

theorem movWordRmSr_goesWrong : ∀ ext sse, CarriesOn 0x8c ext sse → GoesWrong 0x8c ext sse := by
  decide +kernel

theorem movWordRmImm_goesWrong : ∀ ext sse, CarriesOn 0xc7 ext sse → GoesWrong 0xc7 ext sse := by
  decide +kernel

theorem sse_goesWrong : ∀ ext sse, CarriesOn 0x0f ext sse → GoesWrong 0x0f ext sse := by
  decide +kernel

theorem CarriesOn.goesWrong {op1 ext : U8} {sse : Bool} (hcarry : CarriesOn op1 ext sse) :
    GoesWrong op1 ext sse := by
  have hop1 : ∀ op1 : U8, carryingExts op1 ≠ [] → op1 = 0x8c ∨ op1 = 0xc7 ∨ op1 = 0x0f := by
    decide
  have hsome : carryingExts op1 ≠ [] := by
    intro hnone
    have hin := hcarry.1
    rw [hnone] at hin
    exact Bool.false_ne_true hin
  rcases hop1 op1 hsome with rfl | rfl | rfl
  · exact movWordRmSr_goesWrong ext sse hcarry
  · exact movWordRmImm_goesWrong ext sse hcarry
  · exact sse_goesWrong ext sse hcarry

theorem defaultHost_orderly (inp : PortInput) : (defaultHost inp).Orderly inp where
  memio := rfl
  flush hf := by cases hf
  callbacks := defaultHost_respects inp (fun _ _ _ => .of_same rfl) (fun _ => .of_same rfl)
    fun _ => .of_same rfl
  codeCheck hf := by cases hf

theorem GoesWrong.not_udUnchanged {op1 ext : U8} {sse : Bool} (hwrong : GoesWrong op1 ext sse) :
    ¬UdUnchanged op1 ext sse := by
  intro hclaim
  obtain ⟨hexec, hext, hsse, hraise, htrace⟩ := hwrong
  have hdispatch : Dispatches (defaultHost fun _ _ _ => 0) { flags := 0, fuel := 1 }
      (udState op1 ext sse) op1 ext sse (dispatch (udState op1 ext sse)).2 :=
    ⟨⟨0, 0, Prod.ext hexec rfl⟩, hext, hsse⟩
  exact htrace.not_unchanged (hclaim _ _ (defaultHost_orderly _) _ _ _ hdispatch hraise)

end X86Emu
