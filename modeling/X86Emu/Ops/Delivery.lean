import X86Emu.Ops.Calls
import X86Emu.Ops.StackForms

/-!
# Delivery of interrupts

What `generate_int` does after the host's handler, as a function of the state: the entry of the
interrupt table is read, the frame is pushed, and `CS` and `EIP` are loaded.
-/

namespace X86Emu

open Lib

/-! ## The interrupt table -/

/-- `CS` and `IP` of a vector in real mode. -/
def St.vector (s : St) (nr : U8) : U16 × U16 :=
  let addr := s.cpu.idtBase + nr.setWidth 32 <<< 2
  (s.mem.num .word (addr + 2), s.mem.num .word addr)

/-- What `idt_lookup` returns; `ret` is what it is given. -/
def St.idtEntry (s : St) (nr : U8) (ret : U32 × U32) : U32 × U32 :=
  if s.cpu.prot then
    match s.idtGate nr with
    | some d => (d.sel.setWidth 32, d.offset)
    | none => ret
  else ((s.vector nr).1.setWidth 32, (s.vector nr).2.setWidth 32)

/-- The state after `idt_lookup`. -/
def St.idtRead (s : St) (nr : U8) : St :=
  if s.cpu.prot then
    let ofs : U32 := nr.setWidth 32 <<< 3
    if ofs + 7 ≤ s.cpu.idtLimit then
      (s.accessed .r .b32 (s.cpu.idtBase + ofs) 0).accessed .r .b32 (s.cpu.idtBase + ofs + 4) 0
    else s
  else
    let addr := s.cpu.idtBase + nr.setWidth 32 <<< 2
    (s.accessed .r .b16 addr 0).accessed .r .b16 (addr + 2) 0

/-- The value that a read returns has no more bits than are read. -/
theorem num_setWidth (mem : Mem) (z : OpSize) (a : U32) :
    (mem.num z a).setWidth 32 = (mem.access .r z.width.bits a 0).1.1 := by
  have hbits : z.bits ≤ 32 := by cases z <;> decide
  have hval : ∃ x : BitVec z.bits, (mem.access .r z.width.bits a 0).1.1 = x.setWidth 32 := by
    rw [(access_refines (Or.inr (by decide)) z.width.bits a 0).1]
    cases z with
    | byte => exact ⟨_, rfl⟩
    | word => exact ⟨_, rfl⟩
    | long => exact ⟨_, (BitVec.setWidth_eq _).symm⟩
  obtain ⟨x, hx⟩ := hval
  unfold Mem.num
  rw [hx, BitVec.setWidth_setWidth_of_le x hbits, BitVec.setWidth_eq]

theorem access_read_val (mem : Mem) (bits : MemioBits) (a v : U32) :
    mem.access .r bits a v = mem.access .r bits a 0 := by
  cases bits <;> rfl

/-- The gate in the two dwords of an entry, each with its error. -/
def gateOf (lo hi : U32 × Bool) : Option Descr :=
  let d := parseDescriptor lo.1 hi.1
  if !lo.2 ∧ !hi.2 ∧ !d.invalid ∧ d.p ∧ d.iGate then some d else none

theorem idtGate_eq (s : St) (nr : U8) : s.idtGate nr =
    let ofs : U32 := nr.setWidth 32 <<< 3
    if ofs + 7 ≤ s.cpu.idtLimit then
      gateOf (s.mem.access .r .b32 (s.cpu.idtBase + ofs) 0).1
        (s.mem.access .r .b32 (s.cpu.idtBase + ofs + 4) 0).1
    else none := by
  unfold St.idtGate gateOf
  dsimp only
  by_cases hlimit : (nr.setWidth 32 <<< 3 : U32) + 7 ≤ s.cpu.idtLimit
  · rw [if_pos hlimit]
    simp only [hlimit, true_and]
  · rw [if_neg hlimit, if_neg fun h => hlimit h.1]

section

variable {inp : PortInput} {h : Host} (hh : h.Blind inp)

include hh

theorem seen_readVal (width : MemioWidth) (a v : U32) (s : St) :
    seen h (decodeMemio .r width a v) s =
      ((s.mem.access .r width.bits a 0).1, (s.accessed .r width a 0).view) := by
  refine (seen_loggedMemio hh (Or.inl rfl) width a v s).trans ?_
  unfold St.accessed
  rw [access_read_val]

omit hh in
/-- A read leaves what another read returns. -/
theorem accessed_result (s : St) (width : MemioWidth) (a b : U32) :
    ((s.accessed .r width a 0).mem.access .r width.bits b 0).1 =
      (s.mem.access .r width.bits b 0).1 :=
  (Mem.Marked.access (by decide) width.bits a 0 s.mem).access_result (by decide) width.bits b 0

theorem seen_gateOf (lo hi : U32 × Bool) (ret : U32 × U32) (s : St) :
    seen h (if lo.2 || hi.2 then pure ret
      else do
        let d ← decodeDescriptor lo.1 hi.1
        if !d.invalid && d.p && d.iGate then pure (d.sel.setWidth 32, d.offset) else pure ret) s =
      (match gateOf lo hi with
        | some d => (d.sel.setWidth 32, d.offset)
        | none => ret, s.view) := by
  obtain ⟨dl, err₀⟩ := lo
  obtain ⟨dh, err₁⟩ := hi
  unfold gateOf
  dsimp only
  rw [seen_ite, seen_step hh (seen_decodeDescriptor hh dl dh s), seen_ite, seen_pure, seen_pure]
  generalize parseDescriptor dl dh = d
  cases err₀ <;> cases err₁ <;> cases d.invalid <;> cases d.p <;> cases d.iGate <;> rfl

theorem seen_idtLookup (nr : U8) (ret : U32 × U32) (s : St) :
    seen h (idtLookup nr ret.1 ret.2) s = (s.idtEntry nr ret, (s.idtRead nr).view) := by
  unfold idtLookup St.idtEntry St.idtRead
  rw [seen_step hh (seen_getCpu s), seen_ite]
  cases hprot : s.cpu.prot with
  | true =>
    rw [if_pos rfl, if_pos rfl, if_pos rfl]
    dsimp only
    rw [seen_step hh (seen_getCpu s), seen_ite]
    by_cases hlimit : (nr.setWidth 32 <<< 3 : U32) + 7 ≤ s.cpu.idtLimit
    · rw [if_pos hlimit, if_pos hlimit, seen_step hh (seen_getCpu s),
        seen_step hh (seen_readVal hh _ _ _ s), seen_step hh (seen_getCpu _),
        seen_step hh (seen_readVal hh _ _ _ _), accessed_result, idtGate_eq]
      dsimp only
      rw [if_pos hlimit]
      exact seen_gateOf hh _ _ ret _
    · rw [if_neg hlimit, if_neg hlimit, idtGate_eq]
      dsimp only
      rw [if_neg hlimit]
      exact seen_pure _ _
  | false =>
    rw [if_neg Bool.false_ne_true, if_neg Bool.false_ne_true, if_neg Bool.false_ne_true]
    dsimp only
    rw [seen_step hh (seen_getCpu s), seen_step hh (seen_readVal hh _ _ _ s),
      seen_step hh (seen_getCpu _), seen_step hh (seen_readVal hh _ _ _ _), accessed_result,
      seen_pure]
    unfold St.vector
    rw [num_setWidth, num_setWidth]
    rfl

end

/-! ## The frame -/

/-- The size of the numbers in the frame. -/
def Cpu.frameSize (c : Cpu) : OpSize := if c.prot && c.mode.code32 then .long else .word

/-- What is pushed for a return to `ret`. -/
def Cpu.frame (c : Cpu) (ret : U32 × U32) : List (BitVec c.frameSize.bits) :=
  [c.eflg.setWidth _, ret.1.setWidth _, ret.2.setWidth _]

/-- The pushes of `generate_int`. -/
def St.withFrame (s : St) (ret : U32 × U32) (type errcode : U32) : St :=
  let p := s.pushes s.cpu.frameSize (s.cpu.frame ret)
  if type &&& intrModeErrcode ≠ 0 then p.pushed .b32 errcode else p

/-- `IF` and `TF` are cleared. -/
def Cpu.masked (c : Cpu) : Cpu := (c.flagged (clearFlag .if')).flagged (clearFlag .tf)

/-- `generate_int` after the host's handler. -/
def St.delivered (s : St) (nr : U8) (type errcode : U32) : St :=
  let ret := s.cpu.returnAddr type
  let new := s.idtEntry nr ret
  (((s.idtRead nr).withFrame ret type errcode).put Cpu.masked).wentFar (new.1.setWidth 16) new.2

section

variable {inp : PortInput} {h : Host} (hh : h.Blind inp)

include hh

theorem seen_pushFrame (ret : U32 × U32) (s : St) : seen h (pushFrame ret.1 ret.2) s =
    ((), (s.pushes s.cpu.frameSize (s.cpu.frame ret)).view) := by
  unfold pushFrame Cpu.frame Cpu.frameSize
  rw [seen_step hh (seen_getCpu s), seen_ite]
  cases s.cpu.prot && s.cpu.mode.code32 with
  | true =>
    rw [if_pos rfl, seen_step hh (seen_getCpu s), seen_step hh (seen_pushLong hh _ s),
      seen_step hh (seen_pushLong hh _ _), seen_pushLong hh]
    have hsame : ∀ v : U32, (v.setWidth OpSize.long.bits).setWidth 32 = v :=
      fun v => (BitVec.setWidth_eq _).trans (BitVec.setWidth_eq v)
    have hpushes : s.pushes .long [s.cpu.eflg.setWidth _, ret.1.setWidth _, ret.2.setWidth _] =
        ((s.pushed .b32 s.cpu.eflg).pushed .b32 ret.1).pushed .b32 ret.2 := by
      simp only [St.pushes, List.foldl_cons, List.foldl_nil, hsame]
      rfl
    exact congrArg (fun t : St => ((), t.view)) hpushes.symm
  | false =>
    rw [if_neg Bool.false_ne_true, seen_step hh (seen_getCpu s),
      seen_step hh (seen_pushWord hh _ s),
      seen_step hh (seen_pushWord hh _ _), seen_pushWord hh]
    rfl

theorem seen_deliverInt (nr : U8) (type errcode : U32) (s : St) :
    seen h (deliverInt nr type errcode) s = ((), (s.delivered nr type errcode).view) := by
  have htail : ∀ cs eip t, seen h (do
      flags (clearFlag .if')
      flags (clearFlag .tf)
      x86emuSetSegRegister (.seg .cs) cs
      setEip eip) t = ((), ((t.put Cpu.masked).wentFar cs eip).view) := by
    intro cs eip t
    rw [seen_step hh (seen_flags _ t), seen_step hh (seen_flags _ _)]
    exact seen_farTransfer hh cs eip _
  unfold deliverInt St.delivered
  rw [seen_step hh (seen_getCpu s)]
  dsimp only
  rw [seen_step hh (seen_idtLookup hh nr _ s), seen_step hh (seen_pushFrame hh _ _), seen_ite]
  unfold St.withFrame
  dsimp only
  split
  · rw [seen_step hh (seen_pushLong hh _ _)]
    exact htail _ _ _
  · exact htail _ _ _

/-- An interrupt that the host's handler leaves to the emulator. -/
theorem generateInt_delivered (hdecl : h.Declines) (nr : U8) (type errcode : U32) (s : St) :
    ∃ r : St, r.cpu = s.cpu ∧ r.mem = s.mem ∧ r.intr = s.intr ∧
      (generateInt nr type errcode h s).view = (r.delivered nr type errcode).view := by
  have hcall : ∀ u, callIntr nr type h u = (false, u) := by
    intro u
    unfold callIntr
    cases hf : h.intr with
    | none => rfl
    | some f => exact hdecl hf u nr type
  refine ⟨{ s with
    intrStats := Function.update s.intrStats nr (s.intrStats nr + 1)
    hist := .deliver nr type :: s.hist }, rfl, rfl, rfl, ?_⟩
  unfold generateInt
  dsimp only
  rw [hcall]
  exact congrArg Prod.snd (seen_deliverInt hh nr type errcode _)

theorem handleInterrupt_delivered (hdecl : h.Declines) {s : St} (hpend : s.intr.type ≠ 0) :
    ∃ r : St, r.cpu = s.cpu ∧ r.mem = s.mem ∧
      (handleInterrupt h s).cpu = (r.delivered s.intr.nr s.intr.type s.intr.errcode).cpu ∧
      (handleInterrupt h s).mem = (r.delivered s.intr.nr s.intr.type s.intr.errcode).mem := by
  have hline : (logLine 128 (·.has traceInts) (fun s => intText s.intr) h s).view = s.view :=
    hh.logBlind.line _ _ _ s
  unfold handleInterrupt
  rw [if_neg hpend]
  dsimp only
  generalize logLine 128 (·.has traceInts) (fun s => intText s.intr) h s = t at hline
  obtain ⟨htcpu, htmem, htintr⟩ := view_parts hline
  obtain ⟨r, hcpu, hmem, -, hview⟩ :=
    generateInt_delivered hh hdecl t.intr.nr t.intr.type t.intr.errcode t
  obtain ⟨hcpu', hmem', -⟩ := view_parts hview
  rw [htintr] at hcpu' hmem' ⊢
  exact ⟨r, hcpu.trans htcpu, hmem.trans htmem, hcpu', hmem'⟩

end

/-! ## What a delivery leaves -/

theorem idtRead_reads (s : St) (nr : U8) : (s.idtRead nr).cpu = s.cpu ∧
    s.mem.Marked (s.idtRead nr).mem := by
  have hread : ∀ (width : MemioWidth) (a : U32) (mem : Mem),
      mem.Marked (mem.access .r width.bits a 0).2 :=
        fun width a mem => .access (by decide) _ a 0 mem
  unfold St.idtRead
  split
  · dsimp only
    split
    · exact ⟨rfl, (hread .b32 _ _).trans (hread .b32 _ _)⟩
    · exact ⟨rfl, .refl _⟩
  · exact ⟨rfl, (hread .b16 _ _).trans (hread .b16 _ _)⟩

/-- The bytes of the frame. -/
def Cpu.frameLen (c : Cpu) (type : U32) : Nat :=
  3 * c.frameSize.bytes + if type &&& intrModeErrcode ≠ 0 then 4 else 0

theorem withFrame_cpu (s : St) (ret : U32 × U32) (type errcode : U32) :
    (s.withFrame ret type errcode).cpu =
      s.cpu.moveSp (-BitVec.ofNat 32 (s.cpu.frameLen type)) := by
  unfold St.withFrame Cpu.frameLen
  dsimp only
  split
  · rw [pushed_cpu, pushes_cpu, moveSp_moveSp, BitVec.ofNat_add, BitVec.neg_add,
      BitVec.sub_eq_add_neg]
    rfl
  · rw [pushes_cpu, Nat.add_zero]
    rfl

/-- The same frame, when only access marks were set before. -/
theorem withFrame_resumes {s u : St} (hsep : s.mem.Sep) (hcpu : u.cpu = s.cpu)
    (hmem : s.mem.Marked u.mem) (ret : U32 × U32) (type errcode : U32) :
    Resumes (s.withFrame ret type errcode) (u.withFrame ret type errcode) := by
  have hres : Resumes s u := ⟨by rw [hcpu], by rw [hcpu], by rw [hcpu], hmem⟩
  have hpushes := hres.pushes hsep (s.cpu.frame ret)
  unfold St.withFrame
  rw [hcpu]
  dsimp only
  split
  · exact hpushes.pushed ((pushes_guarded hsep _).sep hsep) .long errcode
  · exact hpushes

/-- The delivery but for `CS`, whose load is the last thing done. -/
theorem delivered_kept {s : St} (hsep : s.mem.Sep) (nr : U8) (type errcode : U32) :
    Resumes (s.withFrame (s.cpu.returnAddr type) type errcode) (s.delivered nr type errcode) ∧
    (s.delivered nr type errcode).cpu.eip = (s.idtEntry nr (s.cpu.returnAddr type)).2 ∧
    (s.delivered nr type errcode).cpu.eflg = s.cpu.masked.eflg ∧
    (s.delivered nr type errcode).cpu.tables = s.cpu.tables := by
  obtain ⟨htables, hgen, hmode, hss, hmem⟩ := wentFar_kept
    (((s.idtRead nr).withFrame (s.cpu.returnAddr type) type errcode).put Cpu.masked)
    ((s.idtEntry nr (s.cpu.returnAddr type)).1.setWidth 16)
    (s.idtEntry nr (s.cpu.returnAddr type)).2
  have heflg := wentFar_eflg
    (((s.idtRead nr).withFrame (s.cpu.returnAddr type) type errcode).put Cpu.masked)
    ((s.idtEntry nr (s.cpu.returnAddr type)).1.setWidth 16)
    (s.idtEntry nr (s.cpu.returnAddr type)).2
  obtain ⟨hcpu, hmarked⟩ := idtRead_reads s nr
  refine ⟨(withFrame_resumes hsep hcpu hmarked _ type errcode).trans
    ⟨congrFun hgen .sp, hss, congrArg Mode.stack32 hmode, hmem⟩, rfl, heflg.trans ?_,
    htables.trans ?_⟩
  all_goals
    rw [put_cpu, withFrame_cpu, hcpu, moveSp_eq]
    rfl

end X86Emu
