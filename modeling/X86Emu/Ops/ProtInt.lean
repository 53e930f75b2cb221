import X86Emu.Ops.Delivery
import X86Emu.Ops.Lldt
import X86Emu.Ops.PushPop

/-!
# Interrupts in protected mode

`generate_int` pushes the frame before it loads `CS`, and goes on when there is no gate or when the
load fails. So an interrupt is either taken or leaves a frame of no use on the stack; it is taken
when the gate, its code segment and the stack are all in order.
-/

namespace X86Emu

open Lib

/-! ## Numbers of different sizes on the stack -/

abbrev Num : Type := (z : OpSize) × BitVec z.bits

/-- The numbers are pushed one after the other. -/
def St.pushNums (s : St) (ns : List Num) : St :=
  ns.foldl (fun s n => s.pushed n.1.width (n.2.setWidth 32)) s

def numsBytes (ns : List Num) : Nat := (ns.map (·.1.bytes)).sum

/-- Each number with the address that it is pushed to. -/
def Cpu.Slots (c : Cpu) (P : U32 → Num → Prop) : List Num → Prop
  | [] => True
  | n :: ns => P (c.below n.1.bytes) n ∧ (c.moveSp (-BitVec.ofNat 32 n.1.bytes)).Slots P ns

/-- The bytes of the number are in memory. -/
def Mem.Holds (mem : Mem) (a : U32) (n : Num) : Prop :=
  ∀ i < n.1.bytes, (mem.flat (a + BitVec.ofNat 32 i)).data = n.2.extractLsb' (8 * i) 8

/-- Each byte of the number may be written, or is there already. -/
def Mem.Takes (mem : Mem) (a : U32) (n : Num) : Prop :=
  ∀ i < n.1.bytes, (mem.flat (a + BitVec.ofNat 32 i)).attr.has permW = true ∨
    (mem.flat (a + BitVec.ofNat 32 i)).data = n.2.extractLsb' (8 * i) 8

/-- The address is not one of the number's. -/
def Apart (b a : U32) (n : Num) : Prop := ∀ i < n.1.bytes, b ≠ a + BitVec.ofNat 32 i

theorem write_data_iff (c : Cell) (v : U8) :
    (Cell.write v c).2.data = v ↔ c.attr.has permW = true ∨ c.data = v := by
  unfold Cell.write
  split
  · next hperm => exact iff_of_true rfl (Or.inl hperm)
  · next hperm => exact (or_iff_right hperm).symm

theorem holds_stored {mem : Mem} (hsep : mem.Sep) (a : U32) (n : Num) :
    (mem.access .w n.1.width.bits a (n.2.setWidth 32)).2.Holds a n ↔ mem.Takes a n := by
  refine forall_congr' fun i => forall_congr' fun hi => ?_
  rw [access_cell n.1 a hi hsep, extract_setWidth n.2 hi]
  exact write_data_iff _ _

theorem holds_congr {mem mem' : Mem} {a : U32} {n : Num} (h : ∀ i < n.1.bytes,
    mem'.flat (a + BitVec.ofNat 32 i) = mem.flat (a + BitVec.ofNat 32 i)) :
    mem'.Holds a n ↔ mem.Holds a n := by
  refine forall_congr' fun i => forall_congr' fun hi => ?_
  rw [h i hi]

theorem takes_congr {mem mem' : Mem} {a : U32} {n : Num} (h : ∀ i < n.1.bytes,
    mem'.flat (a + BitVec.ofNat 32 i) = mem.flat (a + BitVec.ofNat 32 i)) :
    mem'.Takes a n ↔ mem.Takes a n := by
  refine forall_congr' fun i => forall_congr' fun hi => ?_
  rw [h i hi]

theorem numsBytes_cons (n : Num) (ns : List Num) :
    numsBytes (n :: ns) = n.1.bytes + numsBytes ns := by
  unfold numsBytes
  rw [List.map_cons, List.sum_cons]

section

variable {c : Cpu} {P Q : U32 → Num → Prop}

/-- The slots below the first one, each with a part of it. -/
theorem slots_below {n : Num} {ns : List Num} {m : Nat} (hm : n.1.bytes ≤ m)
    (hlen : m + numsBytes ns ≤ 0x8000)
    (h : ∀ a k, (∀ i < n.1.bytes, ∀ j < k.1.bytes,
      c.below n.1.bytes + BitVec.ofNat 32 i ≠ a + BitVec.ofNat 32 j) → (P a k ↔ Q a k)) :
    (c.moveSp (-BitVec.ofNat 32 m)).Slots P ns ↔ (c.moveSp (-BitVec.ofNat 32 m)).Slots Q ns := by
  induction ns generalizing m with
  | nil => exact Iff.rfl
  | cons k ns ih =>
    have hn := bytes_le n.1
    have hk := bytes_le k.1
    rw [numsBytes_cons] at hlen
    have hmove : (c.moveSp (-BitVec.ofNat 32 m)).moveSp (-BitVec.ofNat 32 k.1.bytes) =
        c.moveSp (-BitVec.ofNat 32 (m + k.1.bytes)) := by
      rw [moveSp_moveSp, BitVec.ofNat_add, BitVec.neg_add, BitVec.sub_eq_add_neg]
    unfold Cpu.Slots
    rw [hmove, below_moveSp]
    refine and_congr (h _ k fun i hi j hj heq => ?_) (ih (by omega) (by omega))
    have hsame := below_add_inj c (by omega) (by omega) (by omega) (by omega) heq
    omega

theorem slots_congr (h : ∀ a n, P a n ↔ Q a n) {c : Cpu} {ns : List Num} :
    c.Slots P ns ↔ c.Slots Q ns := by
  induction ns generalizing c with
  | nil => exact Iff.rfl
  | cons n ns ih => exact and_congr (h _ n) ih

theorem slots_forall (h : ∀ a n, P a n) (c : Cpu) (ns : List Num) : c.Slots P ns := by
  induction ns generalizing c with
  | nil => trivial
  | cons n ns ih => exact ⟨h _ n, ih _⟩

end

section

variable {s : St} (hsep : s.mem.Sep)

include hsep

/-- The pushes leave what is not in their slots. -/
theorem pushNums_flat (ns : List Num) {b : U32} (hb : s.cpu.Slots (Apart b) ns) :
    (s.pushNums ns).mem.flat b = s.mem.flat b := by
  induction ns generalizing s with
  | nil => rfl
  | cons n ns ih =>
    obtain ⟨hfirst, hrest⟩ := hb
    have hsep' := (pushed_guarded (z := n.1) hsep (n.2.setWidth 32)).sep hsep
    refine (ih hsep' ?_).trans ?_
    · rw [pushed_sp]
      exact hrest
    · rw [pushed_mem]
      exact flat_stored hsep n.1 _ hfirst

/-- All numbers pushed are in memory exactly when their bytes can be written or are there
already. -/
theorem pushNums_holds (ns : List Num) (hlen : numsBytes ns ≤ 0x8000) :
    s.cpu.Slots (s.pushNums ns).mem.Holds ns ↔ s.cpu.Slots s.mem.Takes ns := by
  induction ns generalizing s with
  | nil => exact Iff.rfl
  | cons n ns ih =>
    rw [numsBytes_cons] at hlen
    have hsep' := (pushed_guarded (z := n.1) hsep (n.2.setWidth 32)).sep hsep
    have hpush : s.pushNums (n :: ns) = (s.pushed n.1.width (n.2.setWidth 32)).pushNums ns := rfl
    have hfirst : ((s.pushed n.1.width (n.2.setWidth 32)).pushNums ns).mem.Holds
        (s.cpu.below n.1.bytes) n ↔ s.mem.Takes (s.cpu.below n.1.bytes) n := by
      rw [← holds_stored hsep, ← pushed_mem]
      refine holds_congr fun i hi => pushNums_flat hsep' ns ?_
      rw [pushed_sp, slots_below (Q := fun _ _ => True) le_rfl hlen]
      · exact slots_forall (fun _ _ => trivial) _ _
      · exact fun a k hne => iff_of_true (fun j hj => hne i hi j hj) trivial
    have hrest := ih hsep' (by omega)
    rw [pushed_sp] at hrest
    rw [hpush]
    refine and_congr hfirst (hrest.trans (slots_below le_rfl hlen fun a k hne => ?_))
    refine takes_congr fun j hj => ?_
    rw [pushed_mem]
    exact flat_stored hsep n.1 _ fun i hi => (hne i hi j hj).symm

end

/-! ## The frame -/

/-- What is pushed for a return to `ret`, the error code included. -/
def Cpu.frameNums (c : Cpu) (ret : U32 × U32) (type errcode : U32) : List Num :=
  (c.frame ret).map (Sigma.mk c.frameSize) ++
    if type &&& intrModeErrcode ≠ 0 then [⟨.long, errcode⟩] else []

theorem withFrame_nums (s : St) (ret : U32 × U32) (type errcode : U32) :
    s.withFrame ret type errcode = s.pushNums (s.cpu.frameNums ret type errcode) := by
  unfold St.withFrame St.pushNums Cpu.frameNums
  dsimp only
  rw [List.foldl_append, List.foldl_map]
  split
  · rw [List.foldl_cons, List.foldl_nil]
    exact congrArg (St.pushed _ .b32) (BitVec.setWidth_eq errcode).symm
  · rw [List.foldl_nil]
    rfl

theorem numsBytes_frame (c : Cpu) (ret : U32 × U32) (type errcode : U32) :
    numsBytes (c.frameNums ret type errcode) = c.frameLen type := by
  have hlong : OpSize.long.bytes = 4 := rfl
  unfold numsBytes Cpu.frameNums Cpu.frameLen Cpu.frame
  split <;> simp <;> omega

/-- A frame has 6, 10, 12 or 16 bytes. -/
theorem frameLen_cases (c : Cpu) (type : U32) : c.frameLen type ∈ [6, 10, 12, 16] := by
  unfold Cpu.frameLen Cpu.frameSize
  split <;> split <;> decide

/-! ## All or nothing -/

/-- `CS` and `EIP` are those of the gate `d`, and the frame is on the stack. -/
structure IntTaken (nr : U8) (type errcode : U32) (d : Descr) (s t : St) : Prop where
  gate : s.idtGate nr = some d
  cs : t.CsIs d.sel
  eip : t.cpu.eip = d.offset
  sp : t.cpu.gen .sp = (s.cpu.moveSp (-BitVec.ofNat 32 (s.cpu.frameLen type))).gen .sp
  frame : s.cpu.Slots t.mem.Holds (s.cpu.frameNums (s.cpu.returnAddr type) type errcode)

/-- All is as before the delivery, and an interrupt is still pending. -/
structure IntUndone (type : U32) (s t : St) : Prop where
  cs : t.cpu.seg .cs = s.cpu.seg .cs
  eip : t.cpu.eip = (s.cpu.returnAddr type).2
  sp : t.cpu.gen .sp = s.cpu.gen .sp
  eflg : t.cpu.eflg = s.cpu.eflg
  stack : ∀ a, (t.mem.flat a).data = (s.mem.flat a).data
  visible : t.intr.type ≠ 0

/-- The interrupt is taken, or nothing is done and the failure can be seen. -/
def AllOrNothing (nr : U8) (type errcode : U32) (s t : St) : Prop :=
  (∃ d, IntTaken nr type errcode d s t) ∨ IntUndone type s t

theorem holds_marked {mem mem' : Mem} (h : mem.Marked mem') (a : U32) (n : Num) :
    mem'.Holds a n ↔ mem.Holds a n := by
  refine forall_congr' fun i => forall_congr' fun _ => ?_
  rw [(h.cells _).data]

section

variable {r : St} (hprot : r.cpu.prot = true) (hsep : r.mem.Sep) (nr : U8) (type errcode : U32)

include hprot hsep

/-- With a gate, the rest depends on its code segment and on the stack. -/
theorem delivered_taken {d : Descr} (hgate : r.idtGate nr = some d) :
    IntTaken nr type errcode d r (r.delivered nr type errcode) ↔
      (r.withFrame (r.cpu.returnAddr type) type errcode).CsLoads d.sel ∧
        r.cpu.Slots r.mem.Takes (r.cpu.frameNums (r.cpu.returnAddr type) type errcode) := by
  obtain ⟨hres, heip, -, -⟩ := delivered_kept hsep nr type errcode
  obtain ⟨hrcpu, hmarked⟩ := idtRead_reads r nr
  have hentry : r.idtEntry nr (r.cpu.returnAddr type) = (d.sel.setWidth 32, d.offset) := by
    unfold St.idtEntry
    rw [if_pos hprot, hgate]
  have hcs : (r.delivered nr type errcode).CsIs d.sel ↔
      (r.withFrame (r.cpu.returnAddr type) type errcode).CsLoads d.sel := by
    unfold St.delivered
    dsimp only
    rw [hentry]
    dsimp only
    rw [BitVec.setWidth_setWidth_of_le _ (by decide), BitVec.setWidth_eq, wentFar_csIs]
    have htables : ((r.idtRead nr).withFrame (r.cpu.returnAddr type) type errcode).cpu.tables =
        (r.withFrame (r.cpu.returnAddr type) type errcode).cpu.tables := by
      rw [withFrame_cpu, withFrame_cpu, hrcpu]
    exact csLoads_congr htables (withFrame_resumes hsep hrcpu hmarked _ type errcode).mem d.sel
  have hframe : r.cpu.Slots (r.delivered nr type errcode).mem.Holds
      (r.cpu.frameNums (r.cpu.returnAddr type) type errcode) ↔
      r.cpu.Slots r.mem.Takes (r.cpu.frameNums (r.cpu.returnAddr type) type errcode) := by
    have hlen := frameLen_cases r.cpu type
    rw [← numsBytes_frame r.cpu (r.cpu.returnAddr type) type errcode] at hlen
    rw [slots_congr (holds_marked hres.mem), withFrame_nums, pushNums_holds hsep]
    simp at hlen
    omega
  constructor
  · intro htaken
    exact ⟨hcs.mp htaken.cs, hframe.mp htaken.frame⟩
  · rintro ⟨hload, htakes⟩
    refine ⟨hgate, hcs.mpr hload, heip.trans (congrArg Prod.snd hentry), ?_, hframe.mpr htakes⟩
    rw [hres.sp, withFrame_cpu]

omit hprot in
/-- The stack pointer is never as before. -/
theorem delivered_not_undone : ¬IntUndone type r (r.delivered nr type errcode) := by
  intro hundone
  obtain ⟨hres, -⟩ := delivered_kept hsep nr type errcode
  have hsp := hundone.sp
  have hsizes : ∀ k : Bool, ∀ n ∈ [6, 10, 12, 16], ¬(if k then -BitVec.ofNat 32 n = (0 : U32)
      else (-BitVec.ofNat 32 n).setWidth 16 = (0 : U16)) := by
    decide
  rw [hres.sp, withFrame_cpu, moveSp_sp, idxAdd_eq_self] at hsp
  exact hsizes _ _ (frameLen_cases r.cpu type) hsp

end

section

variable {nr : U8} {type errcode : U32} {s s' t t' : St} (hscpu : s'.cpu = s.cpu)
  (hsmem : s'.mem = s.mem) (htcpu : t'.cpu = t.cpu) (htmem : t'.mem = t.mem)

include hscpu hsmem

theorem idtGate_congr (nr : U8) : s'.idtGate nr = s.idtGate nr := by
  unfold St.idtGate
  rw [hscpu, hsmem]

include htcpu htmem

theorem IntTaken.congr {d : Descr} (h : IntTaken nr type errcode d s t) :
    IntTaken nr type errcode d s' t' := by
  obtain ⟨hgate, hcs, heip, hsp, hframe⟩ := h
  have hcs' : t'.CsIs d.sel := by
    unfold St.CsIs St.Encodes at hcs ⊢
    rw [htcpu, htmem]
    exact hcs
  refine ⟨(idtGate_congr hscpu hsmem nr).trans hgate, hcs', ?_, ?_, ?_⟩
  · rw [htcpu, heip]
  · rw [htcpu, hscpu, hsp]
  · rw [htmem, hscpu]
    exact hframe

theorem IntUndone.congr (hintr : t'.intr = t.intr) (h : IntUndone type s t) :
    IntUndone type s' t' := by
  obtain ⟨hcs, heip, hsp, heflg, hstack, hvisible⟩ := h
  constructor <;> simp only [hscpu, hsmem, htcpu, htmem, hintr] <;> assumption

end

section

variable {inp : PortInput} {h : Host} (hh : h.Blind inp) (hnone : h.intr = none)

include hnone

omit hh in
theorem declines_of_none : h.Declines := by
  intro f hf
  rw [hnone] at hf
  cases hf

include hh

theorem generateInt_not_undone {s : St} (hsep : s.mem.Sep) (nr : U8) (type errcode : U32) :
    ¬IntUndone type s (generateInt nr type errcode h s) := by
  intro hundone
  obtain ⟨r, hrcpu, hrmem, -, hview⟩ :=
    generateInt_delivered hh (declines_of_none hnone) nr type errcode s
  obtain ⟨hcpu, hmem, hintr⟩ := view_parts hview
  have hsep' : r.mem.Sep := by
    rw [hrmem]
    exact hsep
  exact delivered_not_undone hsep' nr type errcode
    (hundone.congr hrcpu hrmem hcpu.symm hmem.symm hintr.symm)

/-- Without an interrupt callback, an interrupt in protected mode is taken or undone exactly when it
has a gate, the selector of the gate can be loaded with the frame on the stack, and the stack takes
the frame. -/
theorem allOrNothing_iff {s : St} (hprot : s.cpu.prot = true) (hsep : s.mem.Sep) (nr : U8)
    (type errcode : U32) :
    AllOrNothing nr type errcode s (generateInt nr type errcode h s) ↔
      ∃ d, s.idtGate nr = some d ∧
        (s.withFrame (s.cpu.returnAddr type) type errcode).CsLoads d.sel ∧
        s.cpu.Slots s.mem.Takes (s.cpu.frameNums (s.cpu.returnAddr type) type errcode) := by
  obtain ⟨r, hrcpu, hrmem, -, hview⟩ :=
    generateInt_delivered hh (declines_of_none hnone) nr type errcode s
  obtain ⟨hcpu, hmem, -⟩ := view_parts hview
  have hprot' : r.cpu.prot = true := by rw [hrcpu, hprot]
  have hsep' : r.mem.Sep := by rw [hrmem]; exact hsep
  have hloads : ∀ v, (r.withFrame (s.cpu.returnAddr type) type errcode).CsLoads v ↔
      (s.withFrame (s.cpu.returnAddr type) type errcode).CsLoads v := by
    refine csLoads_congr ?_ (withFrame_resumes hsep hrcpu ?_ _ type errcode).mem
    · rw [withFrame_cpu, withFrame_cpu, hrcpu]
    · rw [hrmem]
      exact .refl _
  have htaken : ∀ d, IntTaken nr type errcode d s (generateInt nr type errcode h s) ↔
      IntTaken nr type errcode d r (r.delivered nr type errcode) := fun d =>
    ⟨fun htaken => htaken.congr hrcpu hrmem hcpu.symm hmem.symm,
      fun htaken => htaken.congr hrcpu.symm hrmem.symm hcpu hmem⟩
  have hspec : ∀ d, r.idtGate nr = some d →
      (IntTaken nr type errcode d s (generateInt nr type errcode h s) ↔
        (s.withFrame (s.cpu.returnAddr type) type errcode).CsLoads d.sel ∧
        s.cpu.Slots s.mem.Takes (s.cpu.frameNums (s.cpu.returnAddr type) type errcode)) := by
    intro d hgate
    rw [htaken, delivered_taken hprot' hsep' nr type errcode hgate, hrcpu, hrmem, hloads]
  rw [idtGate_congr hrcpu hrmem] at hspec
  unfold AllOrNothing
  rw [or_iff_left (generateInt_not_undone hh hnone hsep nr type errcode)]
  constructor
  · rintro ⟨d, htaken⟩
    exact ⟨d, htaken.gate, (hspec d htaken.gate).mp htaken⟩
  · rintro ⟨d, hgate, hrest⟩
    exact ⟨d, (hspec d hgate).mpr hrest⟩

end

/-- Protected mode with an IDT at 0 and a GDT at 0x800: all gates lead to the selector 8, and all
segments are code segments. -/
def gateState : St where
  cpu := { resetCpu with crx := Function.update resetCpu.crx 0 1, gdtBase := 0x800 }
  mem := wholeMem fun a =>
    (if a.getLsbD 11 then [0xff, 0xff, 0, 0, 0, 0x9a, 0xcf, 0]
      else [0, 0, 8, 0, 0, 0x8e, 0, 0]).getD (a.extractLsb' 0 3).toNat 0

/-- Vector 0 through its gate. -/
theorem allOrNothing_iff_gate :
    AllOrNothing 0 intrTypeSoft 0 gateState
      (generateInt 0 intrTypeSoft 0 (defaultHost fun _ _ _ => 0) gateState) := by
  have hsep : gateState.mem.Sep := by
    intro a b n ha
    cases ha
  have htakes : ∀ a n, gateState.mem.Takes a n := by
    intro a n i _
    refine Or.inl ?_
    rw [show gateState.mem.flat _ = _ from flat_wholeMem _ _]
    exact (by decide : U8.has (permRwx ||| permValid) permW = true)
  have hgate : gateState.idtGate 0 = some (parseDescriptor 0x80000 0x8e00) := by decide +kernel
  refine (allOrNothing_iff (defaultHost_default _).blind rfl (by decide) hsep 0 intrTypeSoft 0).mpr
    ⟨_, hgate, fun _ => ⟨by decide, SegDescr.ofEntry 0xffff 0xcf9a00, ?_, by decide⟩,
      slots_forall htakes _ _⟩
  unfold St.Encodes
  decide +kernel

/-- Without a gate: the table holds the same byte everywhere. -/
theorem allOrNothing_fails :
    ¬AllOrNothing 0 intrTypeSoft 0 (protState 0x10)
      (generateInt 0 intrTypeSoft 0 (defaultHost fun _ _ _ => 0) (protState 0x10)) := by
  have hgate : (protState 0x10).idtGate 0 = none := by decide +kernel
  rintro (⟨d, htaken⟩ | hundone)
  · exact absurd (hgate.symm.trans htaken.gate) (by simp)
  · exact generateInt_not_undone (defaultHost_default _).blind rfl (fullMem_sep _) 0 _ 0 hundone

end X86Emu
