import X86Emu.Ops.Delivery
import X86Emu.Ops.SavedFlags

/-!
# Interrupts and `iret` in real mode

An interrupt pushes the low half of `EFLAGS`, `CS` and `IP`, and `iret` pops them in the width of
its operands. The two are inverse unless the interrupt pushes an error code, which `iret` takes for
`IP` and `CS`.
-/

namespace X86Emu

open Lib

/-! ## The interrupts -/

/-- The interrupts of real mode: `INT n`, `INT3` and `INTO`; `#DE`; `#UD`; `#GP`. -/
inductive IntEvent
  | soft (nr : U8)
  | divide
  | undefined
  | protection (err : U32)
  deriving DecidableEq, Repr

namespace IntEvent

/-- What raises the interrupt. -/
def raise : IntEvent → Emu Unit
  | soft nr => intrRaiseSoft nr
  | divide => intrRaiseDiv0
  | undefined => intrRaiseUd
  | protection err => intrRaiseGp err

/-- The pending interrupt. -/
def intr : IntEvent → Intr
  | soft nr => ⟨nr, intrTypeSoft, 0⟩
  | divide => ⟨0, intrTypeSoft ||| intrModeRestart, 0⟩
  | undefined => ⟨6, intrTypeFault ||| intrModeRestart, 0⟩
  | protection err => ⟨13, intrTypeFault ||| intrModeRestart ||| intrModeErrcode, err⟩

theorem raise_intr (e : IntEvent) (h : Host) {s : St} (hidle : s.intr.type = 0) :
    (e.raise.run h s).2.intr = e.intr := by
  have hraise : ∀ nr type err, ((intrRaise nr type err).run h s).2.intr = ⟨nr, type, err⟩ := by
    intro nr type err
    show (x86emuIntrRaise nr type err s).intr = _
    unfold x86emuIntrRaise
    exact congrArg St.intr (if_pos hidle)
  cases e <;> exact hraise _ _ _

theorem type_ne_zero (e : IntEvent) : e.intr.type ≠ 0 := by
  cases e with
  | soft => exact (by decide : intrTypeSoft ≠ 0)
  | divide => exact (by decide : intrTypeSoft ||| intrModeRestart ≠ 0)
  | undefined => exact (by decide : intrTypeFault ||| intrModeRestart ≠ 0)
  | protection => exact (by decide : intrTypeFault ||| intrModeRestart ||| intrModeErrcode ≠ 0)

/-- Only `#GP` has an error code. -/
theorem errcode_iff (e : IntEvent) :
    e.intr.type &&& intrModeErrcode ≠ 0 ↔ ∃ err, e = protection err := by
  cases e with
  | soft => exact iff_of_false (fun h => h (by decide : intrTypeSoft &&& intrModeErrcode = 0)) nofun
  | divide | undefined => exact iff_of_false (by decide) nofun
  | protection err =>
    exact iff_of_true (by decide : (intrTypeFault ||| intrModeRestart ||| intrModeErrcode) &&&
      intrModeErrcode ≠ 0) ⟨err, rfl⟩

end IntEvent

/-! ## Delivery -/

section

variable {r : St} (hreal : r.cpu.prot = false)

include hreal

theorem frameSize_real : r.cpu.frameSize = .word := by
  unfold Cpu.frameSize
  rw [hreal]
  rfl

theorem wentFar_real (v : U16) (eip : U32) : (r.wentFar v eip).cpu.seg .cs =
    { r.cpu.seg .cs with sel := v, base := BitVec.ofNat 32 (16 * v.toNat) } := by
  obtain ⟨⟨hload, -⟩, -⟩ := (segLoaded_real hreal (.seg .cs) v).real hreal
  refine (congrArg (·.getSel (.seg .cs)) hload).trans ?_
  rw [getSel_setSel]
  rfl

/-- `CS` and `IP` are those of the vector. -/
theorem delivered_vector (nr : U8) (type errcode : U32) :
    (r.delivered nr type errcode).cpu.seg .cs = { r.cpu.seg .cs with
      sel := (r.vector nr).1
      base := BitVec.ofNat 32 (16 * (r.vector nr).1.toNat) } ∧
    (r.delivered nr type errcode).cpu.eip = (r.vector nr).2.setWidth 32 := by
  have hentry : ∀ ret, r.idtEntry nr ret =
      ((r.vector nr).1.setWidth 32, (r.vector nr).2.setWidth 32) := by
    intro ret
    exact if_neg (by rw [hreal]; exact Bool.false_ne_true)
  have hcpu : (((r.idtRead nr).withFrame (r.cpu.returnAddr type) type errcode).put Cpu.masked).cpu =
      (r.cpu.moveSp (-BitVec.ofNat 32 (r.cpu.frameLen type))).masked := by
    rw [put_cpu, withFrame_cpu, (idtRead_reads r nr).1]
  have hprot : (((r.idtRead nr).withFrame (r.cpu.returnAddr type) type errcode).put
      Cpu.masked).cpu.prot = false := by
    rw [hcpu, moveSp_eq]
    exact hreal
  unfold St.delivered
  dsimp only
  rw [hentry]
  refine ⟨?_, rfl⟩
  dsimp only
  rw [wentFar_real hprot, hcpu, BitVec.setWidth_setWidth_of_le _ (by decide), BitVec.setWidth_eq,
    moveSp_eq]
  rfl

end

/-! ## Return -/

/-- The numbers that `iret` pops when they are the last three below the stack pointer of `c`. -/
theorem iret_real {inp : PortInput} {h : Host} (hh : h.Blind inp) (op : U8) {c : Cpu} {u : St}
    {z : OpSize} (hreal : u.cpu.prot = false) (hz : u.cpu.mode.opSize true = z)
    (hdown : c.Down (z.bytes + z.bytes + z.bytes) u.cpu) :
    let cs := ((u.mem.num z (c.below (z.bytes + z.bytes))).setWidth 32).setWidth 16
    ((Op.iret op).run h u).2.cpu.eip =
      (u.mem.num z (c.below (z.bytes + z.bytes + z.bytes))).setWidth 32 ∧
    ((Op.iret op).run h u).2.cpu.seg .cs =
      { u.cpu.seg .cs with sel := cs, base := BitVec.ofNat 32 (16 * cs.toNat) } ∧
    ((Op.iret op).run h u).2.cpu.eflg =
      (u.mem.num z (c.below z.bytes)).setWidth 32 ||| fAlwaysOn := by
  obtain ⟨hcpu, -, -⟩ := view_parts (congrArg Prod.snd (seen_iret hh op hz))
  have hkept : ∀ s : St, (s.popped z.width).cpu.seg = s.cpu.seg ∧
      (s.popped z.width).cpu.prot = s.cpu.prot := by
    intro s
    rw [popped_cpu, moveSp_eq]
    exact ⟨rfl, rfl⟩
  have hdown₁ := popped_down hdown
  have hdown₂ := popped_down (m := z.bytes) hdown₁
  have hnum₀ := congrArg (u.mem.num z) (hdown.below 0)
  have hnum₁ : (u.popped z.width).mem.num z ((u.popped z.width).cpu.below 0) =
      u.mem.num z (c.below (z.bytes + z.bytes)) := by
    rw [hdown₁.below, (popped_marked u z).num]
    rfl
  have hnum₂ : ((u.popped z.width).popped z.width).mem.num z
      (((u.popped z.width).popped z.width).cpu.below 0) = u.mem.num z (c.below z.bytes) := by
    rw [hdown₂.below, (popped_marked (u.popped z.width) z).num, (popped_marked u z).num]
    rfl
  rw [hnum₀, hnum₁, hnum₂] at hcpu
  rw [hcpu]
  refine ⟨rfl, ?_, wentFar_eflg _ _ _⟩
  rw [wentFar_real]
  · show ({ (((u.popped z.width).popped z.width).popped z.width).cpu.seg .cs with
      sel := _, base := _ } : Sel) = _
    rw [(hkept _).1, (hkept _).1, (hkept _).1]
  · exact (hkept _).2.trans ((hkept _).2.trans ((hkept u).2.trans hreal))

/-! ## The two together -/

/-- The next instruction, without an operand size prefix. -/
structure NextInstr (t u : St) : Prop extends Follows t u where
  data32 : u.cpu.mode.data32 = accD (t.cpu.seg .cs).acc

/-- What `CS` holds at the address that the interrupt returns to: it is still there unless the
instruction is to be restarted. -/
structure IntEvent.ReturnsIn (e : IntEvent) (s : St) (cs : Sel) : Prop where
  sel : (s.cpu.returnAddr e.intr.type).1 = cs.sel.setWidth 32
  now : e.intr.type &&& intrModeRestart = 0 → s.cpu.seg .cs = cs

/-- The delivery leads from `s` to `t`, and `iret` then to `v`. -/
structure IntReturns (e : IntEvent) (cs : Sel) (s t v : St) : Prop where
  vector : (t.cpu.seg .cs).sel = (s.vector e.intr.nr).1 ∧
    (t.cpu.seg .cs).base = BitVec.ofNat 32 (16 * (s.vector e.intr.nr).1.toNat) ∧
    t.cpu.eip = (s.vector e.intr.nr).2.setWidth 32
  masked : t.cpu.flag .if' = false ∧ t.cpu.flag .tf = false
  cs : (v.cpu.seg .cs).sel = cs.sel ∧ (v.cpu.seg .cs).base = cs.base
  sp : v.cpu.gen .sp = s.cpu.gen .sp
  eflg : v.cpu.eflg = s.cpu.eflg ||| fAlwaysOn
  eip : v.cpu.eip = (s.cpu.returnAddr e.intr.type).2

theorem masked_flags (c : Cpu) : c.masked.flag .if' = false ∧ c.masked.flag .tf = false := by
  have heflg : c.masked.eflg = c.eflg &&& ~~~Flag.mask .if' &&& ~~~Flag.mask .tf := rfl
  unfold Cpu.flag
  rw [heflg]
  constructor <;> simp [Flag.mask, Flag.bit]

/-- The high half of `EFLAGS` comes back when it is clear. -/
theorem eflg_word_iff (e : U32) :
    (e.setWidth 16).setWidth 32 ||| fAlwaysOn = e ||| fAlwaysOn ↔ e.extractLsb' 16 16 = 0 := by
  constructor
  · intro heq
    have hhigh : (e ||| fAlwaysOn).extractLsb' 16 16 = e.extractLsb' 16 16 := by
      rw [BitVec.extractLsb'_or, show fAlwaysOn.extractLsb' 16 16 = 0#16 from rfl, BitVec.or_zero]
    rw [← hhigh, ← heq]
    exact highFlags_word _
  · intro hzero
    refine congrArg (· ||| fAlwaysOn) (BitVec.eq_of_toNat_eq ?_)
    have hnat := congrArg BitVec.toNat hzero
    have he := e.isLt
    rw [BitVec.extractLsb'_toNat, Nat.shiftRight_eq_div_pow] at hnat
    rw [BitVec.toNat_setWidth_of_le (by decide), BitVec.toNat_setWidth]
    simp at hnat
    omega

section

variable {e : IntEvent} {r t u : St} (hreal : r.cpu.prot = false) (hsep : r.mem.Sep)
  (hcpu : t.cpu = (r.delivered e.intr.nr e.intr.type e.intr.errcode).cpu)
  (hmem : t.mem = (r.delivered e.intr.nr e.intr.type e.intr.errcode).mem) (hnext : NextInstr t u)

include hsep hcpu hmem hnext

/-- The frame is still there when `iret` begins. -/
theorem return_resumes :
    Resumes (r.withFrame (r.cpu.returnAddr e.intr.type) e.intr.type e.intr.errcode) u := by
  obtain ⟨hres, -⟩ := delivered_kept hsep e.intr.nr e.intr.type e.intr.errcode
  exact .trans ⟨hcpu ▸ hres.sp, hcpu ▸ hres.ss, hcpu ▸ hres.stack32, hmem ▸ hres.mem⟩
    hnext.toResumes

include hreal

omit hsep hmem in
theorem return_data32 : u.cpu.mode.data32 = accD (r.cpu.seg .cs).acc := by
  rw [hnext.data32, hcpu, (delivered_vector hreal _ _ _).1]

/-- The stack pointer comes back when three words are pushed and three words are popped. -/
theorem return_sp_iff {inp : PortInput} {h : Host} (hh : h.Blind inp) :
    ((Op.iret 0xcf).run h u).2.cpu.gen .sp = r.cpu.gen .sp ↔
      (∀ err, e ≠ .protection err) ∧ accD (r.cpu.seg .cs).acc = false := by
  have hres := return_resumes hsep hcpu hmem hnext
  have hdata := return_data32 hreal hcpu hnext
  have hstack : u.cpu.mode.stack32 = r.cpu.mode.stack32 := by
    rw [hres.stack32, withFrame_cpu, moveSp_mode]
  have hpopped := (iret_moves hh 0xcf u hdata hstack).sp
  have hpushed : u.cpu.gen .sp = idxAdd r.cpu.mode.stack32
      (-BitVec.ofNat 32 (r.cpu.frameLen e.intr.type)) (r.cpu.gen .sp) := by
    rw [hres.sp, withFrame_cpu, moveSp_sp]
  have hcode : (∀ err, e ≠ .protection err) ↔ ¬(e.intr.type &&& intrModeErrcode ≠ 0) := by
    rw [e.errcode_iff, not_exists]
  have hlen : r.cpu.frameLen e.intr.type =
      6 + if e.intr.type &&& intrModeErrcode ≠ 0 then 4 else 0 := by
    unfold Cpu.frameLen
    rw [frameSize_real hreal]
    rfl
  have hsizes : ∀ b k : Bool, ∀ n ∈ [6, 10], (if k then
      -BitVec.ofNat 32 n + (dataBytes b + (dataBytes b + dataBytes b)) = 0
      else (-BitVec.ofNat 32 n + (dataBytes b + (dataBytes b + dataBytes b))).setWidth 16 = 0) ↔
        n = 6 ∧ b = false := by
    decide
  rw [hpopped, hpushed, idxAdd_idxAdd, idxAdd_eq_self, hlen, hcode]
  by_cases hnone : e.intr.type &&& intrModeErrcode ≠ 0
  · rw [if_pos hnone]
    exact (hsizes _ _ 10 (by decide)).trans (iff_of_false (fun h => absurd h.1 (by decide))
      fun h => h.1 hnone)
  · rw [if_neg hnone]
    exact (hsizes _ _ 6 (by decide)).trans (and_congr_left fun _ => iff_of_true rfl hnone)

/-- Without an error code the frame is three words. -/
theorem return_words (hcode : ∀ err, e ≠ .protection err) :
    Resumes (r.pushes .word [r.cpu.eflg.setWidth 16, (r.cpu.returnAddr e.intr.type).1.setWidth 16,
      (r.cpu.returnAddr e.intr.type).2.setWidth 16]) u := by
  have hframe : ∀ z, r.cpu.frameSize = z → r.pushes r.cpu.frameSize
      (r.cpu.frame (r.cpu.returnAddr e.intr.type)) = r.pushes z [r.cpu.eflg.setWidth _,
        (r.cpu.returnAddr e.intr.type).1.setWidth _,
        (r.cpu.returnAddr e.intr.type).2.setWidth _] := by
    rintro z rfl
    rfl
  have hnone : ¬(e.intr.type &&& intrModeErrcode ≠ 0) := by
    rw [e.errcode_iff, not_exists]
    exact hcode
  have hres := return_resumes hsep hcpu hmem hnext
  unfold St.withFrame at hres
  dsimp only at hres
  rw [if_neg hnone, hframe .word (frameSize_real hreal)] at hres
  exact hres

/-- What `iret` pops when there is no error code. -/
theorem return_values {inp : PortInput} {h : Host} (hh : h.Blind inp) (hram : r.StackRam .word 3)
    (hcode : ∀ err, e ≠ .protection err) (hdata : u.cpu.mode.data32 = false) :
    let cs : U16 := (r.cpu.returnAddr e.intr.type).1.setWidth 16
    ((Op.iret 0xcf).run h u).2.cpu.eip =
      ((r.cpu.returnAddr e.intr.type).2.setWidth 16).setWidth 32 ∧
    (((Op.iret 0xcf).run h u).2.cpu.seg .cs).sel = cs ∧
    (((Op.iret 0xcf).run h u).2.cpu.seg .cs).base = BitVec.ofNat 32 (16 * cs.toNat) ∧
    ((Op.iret 0xcf).run h u).2.cpu.eflg =
      (r.cpu.eflg.setWidth 16).setWidth 32 ||| fAlwaysOn := by
  let vs : List U16 := [r.cpu.eflg.setWidth 16, (r.cpu.returnAddr e.intr.type).1.setWidth 16,
    (r.cpu.returnAddr e.intr.type).2.setWidth 16]
  have hres : Resumes (r.pushes .word vs) u := return_words hreal hsep hcpu hmem hnext hcode
  have hdown : r.cpu.Down 6 u.cpu := hres.down (pushes_down r .word vs)
  have hnum : ∀ i (hi : i < vs.length),
      u.mem.num .word (r.cpu.below ((i + 1) * 2)) = vs.get ⟨i, hi⟩ := by
    intro i hi
    rw [hres.num]
    exact pushes_num (z := .word) hsep vs hram (show 3 * 2 ≤ 0x8000 by decide) hi
  have hflags : u.mem.num .word (r.cpu.below 2) = _ := hnum 0 (show 0 < 3 by decide)
  have hsel : u.mem.num .word (r.cpu.below 4) = _ := hnum 1 (show 1 < 3 by decide)
  have hip : u.mem.num .word (r.cpu.below 6) = _ := hnum 2 (show 2 < 3 by decide)
  have hword : u.cpu.mode.opSize true = .word := by
    unfold Mode.opSize
    rw [hdata]
    rfl
  have hprot : u.cpu.prot = false := by
    obtain ⟨-, -, -, htables⟩ := delivered_kept hsep e.intr.nr e.intr.type e.intr.errcode
    have hkept := hnext.tables
    rw [hcpu, htables] at hkept
    exact (congrArg Prod.fst hkept).trans hreal
  obtain ⟨heip, hcs, heflg⟩ := iret_real hh 0xcf (z := .word) hprot hword hdown
  have hsame : ∀ v : U16, (v.setWidth 32).setWidth 16 = v := fun v => by
    rw [BitVec.setWidth_setWidth_of_le v (by decide), BitVec.setWidth_eq]
  rw [show OpSize.word.bytes + OpSize.word.bytes + OpSize.word.bytes = 6 from rfl, hip] at heip
  rw [show OpSize.word.bytes + OpSize.word.bytes = 4 from rfl, hsel] at hcs
  rw [show OpSize.word.bytes = 2 from rfl, hflags] at heflg
  refine ⟨heip, ?_, ?_, heflg⟩
  · rw [hcs]
    exact hsame _
  · rw [hcs]
    exact congrArg (fun v : U16 => BitVec.ofNat 32 (16 * v.toNat)) (hsame _)

end

/-- In real mode, `iret` undoes the delivery of every interrupt without an error code, when it pops
words, the high half of `EFLAGS` is clear, and `CS` has the base of its selector. -/
theorem intReturns_iff {inp : PortInput} {h : Host} (hh : h.Blind inp) (hdecl : h.Declines)
    {e : IntEvent} {cs : Sel} {s u : St} (hreal : s.cpu.prot = false)
    (heip : (s.cpu.returnAddr e.intr.type).2.toNat ≤ 0xffff) (hintr : s.intr = e.intr)
    (hcs : e.ReturnsIn s cs) (hsep : s.mem.Sep) (hram : s.StackRam .word 3)
    (hnext : NextInstr (handleInterrupt h s) u) :
    IntReturns e cs s (handleInterrupt h s) ((Op.iret 0xcf).run h u).2 ↔
      (∀ err, e ≠ .protection err) ∧ accD (s.cpu.seg .cs).acc = false ∧ s.cpu.highFlags = 0 ∧
        cs.base = BitVec.ofNat 32 (16 * cs.sel.toNat) := by
  obtain ⟨r, hrcpu, hrmem, hcpu, hmem⟩ :=
    handleInterrupt_delivered hh hdecl (hintr ▸ e.type_ne_zero)
  rw [hintr] at hcpu hmem
  have hreal' : r.cpu.prot = false := by rw [hrcpu, hreal]
  have hsep' : r.mem.Sep := by rw [hrmem]; exact hsep
  have hram' : r.StackRam .word 3 := by
    unfold St.StackRam
    rw [hrcpu, hrmem]
    exact hram
  have hvector : r.vector e.intr.nr = s.vector e.intr.nr := by
    unfold St.vector
    rw [hrcpu, hrmem]
  have hsp := return_sp_iff hreal' hsep' hcpu hmem hnext hh
  rw [hrcpu] at hsp
  obtain ⟨hentry, hip⟩ := delivered_vector hreal' e.intr.nr e.intr.type e.intr.errcode
  obtain ⟨-, -, hmasked, -⟩ := delivered_kept hsep' e.intr.nr e.intr.type e.intr.errcode
  have hflag : ∀ f, (handleInterrupt h s).cpu.flag f = r.cpu.masked.flag f := by
    intro f
    rw [hcpu]
    exact congrArg (·.getLsbD f.bit) hmasked
  have hret := hcs.sel
  constructor
  · intro hall
    obtain ⟨hcode, hdata⟩ := hsp.mp hall.sp
    have hdata' : u.cpu.mode.data32 = false := by
      rw [return_data32 hreal' hcpu hnext, hrcpu, hdata]
    obtain ⟨-, hsel, hbase, heflg⟩ :=
      return_values hreal' hsep' hcpu hmem hnext hh hram' hcode hdata'
    rw [hrcpu] at hsel hbase heflg
    refine ⟨hcode, hdata, (eflg_word_iff _).mp (heflg.symm.trans hall.eflg), ?_⟩
    rw [← hall.cs.2, hbase, ← hsel, hall.cs.1]
  · rintro ⟨hcode, hdata, hhigh, hbase⟩
    have hdata' : u.cpu.mode.data32 = false := by
      rw [return_data32 hreal' hcpu hnext, hrcpu, hdata]
    obtain ⟨hip', hsel, hbase', heflg⟩ :=
      return_values hreal' hsep' hcpu hmem hnext hh hram' hcode hdata'
    have hword : ((s.cpu.returnAddr e.intr.type).1.setWidth 16 : U16) = cs.sel := by
      rw [hret, BitVec.setWidth_setWidth_of_le _ (by decide), BitVec.setWidth_eq]
    rw [hrcpu] at hip' hsel hbase' heflg
    rw [hword] at hsel hbase'
    refine ⟨?_, ?_, ⟨hsel, hbase'.trans hbase.symm⟩, hsp.mpr ⟨hcode, hdata⟩, ?_, ?_⟩
    · rw [hcpu, hentry, hip, hvector]
      exact ⟨rfl, rfl, rfl⟩
    · rw [hflag, hflag]
      exact masked_flags r.cpu
    · exact heflg.trans ((eflg_word_iff _).mpr hhigh)
    · exact hip'.trans ((next_eq_iff (z := .word) (by decide) _).mpr (Or.inr (by omega)))

/-- In the first instruction after a reset, in a memory in which everything is allowed, an interrupt
is raised. -/
def intState (e : IntEvent) : St :=
  (e.raise.run (defaultHost fun _ _ _ => 0) {
    cpu := { resetCpu with savedCs := (resetCpu.seg .cs).sel, savedEip := resetCpu.eip }
    mem := emuMemNew 7 }).2

theorem intState_eq (e : IntEvent) :
    (intState e).cpu =
        { resetCpu with savedCs := (resetCpu.seg .cs).sel, savedEip := resetCpu.eip } ∧
      (intState e).mem = emuMemNew 7 ∧ (intState e).intr = e.intr := by
  refine ⟨?_, ?_, e.raise_intr _ rfl⟩ <;> cases e <;> rfl

theorem intState_next {inp : PortInput} {h : Host} (hh : h.Blind inp) (hdecl : h.Declines)
    (e : IntEvent) :
    NextInstr (handleInterrupt h (intState e)) (handleInterrupt h (intState e)).narrow := by
  obtain ⟨hscpu, -, hsintr⟩ := intState_eq e
  obtain ⟨r, hrcpu, -, hcpu, -⟩ :=
    handleInterrupt_delivered hh hdecl (s := intState e) (hsintr ▸ e.type_ne_zero)
  have hreal : r.cpu.prot = false := by
    rw [hrcpu, hscpu]
    exact (by decide : resetCpu.prot = false)
  refine ⟨narrow_follows _, ?_⟩
  rw [narrow_data32, hcpu, (delivered_vector hreal _ _ _).1, hrcpu, hscpu]
  exact (by decide : false = accD (resetCpu.seg .cs).acc)

/-- `int 3` -/
theorem intReturns_iff_int3 :
    let h := defaultHost fun _ _ _ => 0
    let s := intState (.soft 3)
    IntReturns (.soft 3) (resetCpu.seg .cs) s (handleInterrupt h s)
      ((Op.iret 0xcf).run h (handleInterrupt h s).narrow).2 := by
  intro h s
  have hh : h.Blind fun _ _ _ => 0 := (defaultHost_default _).blind
  obtain ⟨hcpu, hmem, hintr⟩ : s.cpu = _ ∧ s.mem = _ ∧ s.intr = _ := intState_eq (.soft 3)
  have hnext : NextInstr (handleInterrupt h s) (handleInterrupt h s).narrow :=
    intState_next hh nofun _
  clear_value s
  have hcs : (IntEvent.soft 3).ReturnsIn s (resetCpu.seg .cs) :=
    ⟨by rw [hcpu]; decide, fun _ => by rw [hcpu]⟩
  refine (intReturns_iff hh nofun ?_ ?_ hintr hcs ?_ ?_ hnext).mpr ⟨nofun, ?_, ?_, by decide⟩
  · rw [hcpu]
    decide
  · rw [hcpu]
    decide
  · rw [hmem]
    exact emuMemNew_sep 7
  · unfold St.StackRam
    rw [hmem]
    exact fun _ _ => newMem_ram _ _
  · rw [hcpu]
    decide
  · rw [hcpu]
    decide

/-- `#GP` with the error code 0: `iret` takes the error code for `IP` and `CS`. -/
theorem intReturns_fails :
    let h := defaultHost fun _ _ _ => 0
    let s := intState (.protection 0)
    (IntEvent.protection 0).ReturnsIn s (resetCpu.seg .cs) ∧ s.StackRam .word 3 ∧
      ¬IntReturns (.protection 0) (resetCpu.seg .cs) s (handleInterrupt h s)
        ((Op.iret 0xcf).run h (handleInterrupt h s).narrow).2 := by
  intro h s
  have hh : h.Blind fun _ _ _ => 0 := (defaultHost_default _).blind
  obtain ⟨hscpu, hsmem, hsintr⟩ : s.cpu = _ ∧ s.mem = _ ∧ s.intr = _ := intState_eq (.protection 0)
  have hnext : NextInstr (handleInterrupt h s) (handleInterrupt h s).narrow :=
    intState_next hh nofun _
  clear_value s
  obtain ⟨r, hrcpu, hrmem, hcpu, hmem⟩ := handleInterrupt_delivered hh (h := h) nofun
    (hsintr ▸ (IntEvent.protection 0).type_ne_zero)
  rw [hsintr] at hcpu hmem
  have hreal : r.cpu.prot = false := by
    rw [hrcpu, hscpu]
    decide
  have hsep : r.mem.Sep := by
    rw [hrmem, hsmem]
    exact emuMemNew_sep 7
  refine ⟨⟨?_, fun h => absurd h (by decide)⟩, ?_, fun hall => ?_⟩
  · rw [hscpu]
    decide
  · unfold St.StackRam
    rw [hsmem]
    exact fun _ _ => newMem_ram _ _
  · have hsp := (return_sp_iff hreal hsep hcpu hmem hnext hh).mp (hrcpu ▸ hall.sp)
    exact hsp.1 0 rfl

end X86Emu
