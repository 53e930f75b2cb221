import X86Emu.Ops.Slots

/-!
# Saved flags

`pushf`, `popf` and `iret`. `R_FLG` and `R_EFLG` are names of one word, so the 16 bit forms of
`popf` and `iret` clear the high half of it. What they should keep they keep only where it is clear.
-/

namespace X86Emu

open Lib

/-- The ID flag. -/
def Cpu.idFlag (c : Cpu) : Bool := c.eflg.getLsbD 21

/-- The high half of `EFLAGS`. -/
def Cpu.highFlags (c : Cpu) : U16 := c.eflg.extractLsb' 16 16

/-- The flags that `pushf` saves. -/
def Host.savedFlags (h : Host) : U32 := if h.cpuid.isSome then fMsk ||| fbId else fMsk

/-! ## The handlers -/

section

variable {inp : PortInput} {h : Host} (hh : h.Blind inp)

include hh

theorem seen_pushfWord (op : U8) {z : OpSize} {s : St} (hz : s.cpu.mode.opSize true = z) :
    seen h (Op.pushfWord op) s = ((), (s.pushed z.width
      ((((s.cpu.eflg &&& h.savedFlags) ||| fAlwaysOn).setWidth z.bits).setWidth 32)).view) := by
  have hcpuid : seen h hasCpuid s = (h.cpuid.isSome, s.view) := rfl
  unfold Op.pushfWord
  rw [seen_step hh hcpuid]
  dsimp only
  rw [seen_step hh (seen_getCpu s), seen_step hh (seen_getMode s), seen_ite]
  rcases opSize_cases s.cpu.mode with ⟨hdata, hsize⟩ | ⟨hdata, hsize⟩
  · obtain rfl : OpSize.long = z := hsize.symm.trans hz
    rw [hdata, if_pos rfl, seen_step hh (seen_opDecode _ s), seen_pushLong hh]
    exact congrArg (fun v => ((), (s.pushed .b32 v).view))
      (by rw [OpSize.bits]; simp [Host.savedFlags])
  · obtain rfl : OpSize.word = z := hsize.symm.trans hz
    rw [hdata, if_neg Bool.false_ne_true, seen_step hh (seen_opDecode _ s), seen_pushWord hh]
    rfl

theorem seen_popfWord (op : U8) {z : OpSize} {s : St} (hz : s.cpu.mode.opSize true = z) :
    seen h (Op.popfWord op) s = ((), ((s.popped z.width).put fun c => { c with
      eflg := (s.mem.num z (s.cpu.below 0)).setWidth 32 ||| fAlwaysOn }).view) := by
  unfold Op.popfWord
  rw [seen_step hh (seen_getMode s), seen_ite]
  rcases opSize_cases s.cpu.mode with ⟨hdata, hsize⟩ | ⟨hdata, hsize⟩
  · obtain rfl : OpSize.long = z := hsize.symm.trans hz
    rw [hdata, if_pos rfl, seen_step hh (seen_opDecode _ s), seen_step hh (seen_popLong_num hh s),
      seen_setEflg]
    exact congrArg (fun v => ((), ((s.popped .b32).put fun c => { c with
      eflg := v ||| fAlwaysOn }).view)) (BitVec.setWidth_eq _).symm
  · obtain rfl : OpSize.word = z := hsize.symm.trans hz
    rw [hdata, if_neg Bool.false_ne_true, seen_step hh (seen_opDecode _ s),
      seen_step hh (seen_popWord_num hh s), seen_setEflg]
    rfl

/-- What `iret` pops: the new `EIP`, `CS` and flags. -/
theorem seen_iret (op : U8) {z : OpSize} {s : St} (hz : s.cpu.mode.opSize true = z) :
    seen h (Op.iret op) s =
      ((), ((((((s.popped z.width).popped z.width).popped z.width).put
      fun c => { c with eflg := (((s.popped z.width).popped z.width).mem.num z
        (((s.popped z.width).popped z.width).cpu.below 0)).setWidth 32 ||| fAlwaysOn }).wentFar
      (((s.popped z.width).mem.num z ((s.popped z.width).cpu.below 0)).setWidth 32 |>.setWidth 16)
      ((s.mem.num z (s.cpu.below 0)).setWidth 32)).view)) := by
  have hmode : ∀ t : St, (t.popped z.width).cpu.mode = t.cpu.mode := by
    intro t
    rw [popped_cpu, moveSp_mode]
  have hz₁ : (s.popped z.width).cpu.mode.opSize true = z :=
    (congrArg (·.opSize true) (hmode s)).trans hz
  have hz₂ : ((s.popped z.width).popped z.width).cpu.mode.opSize true = z :=
    (congrArg (·.opSize true) (hmode _)).trans hz₁
  unfold Op.iret
  rw [seen_step hh (seen_opDecode _ s), seen_step hh (seen_popData hh hz),
    seen_step hh (seen_popData hh hz₁), seen_step hh (seen_popData hh hz₂),
    seen_step hh (seen_setEflg _ _), seen_farTransfer hh]

theorem iret_eflg (op : U8) {z : OpSize} {s : St} (hz : s.cpu.mode.opSize true = z) :
    ∃ v : BitVec z.bits, ((Op.iret op).run h s).2.cpu.eflg = v.setWidth 32 ||| fAlwaysOn := by
  obtain ⟨hcpu, -, -⟩ := view_parts (congrArg Prod.snd (seen_iret hh op hz))
  exact ⟨_, (congrArg Cpu.eflg hcpu).trans (wentFar_eflg _ _ _)⟩

end

/-! ## What is restored -/

theorem highFlags_word (v : U16) : (v.setWidth 32 ||| fAlwaysOn).extractLsb' 16 16 = 0 := by
  apply BitVec.eq_of_getLsbD_eq
  intro i hi
  rw [BitVec.getLsbD_extractLsb', BitVec.getLsbD_or, BitVec.getLsbD_setWidth,
    BitVec.getLsbD_of_ge v _ (by omega), Bool.and_false, Bool.false_or]
  have hbits : ∀ i < 16, (decide (i < 16) && fAlwaysOn.getLsbD (16 + i)) = (0 : U16).getLsbD i := by
    decide
  exact hbits i hi

theorem idFlag_word (v : U16) : (v.setWidth 32 ||| fAlwaysOn).getLsbD 21 = false := by
  rw [BitVec.getLsbD_or, BitVec.getLsbD_setWidth, BitVec.getLsbD_of_ge v _ (by decide),
    Bool.and_false, Bool.false_or]
  decide

/-- The bits of `pushfd` come back. -/
theorem restored_long (e : U32) : (e &&& (fMsk ||| fbId) ||| fAlwaysOn ||| fAlwaysOn) &&&
    (fMsk ||| fbId) = e &&& (fMsk ||| fbId) := by
  rw [BitVec.or_assoc, BitVec.or_self, BitVec.and_or_distrib_right, BitVec.and_assoc,
    BitVec.and_self, show fAlwaysOn &&& (fMsk ||| fbId) = 0#32 from rfl, BitVec.or_zero]

/-- The bits of `pushf` come back but for the ID flag. -/
theorem restored_word (e : U32) :
    (((e &&& (fMsk ||| fbId) ||| fAlwaysOn).setWidth 16).setWidth 32 ||| fAlwaysOn) &&&
      (fMsk ||| fbId) = e &&& fMsk := by
  have hlow : ∀ x : U32, (x.setWidth 16).setWidth 32 = x &&& 0xffff := by
    intro x
    have hones := and_ones x 0 16
    rw [BitVec.shiftLeft_zero, BitVec.shiftLeft_zero, BitVec.ushiftRight_zero] at hones
    exact hones.symm
  rw [hlow, BitVec.and_or_distrib_right, BitVec.and_or_distrib_right, BitVec.and_or_distrib_right,
    BitVec.and_assoc, BitVec.and_assoc, show (fMsk ||| fbId) &&& (0xffff &&& (fMsk ||| fbId)) = fMsk
      from rfl, show fAlwaysOn &&& 0xffff &&& (fMsk ||| fbId) = 0#32 from rfl,
    show fAlwaysOn &&& (fMsk ||| fbId) = 0#32 from rfl, BitVec.or_zero, BitVec.or_zero]

theorem masked_id (e : U32) :
    e &&& fMsk = e &&& (fMsk ||| fbId) ↔ e.getLsbD 21 = false := by
  have hid : e &&& fbId = if e.getLsbD 21 then fbId else 0#32 := BitVec.and_twoPow e 21
  constructor
  · intro h
    have hbit := congrArg (·.getLsbD 21) h
    simp only [BitVec.getLsbD_and, show fMsk.getLsbD 21 = false from rfl,
      show (fMsk ||| fbId).getLsbD 21 = true from rfl, Bool.and_false, Bool.and_true] at hbit
    exact hbit.symm
  · intro h
    rw [BitVec.and_or_distrib_left, hid, h, if_neg Bool.false_ne_true, BitVec.or_zero]

section

variable {inp : PortInput} {h : Host} (hh : h.Blind inp)

include hh

theorem popf_eflg (op : U8) {z : OpSize} {s : St} (hz : s.cpu.mode.opSize true = z) :
    ((Op.popfWord op).run h s).2.cpu.eflg =
      (s.mem.num z (s.cpu.below 0)).setWidth 32 ||| fAlwaysOn := by
  obtain ⟨hcpu, -, -⟩ := view_parts (congrArg Prod.snd (seen_popfWord hh op hz))
  rw [hcpu]
  rfl

/-- What `popf` finds where `pushf` has saved it. -/
theorem pushf_popf_eflg {z : OpSize} {s u : St} (hz : s.cpu.mode.opSize true = z) (hsep : s.mem.Sep)
    (hram : s.StackRam z 1) (hres : Resumes ((Op.pushfWord 0x9c).run h s).2 u)
    (hzu : u.cpu.mode.opSize true = z) : ((Op.popfWord 0x9d).run h u).2.cpu.eflg =
      (((s.cpu.eflg &&& h.savedFlags) ||| fAlwaysOn).setWidth z.bits).setWidth 32
        ||| fAlwaysOn := by
  let v := ((s.cpu.eflg &&& h.savedFlags) ||| fAlwaysOn).setWidth z.bits
  have hpush : ((Op.pushfWord 0x9c).run h s).2.view = (s.pushes z [v]).view :=
    congrArg Prod.snd (seen_pushfWord hh 0x9c hz)
  have hres' := hres.of_view hpush
  have hdown := hres'.down (pushes_down s z [v])
  have hlen := (bytes_le z).2
  have hnum := pushes_num hsep [v] hram (by rw [List.length_singleton]; omega)
    (show 0 < [v].length from Nat.zero_lt_one)
  rw [popf_eflg hh 0x9d hzu, hdown.below, hres'.num]
  rw [Nat.zero_add] at hnum
  exact congrArg (fun x => BitVec.setWidth 32 x ||| fAlwaysOn) hnum

end

/-- The 16 bit forms keep what is above the low half exactly where that is clear: the high half of
`EFLAGS` in `popf` and `iret`, and the ID flag in the pairs `pushf`, `popf` and `int`, `iret`. -/
theorem flagRestore_iff {inp : PortInput} {h : Host} (hh : h.Blind inp) :
    (∀ s : St, s.cpu.mode.data32 = false →
      (((Op.popfWord 0x9d).run h s).2.cpu.highFlags = s.cpu.highFlags ↔ s.cpu.highFlags = 0) ∧
      (((Op.iret 0xcf).run h s).2.cpu.highFlags = s.cpu.highFlags ↔ s.cpu.highFlags = 0)) ∧
    (∀ s u : St, h.cpuid.isSome = true → s.mem.Sep → s.StackRam (s.cpu.mode.opSize true) 1 →
      Resumes ((Op.pushfWord 0x9c).run h s).2 u → u.cpu.mode.data32 = s.cpu.mode.data32 →
      (((Op.popfWord 0x9d).run h u).2.cpu.eflg &&& (fMsk ||| fbId) =
          s.cpu.eflg &&& (fMsk ||| fbId) ↔
        s.cpu.mode.data32 = true ∨ s.cpu.idFlag = false)) ∧
    (∀ s u : St, Resumes (handleInterrupt h ((Op.intImm 0xcd).run h s).2) u →
      u.cpu.mode.data32 = false →
      (((Op.iret 0xcf).run h u).2.cpu.idFlag = s.cpu.idFlag ↔ s.cpu.idFlag = false)) := by
  have hword : ∀ s : St, s.cpu.mode.data32 = false → s.cpu.mode.opSize true = .word := by
    intro s hdata
    unfold Mode.opSize
    rw [hdata]
    rfl
  refine ⟨?_, ?_, ?_⟩
  · intro s hdata
    obtain ⟨v, hiret⟩ := iret_eflg hh 0xcf (hword s hdata)
    have hhigh : ∀ e : U32, e.extractLsb' 16 16 = 0 →
        (e.extractLsb' 16 16 = s.cpu.highFlags ↔ s.cpu.highFlags = 0) := by
      intro e he
      rw [he]
      exact eq_comm
    constructor
    · refine hhigh _ ?_
      rw [popf_eflg hh 0x9d (hword s hdata)]
      exact highFlags_word _
    · refine hhigh _ ?_
      rw [hiret]
      exact highFlags_word v
  · intro s u hcpuid hsep hram hres hdata
    have hzu : u.cpu.mode.opSize true = s.cpu.mode.opSize true := by
      unfold Mode.opSize
      rw [hdata]
    have hmask : h.savedFlags = fMsk ||| fbId := if_pos hcpuid
    rw [pushf_popf_eflg hh rfl hsep hram hres hzu, hmask]
    rcases opSize_cases s.cpu.mode with ⟨hwide, hsize⟩ | ⟨hwide, hsize⟩
    · rw [hsize, hwide]
      refine iff_of_true ?_ (Or.inl rfl)
      exact (congrArg (fun x => (x ||| fAlwaysOn) &&& (fMsk ||| fbId))
        ((BitVec.setWidth_eq _).trans (BitVec.setWidth_eq _))).trans (restored_long _)
    · rw [hsize, hwide]
      have hid := masked_id s.cpu.eflg
      rw [← restored_word] at hid
      exact hid.trans (or_iff_right Bool.false_ne_true).symm
  · intro s u _ hdata
    obtain ⟨v, hiret⟩ := iret_eflg hh 0xcf (hword u hdata)
    have hlost : ((Op.iret 0xcf).run h u).2.cpu.idFlag = false := by
      unfold Cpu.idFlag
      rw [hiret]
      exact idFlag_word v
    rw [hlost]
    exact eq_comm

/-- A host with a handler for CPUID. -/
def cpuidHost : Host := { defaultHost fun _ _ _ => 0 with cpuid := some id }

theorem cpuidHost_blind : cpuidHost.Blind fun _ _ _ => 0 where
  memio := rfl
  cpuid hf := by
    cases hf
    exact fun _ => rfl
  rdmsr hf := by
    cases hf
    exact fun _ => rfl
  wrmsr hf := by
    cases hf
    exact fun _ => rfl
  flush hf := by cases hf

/-- After a reset, with the ID flag clear. -/
theorem flagRestore_iff_reset :
    let s : St := { cpu := resetCpu, mem := emuMemNew 7 }
    (((Op.popfWord 0x9d).run cpuidHost s).2.cpu.highFlags = s.cpu.highFlags ∧
      ((Op.iret 0xcf).run cpuidHost s).2.cpu.highFlags = s.cpu.highFlags) ∧
    ((Op.popfWord 0x9d).run cpuidHost
        ((Op.pushfWord 0x9c).run cpuidHost s).2.narrow).2.cpu.eflg &&& (fMsk ||| fbId) =
      s.cpu.eflg &&& (fMsk ||| fbId) ∧
    ((Op.iret 0xcf).run cpuidHost
        (handleInterrupt cpuidHost ((Op.intImm 0xcd).run cpuidHost s).2).narrow).2.cpu.idFlag =
      s.cpu.idFlag := by
  intro s
  obtain ⟨hhalf, hpush, hint⟩ := flagRestore_iff cpuidHost_blind
  refine ⟨⟨(hhalf s rfl).1.mpr (by decide), (hhalf s rfl).2.mpr (by decide)⟩, ?_, ?_⟩
  · exact (hpush s _ rfl (emuMemNew_sep 7) (fun _ _ => newMem_ram _ _) (narrow_resumes _)
      rfl).mpr (Or.inr (by decide))
  · exact (hint s _ (narrow_resumes _) rfl).mpr (by decide)

/-- `popf` with the ID flag set. -/
theorem flagRestore_fails :
    let s : St := { cpu := { resetCpu with eflg := 0x200002 } }
    s.cpu.mode.data32 = false ∧
      ((Op.popfWord 0x9d).run cpuidHost s).2.cpu.highFlags ≠ s.cpu.highFlags := by
  intro s
  refine ⟨rfl, fun hkept => ?_⟩
  unfold Cpu.highFlags at hkept
  rw [popf_eflg cpuidHost_blind 0x9d (z := .word) rfl] at hkept
  exact absurd ((highFlags_word _).symm.trans hkept) (by decide)

end X86Emu
