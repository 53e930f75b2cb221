import X86Emu.Ops.Results
import X86Emu.Ops.Slots

/-!
# `pusha` and `popa`

The image of the eight registers, and what is restored from it. `popa` skips the saved stack pointer
in the width of the operands while its pops use the width of the stack. Where the widths differ and
the skip carries out of 16 bits, the stack pointer is not restored.
-/

namespace X86Emu

open Lib

/-! ## Pops into registers -/

/-- A pop into the register of the number `i`. -/
def St.popInto (s : St) (z : OpSize) (i : BitVec 3) : St :=
  (s.popped z.width).put (·.setReg z i (s.mem.num z (s.cpu.below 0)))

/-- Pops into the registers of the numbers from `m + k - 1` down to `m`. -/
def St.popsDown (s : St) (z : OpSize) (m : Nat) : Nat → St
  | 0 => s
  | k + 1 => (s.popInto z (BitVec.ofNat 3 (m + k))).popsDown z m k

section

variable {z : OpSize} (hz : z ≠ .byte) {c : Cpu}

include hz

theorem popInto_down {s : St} {m : Nat} {i : BitVec 3} (hi : i ≠ 4)
    (h : c.Down (m + z.bytes) s.cpu) : c.Down m (s.popInto z i).cpu := by
  obtain ⟨hseg, hmode⟩ := setReg_rest hz (s.popped z.width).cpu i (s.mem.num z (s.cpu.below 0))
  refine (popped_down h).congr ?_ (congrFun hseg .ss) (congrArg Mode.stack32 hmode)
  exact setReg_ne hz _ i _ fun h => hi (ofBits_sp.mp h.symm)

theorem popInto_gen {s : St} {i : BitVec 3} (hi : i ≠ 4) :
    (s.popInto z i).cpu.gen (Reg.ofBits i) =
      (s.cpu.setReg z i (s.mem.num z (s.cpu.below 0))).gen (Reg.ofBits i) := by
  refine setReg_congr hz _ i _ ?_
  rw [popped_cpu]
  exact moveSp_ne (fun h => hi (ofBits_sp.mp h)) _

theorem popInto_ne {s : St} {i : BitVec 3} {r : Reg} (hr : r ≠ Reg.ofBits i) (hsp : r ≠ .sp) :
    (s.popInto z i).cpu.gen r = s.cpu.gen r := by
  refine (setReg_ne hz _ i _ hr).trans ?_
  rw [popped_cpu]
  exact moveSp_ne hsp _

omit hz in
theorem popInto_marked (s : St) (i : BitVec 3) : s.mem.Marked (s.popInto z i).mem :=
  popped_marked s z

/-- What the pops down to the register `m` restore, when the slot of the register `i` is the
`i`-th. -/
structure Restored (c : Cpu) (z : OpSize) (v : Nat → BitVec z.bits) (m k : Nat) (s t : St) :
    Prop where
  down : c.Down (m * z.bytes) t.cpu
  regs : ∀ i, m ≤ i → i < m + k → t.cpu.gen (Reg.ofBits (BitVec.ofNat 3 i)) =
    (s.cpu.setReg z (BitVec.ofNat 3 i) (v i)).gen (Reg.ofBits (BitVec.ofNat 3 i))
  rest : ∀ r, r ≠ .sp → (∀ i, m ≤ i → i < m + k → r ≠ Reg.ofBits (BitVec.ofNat 3 i)) →
    t.cpu.gen r = s.cpu.gen r
  mem : s.mem.Marked t.mem

theorem popsDown_restored {v : Nat → BitVec z.bits} {m k : Nat} (hk : m + k ≤ 8)
    (hsp : m + k ≤ 4 ∨ 5 ≤ m) {s : St} (hdown : c.Down ((m + k) * z.bytes) s.cpu)
    (hnum : ∀ i, m ≤ i → i < m + k → s.mem.num z (c.below ((i + 1) * z.bytes)) = v i) :
    Restored c z v m k s (s.popsDown z m k) := by
  induction k generalizing s with
  | zero => exact ⟨hdown, fun i hi hlt => absurd hlt (by omega), fun _ _ _ => rfl, .refl _⟩
  | succ k ih =>
    have hsp' : Reg.ofBits (BitVec.ofNat 3 (m + k)) ≠ .sp := ofNat_sp (by omega) (by omega)
    have hi : BitVec.ofNat 3 (m + k) ≠ 4 := fun h => hsp' (ofBits_sp.mpr h)
    have hdown' : c.Down ((m + k) * z.bytes + z.bytes) s.cpu := by
      rw [← Nat.succ_mul]
      exact hdown
    have hfirst : s.mem.num z (s.cpu.below 0) = v (m + k) := by
      rw [hdown'.below, Nat.add_zero, ← Nat.succ_mul]
      exact hnum (m + k) (by omega) (by omega)
    have hmark := popInto_marked (z := z) s (BitVec.ofNat 3 (m + k))
    have hrec := ih (s := s.popInto z (BitVec.ofNat 3 (m + k))) (by omega) (by omega)
      (popInto_down hz hi hdown')
      fun j hj hlt => by
        rw [hmark.num]
        exact hnum j hj (by omega)
    refine ⟨hrec.down, ?_, ?_, hmark.trans hrec.mem⟩
    · intro j hj hlt
      by_cases hjk : j = m + k
      · subst hjk
        refine (hrec.rest _ hsp' fun j hj hlt => ?_).trans ?_
        · exact ofNat_ne (i := m + k) (by omega) (by omega) (by omega)
        · rw [← hfirst]
          exact popInto_gen hz hi
      · have hne : Reg.ofBits (BitVec.ofNat 3 j) ≠ Reg.ofBits (BitVec.ofNat 3 (m + k)) :=
          ofNat_ne (by omega) (by omega) hjk
        have hkept := popInto_ne hz (s := s) hne (ofNat_sp (by omega) (by omega))
        exact (hrec.regs j hj (by omega)).trans (setReg_congr hz _ _ _ hkept)
    · intro r hr hother
      refine (hrec.rest r hr fun j hj hlt => hother j hj (by omega)).trans ?_
      exact popInto_ne hz (hother (m + k) (by omega) (by omega)) hr

end

/-! ## The handlers -/

/-- The eight registers in the order in which they are pushed. -/
def Cpu.regImage (c : Cpu) (z : OpSize) : List (BitVec z.bits) :=
  (List.range 8).map fun i => c.getReg z (BitVec.ofNat 3 i)

/-- The pop of the stack pointer, which is skipped in the width of the operands. -/
def St.skipped (s : St) (z : OpSize) : St :=
  s.put fun c => c.setGen .sp (idxAdd (decide (z = .long)) (BitVec.ofNat 32 z.bytes) (c.gen .sp))

section

variable {inp : PortInput} {h : Host} (hh : h.Blind inp) {z : OpSize} (hz : z ≠ .byte)

include hz hh

theorem pushAll_steps {get : Reg → Emu (BitVec z.bits)} {push : BitVec z.bits → Emu Unit}
    (hget : ∀ r i s, Reg.ofBits i = r → seen h (get r) s = (s.cpu.getReg z i, s.view))
    (hpush : ∀ v s, seen h (push v) s = ((), (s.pushed z.width (v.setWidth 32)).view)) (s : St) :
    seen h (do
      push (← get .ax)
      push (← get .cx)
      push (← get .dx)
      push (← get .bx)
      push (s.cpu.getReg z 4)
      push (← get .bp)
      push (← get .si)
      push (← get .di)) s = ((), (s.pushes z (s.cpu.regImage z)).view) := by
  rw [seen_step hh (hget .ax 0 s rfl), seen_step hh (hpush _ _), seen_step hh (hget .cx 1 _ rfl),
    seen_step hh (hpush _ _), seen_step hh (hget .dx 2 _ rfl), seen_step hh (hpush _ _),
    seen_step hh (hget .bx 3 _ rfl), seen_step hh (hpush _ _), seen_step hh (hpush _ _),
    seen_step hh (hget .bp 5 _ rfl), seen_step hh (hpush _ _), seen_step hh (hget .si 6 _ rfl),
    seen_step hh (hpush _ _), seen_step hh (hget .di 7 _ rfl), hpush]
  simp only [pushed_getReg hz (show (1 : BitVec 3) ≠ 4 by decide),
    pushed_getReg hz (show (2 : BitVec 3) ≠ 4 by decide),
    pushed_getReg hz (show (3 : BitVec 3) ≠ 4 by decide),
    pushed_getReg hz (show (5 : BitVec 3) ≠ 4 by decide),
    pushed_getReg hz (show (6 : BitVec 3) ≠ 4 by decide),
    pushed_getReg hz (show (7 : BitVec 3) ≠ 4 by decide)]
  rfl

omit hz in
theorem popAll_seen {pop : Emu (BitVec z.bits)} {set : Reg → BitVec z.bits → Emu Unit}
    {read : Emu (BitVec z.bits)} {adjust : BitVec z.bits → Emu Unit}
    (hpop : ∀ s, seen h pop s = (s.mem.num z (s.cpu.below 0), (s.popped z.width).view))
    (hset : ∀ r i v s, Reg.ofBits i = r →
      seen h (set r v) s = ((), (s.put (·.setReg z i v)).view))
    (hadjust : ∀ {α} (x : Emu α) s, seen h (read >>= fun v => adjust v >>= fun _ => x) s =
      seen h x (s.skipped z)) (s : St) :
    seen h (do
      set .di (← pop)
      set .si (← pop)
      set .bp (← pop)
      adjust (← read)
      set .bx (← pop)
      set .dx (← pop)
      set .cx (← pop)
      set .ax (← pop)) s = ((), (((s.popsDown z 5 3).skipped z).popsDown z 0 4).view) := by
  rw [seen_step hh (hpop s), seen_step hh (hset .di 7 _ _ rfl), seen_step hh (hpop _),
    seen_step hh (hset .si 6 _ _ rfl), seen_step hh (hpop _), seen_step hh (hset .bp 5 _ _ rfl),
    hadjust, seen_step hh (hpop _), seen_step hh (hset .bx 3 _ _ rfl), seen_step hh (hpop _),
    seen_step hh (hset .dx 2 _ _ rfl), seen_step hh (hpop _), seen_step hh (hset .cx 1 _ _ rfl),
    seen_step hh (hpop _), hset .ax 0 _ _ rfl]
  rfl

omit hz in
theorem seen_pushAll (op : U8) {s : St} (hsize : s.cpu.mode.opSize true = z) :
    seen h (Op.pushAll op) s = ((), (s.pushes z (s.cpu.regImage z)).view) := by
  unfold Op.pushAll
  rw [seen_step hh (seen_getGen .sp s), seen_step hh (seen_getMode s), seen_ite]
  rcases opSize_cases s.cpu.mode with ⟨hdata, hlong⟩ | ⟨hdata, hword⟩
  · obtain rfl : OpSize.long = z := hlong.symm.trans hsize
    rw [hdata, if_pos rfl, seen_step hh (seen_opDecode _ s)]
    exact pushAll_steps hh (z := .long) (by decide) (fun r i t hr => hr ▸ seen_getGen _ t)
      (seen_pushSize hh (z := .long) (by decide)) s
  · obtain rfl : OpSize.word = z := hword.symm.trans hsize
    rw [hdata, if_neg Bool.false_ne_true, seen_step hh (seen_opDecode _ s)]
    exact pushAll_steps hh (z := .word) (by decide) (fun r i t hr => hr ▸ seen_get16 _ t)
      (seen_pushSize hh (z := .word) (by decide)) s

omit hz in
theorem seen_popAll (op : U8) {s : St} (hsize : s.cpu.mode.opSize true = z) :
    seen h (Op.popAll op) s = ((), (((s.popsDown z 5 3).skipped z).popsDown z 0 4).view) := by
  unfold Op.popAll
  rw [seen_step hh (seen_getMode s), seen_ite]
  rcases opSize_cases s.cpu.mode with ⟨hdata, hlong⟩ | ⟨hdata, hword⟩
  · obtain rfl : OpSize.long = z := hlong.symm.trans hsize
    have hskip : ∀ {α} (x : Emu α) t, seen h (do
        setGen .sp ((← getGen .sp) + 4)
        x) t = seen h x (t.skipped .long) := by
      intro α x t
      rw [seen_step hh (seen_getGen .sp t), seen_step hh (seen_setGen .sp _ t)]
      rfl
    rw [hdata, if_pos rfl, seen_step hh (seen_opDecode _ s)]
    exact popAll_seen hh (z := .long) (seen_popSize hh (z := .long) (by decide))
      (fun r i v t hr => hr ▸ seen_setGen _ v t) hskip s
  · obtain rfl : OpSize.word = z := hword.symm.trans hsize
    have hskip : ∀ {α} (x : Emu α) t, seen h (do
        set16 .sp ((← get16 .sp) + 2)
        x) t = seen h x (t.skipped .word) := by
      intro α x t
      rw [seen_step hh (seen_get16 .sp t), seen_step hh (seen_set16 .sp _ t)]
      rfl
    rw [hdata, if_neg Bool.false_ne_true, seen_step hh (seen_opDecode _ s)]
    exact popAll_seen hh (z := .word) (seen_popSize hh (z := .word) (by decide))
      (fun r i v t hr => hr ▸ seen_set16 _ v t) hskip s

end

/-! ## What is restored -/

/-- From `s` the registers are pushed, with the result `p`, and from `u` they are popped, with the
result `t`: the image holds the registers with the last one lowest, the registers get back what was
pushed, and the stack pointer is as before. -/
structure AllRestored (z : OpSize) (s p u t : St) : Prop where
  image : ∀ i < 8, p.mem.num z (s.cpu.below ((i + 1) * z.bytes)) =
    s.cpu.getReg z (BitVec.ofNat 3 i)
  regs : ∀ i, i ≠ 4 → t.cpu.gen (Reg.ofBits i) =
    (u.cpu.setReg z i (s.cpu.getReg z i)).gen (Reg.ofBits i)
  sp : t.cpu.gen .sp = s.cpu.gen .sp

theorem exists_ofBits (r : Reg) : ∃ i, Reg.ofBits i = r := by
  cases r with
  | ax => exact ⟨0, rfl⟩
  | cx => exact ⟨1, rfl⟩
  | dx => exact ⟨2, rfl⟩
  | bx => exact ⟨3, rfl⟩
  | sp => exact ⟨4, rfl⟩
  | bp => exact ⟨5, rfl⟩
  | si => exact ⟨6, rfl⟩
  | di => exact ⟨7, rfl⟩

/-- Without changes in between all registers are as before. -/
theorem AllRestored.gen {z : OpSize} (hz : z ≠ .byte) {s p u t : St} (h : AllRestored z s p u t)
    (hkept : ∀ r, r ≠ .sp → u.cpu.gen r = s.cpu.gen r) : t.cpu.gen = s.cpu.gen := by
  funext r
  obtain ⟨i, rfl⟩ := exists_ofBits r
  by_cases hi : i = 4
  · subst hi
    exact h.sp
  · rw [h.regs i hi, setReg_congr hz s.cpu i _ (hkept _ fun h => hi (ofBits_sp.mp h)),
      setReg_getReg]

section

variable {z : OpSize} (hz : z ≠ .byte) {s u : St}

include hz

omit hz in
/-- What is found in the slots of the image. -/
theorem image_num (hsep : s.mem.Sep) (hram : s.StackRam z 8) {i : Nat} (hi : i < 8) :
    (s.pushes z (s.cpu.regImage z)).mem.num z (s.cpu.below ((i + 1) * z.bytes)) =
      s.cpu.getReg z (BitVec.ofNat 3 i) := by
  have hlen : (s.cpu.regImage z).length = 8 := by
    unfold Cpu.regImage
    rw [List.length_map, List.length_range]
  have hbytes := (bytes_le z).2
  have hnum := pushes_num hsep (s.cpu.regImage z) (by rw [hlen]; exact hram)
    (by rw [hlen]; omega) (by rw [hlen]; exact hi)
  rw [hnum]
  unfold Cpu.regImage
  rw [List.getElem_map, List.getElem_range]

/-- The pops before and after the skip, from any image. -/
theorem popAll_down (hdown : s.cpu.Down (8 * z.bytes) u.cpu) :
    s.cpu.Down (5 * z.bytes) (u.popsDown z 5 3).cpu ∧
      (((u.popsDown z 5 3).skipped z).popsDown z 0 4).cpu.gen .sp =
        idxAdd s.cpu.mode.stack32 (BitVec.ofNat 32 (4 * z.bytes))
          (((u.popsDown z 5 3).skipped z).cpu.gen .sp) := by
  have hfirst := popsDown_restored hz (m := 5) (k := 3) (by decide) (Or.inr (by decide)) hdown
    fun _ _ _ => rfl
  have hlast := popsDown_restored hz (m := 0) (k := 4) (by decide) (Or.inl (by decide))
    (Cpu.Down.below_up ((u.popsDown z 5 3).skipped z).cpu ((0 + 4) * z.bytes)) fun _ _ _ => rfl
  refine ⟨hfirst.down, ?_⟩
  have hsp := hlast.down
  rw [Nat.zero_mul] at hsp
  rw [hsp.zero, moveSp_sp, Nat.zero_add]
  have hstack : ((u.popsDown z 5 3).skipped z).cpu.mode.stack32 = s.cpu.mode.stack32 :=
    hfirst.down.stack32
  rw [hstack]

omit hz in
theorem skipped_sp (s : St) (z : OpSize) : (s.skipped z).cpu.gen .sp =
    idxAdd (decide (z = .long)) (BitVec.ofNat 32 z.bytes) (s.cpu.gen .sp) := setGen_self .sp _ s.cpu

omit hz in
theorem skipped_ne (s : St) (z : OpSize) {r : Reg} (hr : r ≠ .sp) :
    (s.skipped z).cpu.gen r = s.cpu.gen r := setGen_ne hr _ s.cpu

omit hz in
theorem skipped_rest (s : St) (z : OpSize) : (s.skipped z).cpu.seg = s.cpu.seg ∧
    (s.skipped z).cpu.mode = s.cpu.mode ∧ (s.skipped z).mem = s.mem := ⟨rfl, rfl, rfl⟩

/-- The skip in the width of the operands is that of a pop unless it carries out of 16 bits. -/
def St.SkipFits (s : St) (z : OpSize) : Prop :=
  decide (z = .long) = s.cpu.mode.stack32 ∨
    (s.cpu.get16 .sp - BitVec.ofNat 16 (5 * z.bytes)).toNat + z.bytes < 0x10000

omit hz in
/-- The skip, five numbers below the stack pointer. -/
theorem skipFits_iff {w : Cpu} (hdown : s.cpu.Down (5 * z.bytes) w) :
    idxAdd (decide (z = .long)) (BitVec.ofNat 32 z.bytes) (w.gen .sp) =
      idxAdd s.cpu.mode.stack32 (BitVec.ofNat 32 z.bytes) (w.gen .sp) ↔ s.SkipFits z := by
  have hn : (BitVec.ofNat 32 z.bytes).toNat = z.bytes := by cases z <;> rfl
  have hbytes := (bytes_le z).2
  have hlow : (w.gen .sp).setWidth 16 = s.cpu.get16 .sp - BitVec.ofNat 16 (5 * z.bytes) := by
    rw [hdown.sp, moveSp_sp, idxAdd_low, BitVec.sub_eq_add_neg]
    refine congrArg (s.cpu.get16 .sp + ·) ?_
    cases z <;> rfl
  rw [idxAdd_widths _ _ (by rw [hn]; omega), hlow, hn]
  rfl

theorem popAll_sp_iff (hdown : s.cpu.Down (8 * z.bytes) u.cpu) :
    (((u.popsDown z 5 3).skipped z).popsDown z 0 4).cpu.gen .sp = s.cpu.gen .sp ↔
      s.SkipFits z := by
  obtain ⟨hfive, hfinal⟩ := popAll_down hz hdown
  have hback : s.cpu.gen .sp = idxAdd s.cpu.mode.stack32 (BitVec.ofNat 32 (4 * z.bytes))
      (idxAdd s.cpu.mode.stack32 (BitVec.ofNat 32 z.bytes) ((u.popsDown z 5 3).cpu.gen .sp)) := by
    have hsum : -BitVec.ofNat 32 (5 * z.bytes) + (BitVec.ofNat 32 z.bytes +
        BitVec.ofNat 32 (4 * z.bytes)) = 0 := by
      cases z <;> rfl
    rw [hfive.sp, moveSp_sp, idxAdd_idxAdd, idxAdd_idxAdd, hsum, idxAdd_zero]
  rw [hfinal, skipped_sp, ← skipFits_iff hfive]
  constructor
  · intro heq
    exact idxAdd_inj.mp (heq.trans hback)
  · intro heq
    rw [heq]
    exact hback.symm

/-- All registers come back when the skip is that of a pop. -/
theorem popAll_regs (hdown : s.cpu.Down (8 * z.bytes) u.cpu) (hfits : s.SkipFits z)
    (hnum : ∀ i < 8, u.mem.num z (s.cpu.below ((i + 1) * z.bytes)) =
      s.cpu.getReg z (BitVec.ofNat 3 i)) {i : Nat} (hi : i < 8) (hne : i ≠ 4) :
    (((u.popsDown z 5 3).skipped z).popsDown z 0 4).cpu.gen (Reg.ofBits (BitVec.ofNat 3 i)) =
      (u.cpu.setReg z (BitVec.ofNat 3 i) (s.cpu.getReg z (BitVec.ofNat 3 i))).gen
        (Reg.ofBits (BitVec.ofNat 3 i)) := by
  have hfirst := popsDown_restored hz (m := 5) (k := 3) (by decide) (Or.inr (by decide)) hdown
    fun i _ hlt => hnum i hlt
  have hup : s.cpu.Down (4 * z.bytes)
      ((u.popsDown z 5 3).cpu.moveSp (BitVec.ofNat 32 z.bytes)) := by
    refine Cpu.Down.up ?_
    rw [← Nat.succ_mul]
    exact hfirst.down
  have hfour : s.cpu.Down ((0 + 4) * z.bytes) ((u.popsDown z 5 3).skipped z).cpu := by
    obtain ⟨hseg, hmode, -⟩ := skipped_rest (u.popsDown z 5 3) z
    refine hup.congr ?_ (by rw [hseg, moveSp_seg]) (by rw [hmode, moveSp_mode])
    rw [skipped_sp, (skipFits_iff hfirst.down).mpr hfits, moveSp_sp, hfirst.down.stack32]
  have hlast := popsDown_restored hz (m := 0) (k := 4) (by decide) (Or.inl (by decide)) hfour
    fun i _ hlt => (hfirst.mem.num z _).trans (hnum i (by omega))
  have hskip : ((u.popsDown z 5 3).skipped z).cpu.gen (Reg.ofBits (BitVec.ofNat 3 i)) =
      (u.popsDown z 5 3).cpu.gen (Reg.ofBits (BitVec.ofNat 3 i)) :=
    skipped_ne _ z (ofNat_sp hi hne)
  by_cases hlow : i < 4
  · rw [hlast.regs i (by omega) (by omega)]
    have hkept := hfirst.rest _ (ofNat_sp hi hne) fun j hj hlt =>
      ofNat_ne (j := j) hi (by omega) (by omega)
    exact setReg_congr hz _ _ _ (hskip.trans hkept)
  · rw [hlast.rest _ (ofNat_sp hi hne) fun j _ hlt => ofNat_ne hi (by omega) (by omega), hskip]
    exact hfirst.regs i (by omega) (by omega)

end

section

variable {inp : PortInput} {h : Host} (hh : h.Blind inp) {s u : St}
  (hres : Resumes ((Op.pushAll 0x60).run h s).2 u)
  (hdata : u.cpu.mode.data32 = s.cpu.mode.data32)

include hh hres

theorem pushAll_resumed : Resumes (s.pushes (s.cpu.mode.opSize true)
    (s.cpu.regImage (s.cpu.mode.opSize true))) u :=
  hres.of_view (congrArg Prod.snd (seen_pushAll hh 0x60 rfl))

theorem pushAll_down : s.cpu.Down (8 * (s.cpu.mode.opSize true).bytes) u.cpu := by
  have hlen : (s.cpu.regImage (s.cpu.mode.opSize true)).length = 8 := by
    unfold Cpu.regImage
    rw [List.length_map, List.length_range]
  have hdown := (pushAll_resumed hh hres).down (pushes_down s _ _)
  rwa [hlen] at hdown

omit hres in
include hdata in
theorem popAll_cpu : ((Op.popAll 0x61).run h u).2.cpu =
    (((u.popsDown (s.cpu.mode.opSize true) 5 3).skipped (s.cpu.mode.opSize true)).popsDown
      (s.cpu.mode.opSize true) 0 4).cpu := by
  have hsize : u.cpu.mode.opSize true = s.cpu.mode.opSize true := by
    unfold Mode.opSize
    rw [hdata]
  exact (view_parts (congrArg Prod.snd (seen_popAll hh 0x61 hsize))).1

include hdata

theorem pushAll_popAll_sp : ((Op.popAll 0x61).run h u).2.cpu.gen .sp = s.cpu.gen .sp ↔
    s.SkipFits (s.cpu.mode.opSize true) := by
  rw [popAll_cpu hh hdata]
  exact popAll_sp_iff (opSize_ne_byte _) (pushAll_down hh hres)

/-- `pusha` and `popa`, `pushad` and `popad`: all is restored exactly when operands and stack have
the same width, or the skip of the saved stack pointer does not carry out of 16 bits. -/
theorem pushAll_popAll_iff (hsep : s.mem.Sep) (hram : s.StackRam (s.cpu.mode.opSize true) 8) :
    AllRestored (s.cpu.mode.opSize true) s ((Op.pushAll 0x60).run h s).2 u
        ((Op.popAll 0x61).run h u).2 ↔
      s.SkipFits (s.cpu.mode.opSize true) := by
  have himage : ∀ i < 8, ((Op.pushAll 0x60).run h s).2.mem.num (s.cpu.mode.opSize true)
      (s.cpu.below ((i + 1) * (s.cpu.mode.opSize true).bytes)) =
      s.cpu.getReg (s.cpu.mode.opSize true) (BitVec.ofNat 3 i) := by
    intro i hi
    rw [(view_parts (congrArg Prod.snd (seen_pushAll hh 0x60 rfl))).2.1]
    exact image_num hsep hram hi
  have hnum : ∀ i < 8, u.mem.num (s.cpu.mode.opSize true)
      (s.cpu.below ((i + 1) * (s.cpu.mode.opSize true).bytes)) =
      s.cpu.getReg (s.cpu.mode.opSize true) (BitVec.ofNat 3 i) :=
    fun i hi => (hres.num _ _).trans (himage i hi)
  constructor
  · intro hall
    exact (pushAll_popAll_sp hh hres hdata).mp hall.sp
  · intro hfits
    refine ⟨himage, fun i hi => ?_, (pushAll_popAll_sp hh hres hdata).mpr hfits⟩
    have hregs := popAll_regs (opSize_ne_byte _) (pushAll_down hh hres) hfits hnum i.isLt
      fun h => hi (BitVec.eq_of_toNat_eq h)
    rw [BitVec.ofNat_toNat, BitVec.setWidth_eq] at hregs
    rw [popAll_cpu hh hdata]
    exact hregs

end

/-- 16 bit operands, and a stack of 16 or 32 bits with `ESP` = 0x10008. -/
def pushaState (stack32 : Bool) : St where
  cpu :=
    { gen := fun _ => 0x10008
      seg := fun _ => { limit := 0xffffffff }
      mode := { stack32 := stack32 } }
  mem := emuMemNew 7

/-- A stack of 16 bits. -/
theorem pushAll_popAll_iff_word :
    let h := defaultHost fun _ _ _ => 0
    let s := pushaState false
    let u := ((Op.pushAll 0x60).run h s).2.narrow
    AllRestored (s.cpu.mode.opSize true) s ((Op.pushAll 0x60).run h s).2 u
      ((Op.popAll 0x61).run h u).2 := by
  intro h s u
  have hh : h.Blind fun _ _ _ => 0 := (defaultHost_default _).blind
  have hres : Resumes ((Op.pushAll 0x60).run h s).2 u := narrow_resumes _
  exact (pushAll_popAll_iff hh hres rfl (emuMemNew_sep 7) fun _ _ => newMem_ram _ _).mpr
    (Or.inl (by decide))

/-- A stack of 32 bits: the skip stays in 16 bits. -/
theorem pushAll_popAll_fails :
    let h := defaultHost fun _ _ _ => 0
    let s := pushaState true
    let u := ((Op.pushAll 0x60).run h s).2.narrow
    s.StackRam (s.cpu.mode.opSize true) 8 ∧
      ¬AllRestored (s.cpu.mode.opSize true) s ((Op.pushAll 0x60).run h s).2 u
        ((Op.popAll 0x61).run h u).2 := by
  intro h s u
  refine ⟨fun _ _ => newMem_ram _ _, fun hall => ?_⟩
  have hh : h.Blind fun _ _ _ => 0 := (defaultHost_default _).blind
  have hres : Resumes ((Op.pushAll 0x60).run h s).2 u := narrow_resumes _
  rcases (pushAll_popAll_sp hh hres rfl).mp hall.sp with hsame | hlow
  · exact absurd hsame (by decide)
  · exact absurd hlow (by decide)

end X86Emu
