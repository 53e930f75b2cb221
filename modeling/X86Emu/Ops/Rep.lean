import X86Emu.Alu.Compare
import X86Emu.Decode.Index
import X86Emu.Decode.Rm
import X86Emu.Ops.Table

/-!
# Repeated string instructions

One step of a string instruction neither reads nor writes the counter and the prefix bits. So a
repeated instruction, which counts in between or before, leaves what its steps leave when they are
done one by one.
-/

namespace X86Emu

open Lib

/-! ## The counter and the prefix -/

/-- Other values of the counter and of the prefix bits. -/
def Cpu.counted (c : Cpu) (cx : U32) (repe repne : Bool) : Cpu :=
  { c.setGen .cx cx with mode := { c.mode with repe := repe, repne := repne } }

def St.counted (s : St) (cx : U32) (repe repne : Bool) : St := s.put (·.counted cx repe repne)

theorem counted_gen {r : Reg} (hr : r ≠ .cx) (c : Cpu) (cx : U32) (repe repne : Bool) :
    (c.counted cx repe repne).gen r = c.gen r := setGen_ne hr cx c

theorem counted_setGen {r : Reg} (hr : r ≠ .cx) (v : U32) (c : Cpu) (cx : U32) (repe repne : Bool) :
    (c.counted cx repe repne).setGen r v = (c.setGen r v).counted cx repe repne := by
  unfold Cpu.counted Cpu.setGen
  dsimp only
  rw [Function.update_comm hr.symm]

theorem counted_counted (s : St) (cx cx' : U32) (repe repe' repne repne' : Bool) :
    (s.counted cx repe repne).counted cx' repe' repne' = s.counted cx' repe' repne' := by
  unfold St.counted St.put Cpu.counted Cpu.setGen
  dsimp only
  rw [Function.update_idem]

theorem counted_self (s : St) : s.counted (s.cpu.gen .cx) s.cpu.mode.repe s.cpu.mode.repne = s := by
  unfold St.counted St.put Cpu.counted Cpu.setGen
  dsimp only
  rw [Function.update_eq_self]

/-- What the steps of a string instruction leave alone, besides the counter and the prefix. -/
structure Stays (a32 : Bool) (s t : St) : Prop where
  mode : t.cpu.mode = s.cpu.mode
  df : t.cpu.flag .df = s.cpu.flag .df
  high : a32 = false → ∀ r, r = .si ∨ r = .di →
    (t.cpu.gen r).extractLsb' 16 16 = (s.cpu.gen r).extractLsb' 16 16

namespace Stays

variable {a32 : Bool} {s t u : St}

theorem refl (s : St) : Stays a32 s s := ⟨rfl, rfl, fun _ _ _ => rfl⟩

theorem trans (h : Stays a32 s t) (h' : Stays a32 t u) : Stays a32 s u :=
  ⟨h'.mode.trans h.mode, h'.df.trans h.df,
    fun hw r hr => (h'.high hw r hr).trans (h.high hw r hr)⟩

theorem of_cpu (hcpu : t.cpu = s.cpu) : Stays a32 s t := by
  refine ⟨?_, ?_, fun _ _ _ => ?_⟩ <;> rw [hcpu]

end Stays

/-- A program that neither reads nor writes the counter and the prefix bits, and leaves alone what
the steps do. -/
structure Steady (h : Host) (a32 : Bool) {α : Type} (x : Emu α) : Prop where
  counted : ∀ s cx repe repne, seen h x (s.counted cx repe repne) =
    ((x.run h s).1, ((x.run h s).2.counted cx repe repne).view)
  stays : ∀ s, Stays a32 s (x.run h s).2

theorem view_counted {s t : St} (hview : s.view = t.view) (cx : U32) (repe repne : Bool) :
    (s.counted cx repe repne).view = (t.counted cx repe repne).view :=
  congrArg (·.counted cx repe repne) hview

namespace Steady

variable {α β : Type} {inp : PortInput} {h : Host} {a32 : Bool} {x : Emu α} {y : α → Emu β}

theorem of_seen (g : St → α × St) (hx : ∀ s, seen h x s = ((g s).1, (g s).2.view))
    (hcounted : ∀ s cx repe repne,
      g (s.counted cx repe repne) = ((g s).1, (g s).2.counted cx repe repne))
    (hstays : ∀ s, Stays a32 s (g s).2) : Steady h a32 x where
  counted s cx repe repne := by
    obtain ⟨hval, hview⟩ := Prod.mk.inj (hx s)
    rw [hx, hcounted, hval, view_counted hview]
  stays s := by
    have hview : (x.run h s).2.view = (g s).2.view := congrArg Prod.snd (hx s)
    exact (hstays s).trans (.of_cpu (congrArg (·.cpu) hview))

theorem pure (a : α) : Steady h a32 (Pure.pure a) :=
  of_seen (fun s => (a, s)) (fun _ => rfl) (fun _ _ _ _ => rfl) fun s => .refl s

theorem bind (hh : h.Blind inp) (hx : Steady h a32 x) (hy : ∀ a, Steady h a32 (y a)) :
    Steady h a32 (x >>= y) where
  counted s cx repe repne := by
    rw [seen_step hh (hx.counted s cx repe repne)]
    exact (hy _).counted _ cx repe repne
  stays s := (hx.stays s).trans ((hy _).stays _)

/-! ### The operations of the steps -/

/-- A value read from the registers. -/
theorem read (g : Cpu → α) (hx : ∀ s, seen h x s = (g s.cpu, s.view))
    (hg : ∀ c cx repe repne, g (c.counted cx repe repne) = g c) : Steady h a32 x :=
  of_seen (fun s => (g s.cpu, s)) hx (fun _ _ _ _ => Prod.ext (hg _ _ _ _) rfl) fun s => .refl s

/-- A register other than the counter, written from its own value. -/
theorem write {x : Emu Unit} {r : Reg} (hr : r ≠ .cx) (f : U32 → U32)
    (hx : ∀ s, seen h x s = ((), (s.put fun c => c.setGen r (f (c.gen r))).view))
    (hhigh : a32 = false → r = .si ∨ r = .di →
      ∀ v, (f v).extractLsb' 16 16 = v.extractLsb' 16 16) : Steady h a32 x := by
  refine of_seen (fun s => ((), s.put fun c => c.setGen r (f (c.gen r)))) hx ?_ ?_
  · intro s cx repe repne
    refine Prod.ext rfl (congrArg (fun c => { s with cpu := c }) ?_)
    show (s.cpu.counted cx repe repne).setGen r (f ((s.cpu.counted cx repe repne).gen r)) =
      (s.cpu.setGen r (f (s.cpu.gen r))).counted cx repe repne
    rw [counted_gen hr, counted_setGen hr]
  · intro s
    refine ⟨rfl, rfl, fun hw r' hr' => ?_⟩
    show ((s.cpu.setGen r (f (s.cpu.gen r))).gen r').extractLsb' 16 16 = _
    by_cases heq : r' = r
    · subst heq
      rw [setGen_self]
      exact hhigh hw hr' (s.cpu.gen r')
    · rw [setGen_ne heq]

theorem opSize (w : Bool) : Steady h a32 (opSize w) :=
  read (·.mode.opSize w) (seen_opSize w) fun _ _ _ _ => rfl

theorem getIdx {r : Reg} (hr : r ≠ .cx) : Steady h a32 (getIdx a32 r) := by
  refine read (·.idx a32 r) (seen_getIdx a32 r) fun c cx repe repne => ?_
  unfold Cpu.idx Cpu.get16
  rw [counted_gen hr]

theorem addIdx {r : Reg} (hr : r ≠ .cx) (d : U32) : Steady h a32 (addIdx a32 r d) := by
  refine write hr (idxAdd a32 d) (seen_addIdx a32 r d) ?_
  intro hw _ v
  rw [hw]
  exact idxAdd_high d v

theorem getReg (z : OpSize) : Steady h a32 (getReg z 0) := by
  refine read (·.getReg z 0) (seen_getReg z 0) fun c cx repe repne => ?_
  have hax : (c.counted cx repe repne).gen .ax = c.gen .ax := counted_gen (by decide) c _ _ _
  cases z with
  | byte => exact congrArg (fun v : U32 => v.extractLsb' 0 8) hax
  | word => exact congrArg (BitVec.setWidth 16) hax
  | long => exact hax

theorem setReg (z : OpSize) (v : BitVec z.bits) : Steady h a32 (setReg z 0 v) := by
  have hnot : ∀ {P : Prop}, Reg.ax = .si ∨ Reg.ax = .di → P := fun hr => absurd hr (by decide)
  cases z with
  | byte =>
    exact write (r := .ax) (by decide) (fun old => setLo8 old v) (fun _ => rfl) fun _ hr => hnot hr
  | word =>
    exact write (r := .ax) (by decide) (fun old => setLo16 old v) (fun _ => rfl) fun _ hr => hnot hr
  | long => exact write (r := .ax) (by decide) (fun _ => v) (fun _ => rfl) fun _ hr => hnot hr

theorem flags {z : OpSize} (d v : BitVec z.bits) : Steady h a32 (flags (cmpSize z d v)) := by
  refine of_seen (fun s =>
    (((cmpSize z d v).run () s.cpu.eflg).1, s.put (·.flagged (cmpSize z d v))))
    (seen_flags _) (fun _ _ _ _ => rfl) fun s => ⟨rfl, ?_, fun _ _ _ => rfl⟩
  show ((cmpSize z d v).run () s.cpu.eflg).2.getLsbD Flag.df.bit = s.cpu.eflg.getLsbD Flag.df.bit
  cases z with
  | byte =>
    have hclear : ((clearFlag .cf).run () s.cpu.eflg).2.getLsbD Flag.df.bit =
        s.cpu.eflg.getLsbD Flag.df.bit := getLsbD_condSet false .cf s.cpu.eflg 10
    exact (subFlags_flag 8 _ _ _ ((clearFlag .cf).run () s.cpu.eflg).2 .df).trans hclear
  | word => exact subFlags_flag 16 _ _ _ s.cpu.eflg .df
  | long => exact subFlags_flag 32 _ _ _ s.cpu.eflg .df

/-! ### Memory -/

section

variable (hh : h.Blind inp)

omit h in
theorem checked_counted (s : St) (cx : U32) (repe repne : Bool) (seg : SegReg) (ofs size : U32) :
    (s.counted cx repe repne).checked seg ofs size =
      (s.checked seg ofs size).counted cx repe repne := by
  unfold St.checked
  by_cases hlimit : ofs + size - 1 > (s.cpu.seg seg).limit
  · rw [if_pos hlimit]
    exact if_pos hlimit
  · rw [if_neg hlimit]
    exact if_neg hlimit

include hh

theorem fetchDataSizeAbs (z : OpSize) (seg : SegReg) (ofs : U32) :
    Steady h a32 (fetchDataSizeAbs z seg ofs) := by
  refine of_seen (fun s => ((s.dataVal z.width seg ofs).setWidth z.bits, s.loaded z.width seg ofs))
    (seen_fetchDataSizeAbs hh z seg ofs) ?_ fun s => .of_cpu (loaded_cpu s _ _ _)
  intro s cx repe repne
  refine Prod.ext rfl ?_
  show (s.counted cx repe repne).loaded z.width seg ofs = _
  unfold St.loaded
  rw [checked_counted]
  rfl

theorem fetchDataSize (z : OpSize) (ofs : U32) : Steady h a32 (fetchDataSize z ofs) := by
  refine of_seen (fun s => ((s.dataVal z.width s.cpu.dataSeg ofs).setWidth z.bits,
    s.loaded z.width s.cpu.dataSeg ofs))
    (seen_fetchDataSize hh z ofs) ?_ fun s => .of_cpu (loaded_cpu s _ _ _)
  intro s cx repe repne
  refine Prod.ext rfl ?_
  show (s.counted cx repe repne).loaded z.width s.cpu.dataSeg ofs = _
  unfold St.loaded
  rw [checked_counted]
  rfl

theorem storeDataSizeAbs (z : OpSize) (seg : SegReg) (ofs : U32) (v : BitVec z.bits) :
    Steady h a32 (storeDataSizeAbs z seg ofs v) := by
  refine of_seen (fun s => ((), s.stored z.width seg ofs (v.setWidth 32)))
    (seen_storeDataSizeAbs hh z seg ofs v) ?_ fun s => .of_cpu (stored_cpu s _ _ _ _)
  intro s cx repe repne
  refine Prod.ext rfl ?_
  show (s.counted cx repe repne).stored z.width seg ofs (v.setWidth 32) = _
  unfold St.stored
  rw [checked_counted]
  rfl

end

end Steady

/-! ## Steps done one by one -/

/-- The state that a program leaves. -/
def after (h : Host) (x : Emu Unit) (s : St) : St := (x.run h s).2

/-- `k` is where a loop of at most `n` steps ends that stops behind the first step that `stop`
holds for. -/
structure FirstStop (stop : Nat → Prop) (n k : Nat) : Prop where
  le : k ≤ n
  before : ∀ i, 0 < i → i < k → ¬stop i
  stops : k = n ∨ 0 < k ∧ stop k

section

variable {inp : PortInput} {h : Host} (hh : h.Blind inp) {a32 : Bool} {x body : Emu Unit} {s t : St}

theorem forLoop_after (x : Emu Unit) (n a : Nat) (s : St) :
    ((forLoop n (fun _ => x) a).run h s).2 = (after h x)^[n] s := by
  induction n generalizing a s with
  | zero => rfl
  | succ n ih => exact ih (a + 1) (after h x s)

include hh

theorem after_view (hview : s.view = t.view) : (after h x s).view = (after h x t).view := by
  have hseen : seen h x s = seen h x t := by rw [← seen_view hh, hview, seen_view hh]
  exact congrArg Prod.snd hseen

theorem iterate_view (k : Nat) (hview : s.view = t.view) :
    ((after h x)^[k] s).view = ((after h x)^[k] t).view := by
  induction k generalizing s t with
  | zero => exact hview
  | succ k ih => exact ih (after_view hh hview)

theorem iterate_counted (hb : Steady h a32 body) (k : Nat) (s : St) (cx : U32) (repe repne : Bool) :
    ((after h body)^[k] (s.counted cx repe repne)).view =
      (((after h body)^[k] s).counted cx repe repne).view := by
  induction k generalizing s with
  | zero => rfl
  | succ k ih =>
    have hstep : (after h body (s.counted cx repe repne)).view =
        ((after h body s).counted cx repe repne).view :=
          congrArg Prod.snd (hb.counted s cx repe repne)
    exact (iterate_view hh k hstep).trans (ih (after h body s))

omit hh in
theorem iterate_stays (hb : Steady h a32 body) (k : Nat) (s : St) :
    Stays a32 s ((after h body)^[k] s) := by
  induction k generalizing s with
  | zero => exact .refl s
  | succ k ih => exact (hb.stays s).trans (ih (after h body s))

end

/-- What a string instruction does in one step, which depends on the registers only through what the
steps leave alone. -/
structure Stepwise (h : Host) (body : Cpu → Emu Unit) : Prop where
  steady : ∀ c, Steady h c.mode.addr32 (body c)
  counted : ∀ c cx repe repne, body (c.counted cx repe repne) = body c
  keeps : ∀ s, body (after h (body s.cpu) s).cpu = body s.cpu

/-- Without a prefix. -/
def St.unprefixed (s : St) : St := s.counted (s.cpu.gen .cx) false false

/-- With `k` subtracted from the counter, and the prefix bits of `m`. -/
def St.lessCount (s : St) (k : Nat) (m : Mode) : St :=
  s.counted (idxAdd s.cpu.mode.addr32 (-BitVec.ofNat 32 k) (s.cpu.gen .cx)) m.repe m.repne

/-- The repeated instruction leaves what `k` unprefixed ones leave, with `k` subtracted from the
counter, and the upper halves of the registers that 16 bit addressing does not use. -/
structure Iterates (h : Host) (x : Emu Unit) (s : St) (k : Nat) : Prop where
  same : (after h x s).view = (((after h x)^[k] s.unprefixed).lessCount k s.cpu.mode).view
  counter : (after h x s).cpu.gen .cx =
    idxAdd s.cpu.mode.addr32 (-BitVec.ofNat 32 k) (s.cpu.gen .cx)
  high : s.cpu.mode.addr32 = false → ∀ r, r = .si ∨ r = .di ∨ r = .cx →
    ((after h x s).cpu.gen r).extractLsb' 16 16 = (s.cpu.gen r).extractLsb' 16 16

section

variable {inp : PortInput} {h : Host} (hh : h.Blind inp) {x : Emu Unit} {body : Cpu → Emu Unit}
  {s : St}

include hh

/-- Unprefixed instructions, step by step. -/
theorem iterate_single (hbody : Stepwise h body)
    (hx : ∀ s, s.cpu.mode.rep = false → seen h x s = seen h (body s.cpu) s) (k : Nat) (s : St)
    (hrep : s.cpu.mode.rep = false) :
    ((after h x)^[k] s).view = ((after h (body s.cpu))^[k] s).view := by
  induction k generalizing s with
  | zero => rfl
  | succ k ih =>
    have hone : (after h x s).view = (after h (body s.cpu) s).view := congrArg Prod.snd (hx s hrep)
    have hmode := ((hbody.steady s.cpu).stays s).mode
    have hrest := ih (after h (body s.cpu) s) (by rw [after, hmode, hrep])
    rw [hbody.keeps] at hrest
    exact (iterate_view hh k hone).trans hrest

/-- Unprefixed instructions, by the steps in the state with the prefix. -/
theorem iterate_unprefixed (hbody : Stepwise h body)
    (hx : ∀ s, s.cpu.mode.rep = false → seen h x s = seen h (body s.cpu) s) (k : Nat) (s : St) :
    ((after h x)^[k] s.unprefixed).view =
      (((after h (body s.cpu))^[k] s).counted (s.cpu.gen .cx) false false).view := by
  have hsame : body s.unprefixed.cpu = body s.cpu := hbody.counted _ _ _ _
  have hsingle := iterate_single hh hbody hx k s.unprefixed rfl
  rw [hsame] at hsingle
  exact hsingle.trans (iterate_counted hh (hbody.steady s.cpu) k s (s.cpu.gen .cx) false false)

/-- Unprefixed instructions, with the count and the prefix of the repeated one. -/
theorem lessCount_unprefixed (hbody : Stepwise h body)
    (hx : ∀ s, s.cpu.mode.rep = false → seen h x s = seen h (body s.cpu) s) (k : Nat) (s : St) :
    (((after h x)^[k] s.unprefixed).lessCount k s.cpu.mode).view =
      (((after h (body s.cpu))^[k] s).counted
        (idxAdd s.cpu.mode.addr32 (-BitVec.ofNat 32 k) (s.cpu.gen .cx)) s.cpu.mode.repe
        s.cpu.mode.repne).view := by
  have hiter := iterate_unprefixed hh hbody hx k s
  have hmode := (iterate_stays (hbody.steady s.cpu) k s).mode
  generalize (after h x)^[k] s.unprefixed = t at hiter
  generalize (after h (body s.cpu))^[k] s = u at hiter hmode
  have hcx : t.cpu.gen .cx = s.cpu.gen .cx :=
    (congrArg (·.cpu.gen .cx) hiter).trans (setGen_self .cx _ u.cpu)
  have haddr : t.cpu.mode.addr32 = s.cpu.mode.addr32 :=
    (congrArg (·.cpu.mode.addr32) hiter).trans (congrArg (·.addr32) hmode)
  unfold St.lessCount
  rw [hcx, haddr, view_counted hiter, counted_counted]

/-- A repeated instruction whose loop is known leaves what the unprefixed ones leave. -/
theorem iterates_of_loop (hbody : Stepwise h body)
    (hx : ∀ s, s.cpu.mode.rep = false → seen h x s = seen h (body s.cpu) s) {k : Nat}
    (hloop : (after h x s).view = (((after h (body s.cpu))^[k] s).counted
      (idxAdd s.cpu.mode.addr32 (-BitVec.ofNat 32 k) (s.cpu.gen .cx)) s.cpu.mode.repe
      s.cpu.mode.repne).view) : Iterates h x s k := by
  have hsteady := hbody.steady s.cpu
  have hcounter : (after h x s).cpu.gen .cx =
      idxAdd s.cpu.mode.addr32 (-BitVec.ofNat 32 k) (s.cpu.gen .cx) :=
    (congrArg (·.cpu.gen .cx) hloop).trans
      (setGen_self .cx _ ((after h (body s.cpu))^[k] s).cpu)
  constructor
  · exact hloop.trans (lessCount_unprefixed hh hbody hx k s).symm
  · exact hcounter
  · intro haddr r hr
    have hstays := iterate_stays hsteady k s
    have hgen := congrArg (·.cpu.gen r) hloop
    rcases hr with rfl | rfl | rfl
    · rw [show (after h x s).cpu.gen .si = _ from hgen]
      exact (congrArg _ (counted_gen (by decide) _ _ _ _)).trans (hstays.high haddr _ (Or.inl rfl))
    · rw [show (after h x s).cpu.gen .di = _ from hgen]
      exact (congrArg _ (counted_gen (by decide) _ _ _ _)).trans (hstays.high haddr _ (Or.inr rfl))
    · rw [hcounter, haddr]
      exact idxAdd_high _ _

end

/-! ## Instructions that count -/

/-- The instructions without a condition, behind their head. -/
def counting (a32 : Bool) (body : Emu Unit) : Emu Unit := do
  let count ← Op.repCount a32
  forLoop count fun _ => body

section

variable {inp : PortInput} {h : Host} (hh : h.Blind inp) {x : Emu Unit} {body : Cpu → Emu Unit}
  {s : St}

include hh

theorem seen_counting_single (a32 : Bool) (b : Emu Unit) (hrep : s.cpu.mode.rep = false) :
    seen h (counting a32 b) s = seen h b s := by
  have hcount : seen h (Op.repCount a32) s = (1, s.view) := by
    unfold Op.repCount
    rw [seen_step hh (seen_getMode s), hrep]
    rfl
  unfold counting
  rw [seen_step hh hcount]
  rfl

omit hh in
/-- The counter is read and cleared. -/
theorem seen_clearCount (a32 : Bool) (s : St) :
    seen h (setIdx a32 .cx 0) s = ((), (s.counted (idxAdd a32
      (-BitVec.ofNat 32 (s.cpu.idx a32 .cx).toNat) (s.cpu.gen .cx)) s.cpu.mode.repe
      s.cpu.mode.repne).view) := by
  rw [idxAdd_neg_idx]
  cases a32 <;> rfl

theorem seen_counting_rep (a32 : Bool) (b : Emu Unit) (hrep : s.cpu.mode.rep = true) :
    seen h (counting a32 b) s = seen h (forLoop (s.cpu.idx a32 .cx).toNat fun _ => b)
      (s.counted (idxAdd a32 (-BitVec.ofNat 32 (s.cpu.idx a32 .cx).toNat) (s.cpu.gen .cx))
        s.cpu.mode.repe s.cpu.mode.repne) := by
  have hcount : seen h (Op.repCount a32) s = ((s.cpu.idx a32 .cx).toNat, (s.counted (idxAdd a32
      (-BitVec.ofNat 32 (s.cpu.idx a32 .cx).toNat) (s.cpu.gen .cx)) s.cpu.mode.repe
      s.cpu.mode.repne).view) := by
    unfold Op.repCount
    rw [seen_step hh (seen_getMode s), hrep, seen_ite, if_pos rfl,
      seen_step hh (seen_getIdx a32 .cx s),
      seen_step hh (seen_clearCount a32 s)]
    rfl
  exact seen_step hh hcount

theorem counting_iterates (hbody : Stepwise h body)
    (hx : ∀ s, seen h x s = seen h (counting s.cpu.mode.addr32 (body s.cpu)) s)
    (hrep : s.cpu.mode.rep = true) :
    Iterates h x s (s.cpu.idx s.cpu.mode.addr32 .cx).toNat := by
  refine iterates_of_loop hh hbody (fun s hs => (hx s).trans (seen_counting_single hh _ _ hs)) ?_
  have hloop := congrArg Prod.snd ((hx s).trans (seen_counting_rep hh _ _ hrep))
  refine Eq.trans hloop ?_
  show ((forLoop _ _).run h _).2.view = _
  rw [forLoop_after]
  exact iterate_counted hh (hbody.steady s.cpu) _ s _ _ _

end

/-! ## Instructions that compare -/

section

variable {inp : PortInput} {h : Host} (hh : h.Blind inp) {x : Emu Unit}
  {compare advance : Cpu → Emu Unit} {s : St}

include hh

theorem seen_repCompare_single (a32 : Bool) (cmp adv : Emu Unit) (hrep : s.cpu.mode.rep = false) :
    seen h (Op.repCompare a32 cmp adv) s = seen h (do cmp; adv) s := by
  unfold Op.repCompare
  rw [seen_step hh (seen_getMode s), hrep, seen_ite]
  rfl

theorem seen_repCompare_rep (a32 : Bool) (cmp adv : Emu Unit) (hrep : s.cpu.mode.rep = true) :
    seen h (Op.repCompare a32 cmp adv) s = seen h (Op.repWhile a32 (Op.repCond s.cpu.mode) cmp adv
      (s.cpu.idx a32 .cx).toNat) s := by
  unfold Op.repCompare
  rw [seen_step hh (seen_getMode s), hrep, seen_ite, if_pos rfl,
    seen_step hh (seen_getIdx a32 .cx s)]

omit hh in
theorem counted_addIdx (a32 : Bool) (d : U32) (s : St) (cx : U32) (repe repne : Bool) :
    seen h (addIdx a32 .cx d) (s.counted cx repe repne) =
      ((), (s.counted (idxAdd a32 d cx) repe repne).view) := by
  refine (seen_addIdx a32 .cx d _).trans (congrArg (fun t => ((), St.view t)) ?_)
  unfold St.counted St.put Cpu.counted Cpu.setGen
  dsimp only
  rw [Function.update_self, Function.update_idem]

omit hh in
/-- The counter after one step. -/
theorem idx_pred {a32 : Bool} {cx : U32} {n : Nat} (c c' : Cpu)
    (hn : ((c.setGen .cx cx).idx a32 .cx).toNat = n + 1) :
    ((c'.setGen .cx (idxAdd a32 (-1) cx)).idx a32 .cx).toNat = n := by
  cases a32 with
  | true =>
    have hcx : cx.toNat = n + 1 := (congrArg BitVec.toNat (setGen_self .cx cx c)).symm.trans hn
    refine (congrArg BitVec.toNat (setGen_self .cx (cx + -1) c')).trans ?_
    have hlt := cx.isLt
    rw [BitVec.toNat_add, hcx]
    show (n + 1 + 4294967295) % 4294967296 = n
    omega
  | false =>
    have hlow : ∀ v : U32, ((v.setWidth 16).setWidth 32 : U32).toNat = v.toNat % 65536 := by
      intro v
      rw [BitVec.toNat_setWidth, BitVec.toNat_setWidth]
      omega
    have hcx : cx.toNat % 65536 = n + 1 := by
      rw [← hlow, ← hn]
      unfold Cpu.idx Cpu.get16
      rw [setGen_self]
      rfl
    have hnext : (idxAdd false (-1) cx).toNat % 65536 = n := by
      have hsum := congrArg BitVec.toNat (idxAdd_low false (-1) cx)
      rw [BitVec.toNat_setWidth, BitVec.toNat_add, BitVec.toNat_setWidth, hcx] at hsum
      rw [hsum]
      show (n + 1 + 65535) % 65536 = n
      omega
    unfold Cpu.idx Cpu.get16
    rw [setGen_self, if_neg (by decide), hlow, hnext]

/-- The loop of a comparison, started with `n` in the counter. -/
theorem repWhile_after {a32 : Bool} {cmp adv : Emu Unit} (hcmp : Steady h a32 cmp)
    (hadv : Steady h a32 adv) (cond : BitVec 4) (repe repne : Bool) (n : Nat) (u : St) (cx : U32)
    (hn : ((u.cpu.setGen .cx cx).idx a32 .cx).toNat = n) :
    ∃ k, FirstStop (fun i => evalCondition ((after h (do cmp; adv))^[i] u).cpu cond = true) n k ∧
      (after h (Op.repWhile a32 cond cmp adv n) (u.counted cx repe repne)).view =
        (((after h (do cmp; adv))^[k] u).counted (idxAdd a32 (-BitVec.ofNat 32 k) cx) repe
          repne).view := by
  induction n generalizing u cx with
  | zero =>
    refine ⟨0, ⟨Nat.le_refl 0, fun i hi hlt => absurd hlt (Nat.not_lt_zero i), Or.inl rfl⟩, ?_⟩
    have hzero : idxAdd a32 (-BitVec.ofNat 32 0) cx = cx := idxAdd_zero a32 cx
    rw [hzero]
    rfl
  | succ n ih =>
    let w := after h (do cmp; adv) u
    have hidx : ¬((u.counted cx repe repne).cpu.idx a32 .cx = 0) := by
      intro hzero
      have hnat : ((u.cpu.setGen .cx cx).idx a32 .cx).toNat = 0 := congrArg BitVec.toNat hzero
      omega
    have hbody : seen h (Op.repWhile a32 cond cmp adv (n + 1)) (u.counted cx repe repne) =
        seen h (if evalCondition w.cpu cond then pure () else Op.repWhile a32 cond cmp adv n)
          (w.counted (idxAdd a32 (-1) cx) repe repne) := by
      rw [Op.repWhile, seen_step hh (seen_getIdx a32 .cx _), seen_ite, if_neg hidx,
        seen_step hh (hcmp.counted u cx repe repne), seen_step hh (counted_addIdx a32 _ _ _ _ _),
        seen_step hh (hadv.counted _ _ _ _), seen_step hh (seen_getCpu _)]
      rfl
    by_cases hstop : evalCondition w.cpu cond = true
    · refine ⟨1, ⟨by omega, fun i hi hlt => by omega, Or.inr ⟨Nat.one_pos, hstop⟩⟩, ?_⟩
      rw [if_pos hstop] at hbody
      exact congrArg Prod.snd hbody
    · obtain ⟨k, hk, hrest⟩ := ih w (idxAdd a32 (-1) cx) (idx_pred u.cpu w.cpu hn)
      rw [if_neg hstop] at hbody
      refine ⟨k + 1, ⟨Nat.succ_le_succ hk.le, ?_, ?_⟩, ?_⟩
      · intro i hi hlt
        cases i with
        | zero => exact absurd hi (Nat.lt_irrefl 0)
        | succ i =>
          cases i with
          | zero => exact hstop
          | succ i => exact hk.before (i + 1) (Nat.succ_pos i) (by omega)
      · rcases hk.stops with hall | ⟨hpos, hat⟩
        · exact Or.inl (congrArg Nat.succ hall)
        · exact Or.inr ⟨Nat.succ_pos k, hat⟩
      · have hsum : idxAdd a32 (-BitVec.ofNat 32 (k + 1)) cx =
            idxAdd a32 (-BitVec.ofNat 32 k) (idxAdd a32 (-1) cx) := by
          rw [idxAdd_idxAdd, ← BitVec.ofNat_add_ofNat]
          congr 1
          generalize BitVec.ofNat 32 k = v
          bv_omega
        rw [hsum]
        exact (congrArg Prod.snd hbody).trans hrest

/-- The condition that ends a repeated comparison: `ZF` is clear under REPE, and set under REPNE. -/
def RepExits (m : Mode) (t : St) : Prop := t.cpu.flag .zf = !m.repe

omit hh in
theorem evalCondition_repCond (m : Mode) (t : St) :
    evalCondition t.cpu (Op.repCond m) = true ↔ RepExits m t := by
  unfold RepExits Op.repCond
  cases m.repe with
  | true =>
    show (!t.cpu.flag .zf) = true ↔ t.cpu.flag .zf = false
    rw [Bool.not_eq_true']
  | false => exact Iff.rfl

theorem comparing_iterates (hbody : Stepwise h fun c => do compare c; advance c)
    (hcmp : ∀ c, Steady h c.mode.addr32 (compare c))
    (hadv : ∀ c, Steady h c.mode.addr32 (advance c))
    (hx : ∀ s, seen h x s =
      seen h (Op.repCompare s.cpu.mode.addr32 (compare s.cpu) (advance s.cpu)) s)
    (hrep : s.cpu.mode.rep = true) :
    ∃ k, FirstStop (fun i => RepExits s.cpu.mode ((after h x)^[i] s.unprefixed))
      (s.cpu.idx s.cpu.mode.addr32 .cx).toNat k ∧ Iterates h x s k := by
  have hsingle : ∀ s : St, s.cpu.mode.rep = false →
      seen h x s = seen h (do compare s.cpu; advance s.cpu) s :=
    fun s hs => (hx s).trans (seen_repCompare_single hh _ _ _ hs)
  have hn : ((s.cpu.setGen .cx (s.cpu.gen .cx)).idx s.cpu.mode.addr32 .cx).toNat =
      (s.cpu.idx s.cpu.mode.addr32 .cx).toNat := by
    unfold Cpu.setGen
    rw [Function.update_eq_self]
  obtain ⟨k, hk, hloop⟩ := repWhile_after hh (hcmp s.cpu) (hadv s.cpu) (Op.repCond s.cpu.mode)
    s.cpu.mode.repe s.cpu.mode.repne _ s (s.cpu.gen .cx) hn
  rw [counted_self] at hloop
  have hrun : (after h x s).view = _ :=
    congrArg Prod.snd ((hx s).trans (seen_repCompare_rep hh _ _ _ hrep))
  have hexits : ∀ i, evalCondition ((after h (do compare s.cpu; advance s.cpu))^[i] s).cpu
      (Op.repCond s.cpu.mode) = true ↔ RepExits s.cpu.mode ((after h x)^[i] s.unprefixed) := by
    intro i
    have hflags : ((after h x)^[i] s.unprefixed).cpu.eflg =
        ((after h (do compare s.cpu; advance s.cpu))^[i] s).cpu.eflg :=
      congrArg (·.cpu.eflg) (iterate_unprefixed hh hbody hsingle i s)
    rw [evalCondition_repCond]
    unfold RepExits Cpu.flag
    rw [hflags]
  refine ⟨k, ⟨hk.le, ?_, ?_⟩, iterates_of_loop hh hbody hsingle (hrun.trans hloop)⟩
  · exact fun i hi hlt => mt (hexits i).mpr (hk.before i hi hlt)
  · exact hk.stops.imp id fun ⟨hpos, hat⟩ => ⟨hpos, (hexits k).mp hat⟩

end

/-! ## The handlers -/

/-- The step of the index registers. -/
def Cpu.stringInc (c : Cpu) (w : Bool) : U32 :=
  if c.flag .df then -(c.mode.opSize w).width.size else (c.mode.opSize w).width.size

theorem Stays.stringInc {a32 : Bool} {s t : St} (hst : Stays a32 s t) (w : Bool) :
    t.cpu.stringInc w = s.cpu.stringInc w := by
  unfold Cpu.stringInc
  rw [hst.mode, hst.df]

section

variable {inp : PortInput} {h : Host} (hh : h.Blind inp)

include hh

theorem seen_decodeA32 (s : St) : seen h Op.decodeA32 s = ((), s.view) := by
  unfold Op.decodeA32
  rw [seen_step hh (seen_getMode s), seen_ite]
  split <;> rfl

theorem seen_stringHead (w : Bool) (text8 text16 text32 : String) (s : St) :
    seen h (Op.stringHead w text8 text16 text32) s = (s.cpu.stringInc w, s.view) := by
  unfold Op.stringHead Cpu.stringInc
  rw [seen_step hh (seen_decodeA32 hh s), seen_step hh (seen_opSize w s)]
  cases s.cpu.mode.opSize w with
  | byte => rfl
  | word => rfl
  | long => rfl

/-! ### Moves, stores and loads -/

theorem movsStep_steady (w a32 : Bool) (inc : U32) : Steady h a32 (Op.movsStep w a32 inc) :=
  (Steady.opSize w).bind hh fun z => (Steady.getIdx (by decide)).bind hh fun _ =>
    (Steady.fetchDataSize hh z _).bind hh fun _ => (Steady.getIdx (by decide)).bind hh fun _ =>
    (Steady.storeDataSizeAbs hh z .es _ _).bind hh fun _ =>
    (Steady.addIdx (by decide) inc).bind hh fun _ => Steady.addIdx (by decide) inc

theorem movs_stepwise (w : Bool) :
    Stepwise h fun c => Op.movsStep w c.mode.addr32 (c.stringInc w) where
  steady c := movsStep_steady hh w _ _
  counted _ _ _ _ := rfl
  keeps s := by
    have hst := (movsStep_steady hh w s.cpu.mode.addr32 (s.cpu.stringInc w)).stays s
    rw [after, hst.mode, hst.stringInc]

theorem movs_iterates (w : Bool) {s : St} (hrep : s.cpu.mode.rep = true) :
    Iterates h (Op.movs w) s (s.cpu.idx s.cpu.mode.addr32 .cx).toNat := by
  refine counting_iterates hh (movs_stepwise hh w) (fun s => ?_) hrep
  unfold Op.movs
  rw [seen_step hh (seen_stringHead hh w _ _ _ s), seen_step hh (seen_getMode s)]
  rfl

theorem stosStep_steady (w a32 : Bool) (val inc : U32) : Steady h a32 (Op.stosStep w a32 val inc) :=
  (Steady.opSize w).bind hh fun z => (Steady.getIdx (by decide)).bind hh fun _ =>
    (Steady.storeDataSizeAbs hh z .es _ _).bind hh fun _ => Steady.addIdx (by decide) inc

/-- `stos` keeps the value that it stores. -/
theorem stosStep_ax (w a32 : Bool) (val inc : U32) (s : St) :
    (after h (Op.stosStep w a32 val inc) s).cpu.gen .ax = s.cpu.gen .ax := by
  have hseen : ∃ t : St, t.cpu = s.cpu ∧
      seen h (Op.stosStep w a32 val inc) s = seen h (addIdx a32 .di inc) t := by
    unfold Op.stosStep
    rw [seen_step hh (seen_opSize w s), seen_step hh (seen_getIdx a32 .di s),
      seen_step hh (seen_storeDataSizeAbs hh _ _ _ _ s)]
    exact ⟨_, stored_cpu s _ _ _ _, rfl⟩
  obtain ⟨t, hcpu, hrun⟩ := hseen
  have hview := congrArg Prod.snd (hrun.trans (seen_addIdx a32 .di inc t))
  have hax : (after h (Op.stosStep w a32 val inc) s).cpu.gen .ax = t.cpu.gen .ax :=
    (congrArg (·.cpu.gen .ax) hview).trans (setGen_ne (by decide) _ t.cpu)
  rw [hax, hcpu]

theorem stos_stepwise (w : Bool) :
    Stepwise h fun c => Op.stosStep w c.mode.addr32 (c.gen .ax) (c.stringInc w) where
  steady c := stosStep_steady hh w _ _ _
  counted c cx repe repne := by
    rw [counted_gen (by decide)]
    rfl
  keeps s := by
    have hst := (stosStep_steady hh w s.cpu.mode.addr32 (s.cpu.gen .ax) (s.cpu.stringInc w)).stays s
    rw [stosStep_ax hh, after, hst.mode, hst.stringInc]

theorem stos_iterates (w : Bool) {s : St} (hrep : s.cpu.mode.rep = true) :
    Iterates h (Op.stos w) s (s.cpu.idx s.cpu.mode.addr32 .cx).toNat := by
  refine counting_iterates hh (stos_stepwise hh w) (fun s => ?_) hrep
  unfold Op.stos
  rw [seen_step hh (seen_stringHead hh w _ _ _ s), seen_step hh (seen_getGen .ax s),
    seen_step hh (seen_getMode s)]
  rfl

theorem lodsStep_steady (w a32 : Bool) (inc : U32) : Steady h a32 (Op.lodsStep w a32 inc) :=
  (Steady.opSize w).bind hh fun z => (Steady.getIdx (by decide)).bind hh fun _ =>
    (Steady.fetchDataSize hh z _).bind hh fun v => (Steady.setReg z v).bind hh fun _ =>
    Steady.addIdx (by decide) inc

theorem lods_stepwise (w : Bool) :
    Stepwise h fun c => Op.lodsStep w c.mode.addr32 (c.stringInc w) where
  steady c := lodsStep_steady hh w _ _
  counted _ _ _ _ := rfl
  keeps s := by
    have hst := (lodsStep_steady hh w s.cpu.mode.addr32 (s.cpu.stringInc w)).stays s
    rw [after, hst.mode, hst.stringInc]

theorem lods_iterates (w : Bool) {s : St} (hrep : s.cpu.mode.rep = true) :
    Iterates h (Op.lods w) s (s.cpu.idx s.cpu.mode.addr32 .cx).toNat := by
  refine counting_iterates hh (lods_stepwise hh w) (fun s => ?_) hrep
  unfold Op.lods
  rw [seen_step hh (seen_stringHead hh w _ _ _ s), seen_step hh (seen_getMode s)]
  rfl

/-! ### Comparisons -/

theorem cmpsCompare_steady (w a32 : Bool) : Steady h a32 (Op.cmpsCompare w a32) :=
  (Steady.opSize w).bind hh fun z => (Steady.getIdx (by decide)).bind hh fun _ =>
    (Steady.fetchDataSize hh z _).bind hh fun _ => (Steady.getIdx (by decide)).bind hh fun _ =>
    (Steady.fetchDataSizeAbs hh z .es _).bind hh fun _ => (Steady.flags _ _).bind hh fun _ =>
      .pure ()

theorem cmpsAdvance_steady (a32 : Bool) (inc : U32) :
    Steady h a32 (do addIdx a32 .si inc; addIdx a32 .di inc) :=
  (Steady.addIdx (by decide) inc).bind hh fun _ => Steady.addIdx (by decide) inc

theorem cmps_stepwise (w : Bool) : Stepwise h fun c => do
      Op.cmpsCompare w c.mode.addr32
      (do addIdx c.mode.addr32 .si (c.stringInc w); addIdx c.mode.addr32 .di (c.stringInc w)) where
  steady c := (cmpsCompare_steady hh w _).bind hh fun _ => cmpsAdvance_steady hh _ _
  counted _ _ _ _ := rfl
  keeps s := by
    have hst := ((cmpsCompare_steady hh w s.cpu.mode.addr32).bind hh fun _ =>
      cmpsAdvance_steady hh s.cpu.mode.addr32 (s.cpu.stringInc w)).stays s
    rw [after, hst.mode, hst.stringInc]

theorem scasCompare_steady (w a32 : Bool) : Steady h a32 (Op.scasCompare w a32) :=
  (Steady.opSize w).bind hh fun z => (Steady.getIdx (by decide)).bind hh fun _ =>
    (Steady.fetchDataSizeAbs hh z .es _).bind hh fun _ => (Steady.getReg z).bind hh fun _ =>
    (Steady.flags _ _).bind hh fun _ => .pure ()

theorem scas_stepwise (w : Bool) : Stepwise h fun c => do
      Op.scasCompare w c.mode.addr32
      addIdx c.mode.addr32 .di (c.stringInc w) where
  steady c := (scasCompare_steady hh w _).bind hh fun _ => Steady.addIdx (by decide) _
  counted _ _ _ _ := rfl
  keeps s := by
    have hst := ((scasCompare_steady hh w s.cpu.mode.addr32).bind hh fun _ =>
      Steady.addIdx (r := .di) (by decide) (s.cpu.stringInc w)).stays s
    rw [after, hst.mode, hst.stringInc]

theorem cmps_iterates (w : Bool) {s : St} (hrep : s.cpu.mode.rep = true) :
    ∃ k, FirstStop (fun i => RepExits s.cpu.mode ((after h (Op.cmps w))^[i] s.unprefixed))
      (s.cpu.idx s.cpu.mode.addr32 .cx).toNat k ∧ Iterates h (Op.cmps w) s k := by
  refine comparing_iterates hh (cmps_stepwise hh w) (fun c => cmpsCompare_steady hh w _)
    (fun c => cmpsAdvance_steady hh _ _) (fun s => ?_) hrep
  unfold Op.cmps
  rw [seen_step hh (seen_stringHead hh w _ _ _ s), seen_step hh (seen_getMode s)]

theorem scas_iterates (w : Bool) {s : St} (hrep : s.cpu.mode.rep = true) :
    ∃ k, FirstStop (fun i => RepExits s.cpu.mode ((after h (Op.scas w))^[i] s.unprefixed))
      (s.cpu.idx s.cpu.mode.addr32 .cx).toNat k ∧ Iterates h (Op.scas w) s k := by
  refine comparing_iterates hh (scas_stepwise hh w) (fun c => scasCompare_steady hh w _)
    (fun c => Steady.addIdx (by decide) _) (fun s => ?_) hrep
  unfold Op.scas
  rw [seen_step hh (seen_stringHead hh w _ _ _ s), seen_step hh (seen_getMode s)]

/-! ### All of them -/

/-- The opcodes of `movs`, `stos` and `lods`. -/
def countingOps : List U8 := [0xa4, 0xa5, 0xaa, 0xab, 0xac, 0xad]

/-- The opcodes of `cmps` and `scas`. -/
def comparingOps : List U8 := [0xa6, 0xa7, 0xae, 0xaf]

omit hh in
/-- After as many steps as the counter says, nothing is left in it. -/
theorem Iterates.empty {x : Emu Unit} {s : St}
    (hx : Iterates h x s (s.cpu.idx s.cpu.mode.addr32 .cx).toNat) :
    (after h x s).cpu.idx s.cpu.mode.addr32 .cx = 0 := by
  have hcx := hx.counter.trans (idxAdd_neg_idx s.cpu s.cpu.mode.addr32 .cx)
  unfold Cpu.idx Cpu.get16
  rw [hcx]
  cases s.cpu.mode.addr32 with
  | true => rfl
  | false => exact congrArg (BitVec.setWidth 32) (setWidth_setLo16 (s.cpu.gen .cx) 0)

omit hh in
theorem Iterates.exits {x : Emu Unit} {s : St} {k : Nat} (hx : Iterates h x s k)
    (hstop : RepExits s.cpu.mode ((after h x)^[k] s.unprefixed)) :
    RepExits s.cpu.mode (after h x s) := by
  have hflags : (after h x s).cpu.eflg = ((after h x)^[k] s.unprefixed).cpu.eflg :=
    congrArg (·.cpu.eflg) hx.same
  unfold RepExits Cpu.flag
  rw [hflags]
  exact hstop

omit hh in
/-- The loop of a repeated comparison ends by itself. -/
theorem Iterates.ends {x : Emu Unit} {s : St} {k : Nat} (hx : Iterates h x s k)
    (hk : FirstStop (fun i => RepExits s.cpu.mode ((after h x)^[i] s.unprefixed))
      (s.cpu.idx s.cpu.mode.addr32 .cx).toNat k) :
    (after h x s).cpu.idx s.cpu.mode.addr32 .cx = 0 ∨ RepExits s.cpu.mode (after h x s) := by
  rcases hk.stops with rfl | ⟨-, hstop⟩
  · exact Or.inl hx.empty
  · exact Or.inr (hx.exits hstop)

/-- A repeated string instruction is the iteration of the unprefixed one, and its loop ends by
itself: nothing is left in the counter, or the condition holds. -/
theorem rep_iterates {s : St} (hrep : s.cpu.mode.rep = true) :
    let n := (s.cpu.idx s.cpu.mode.addr32 .cx).toNat
    (∀ op ∈ countingOps, Iterates h (oneByte op) s n ∧
      (after h (oneByte op) s).cpu.idx s.cpu.mode.addr32 .cx = 0) ∧
    (∀ op ∈ comparingOps, ∃ k,
      FirstStop (fun i => RepExits s.cpu.mode ((after h (oneByte op))^[i] s.unprefixed)) n k ∧
      Iterates h (oneByte op) s k ∧
      ((after h (oneByte op) s).cpu.idx s.cpu.mode.addr32 .cx = 0 ∨
        RepExits s.cpu.mode (after h (oneByte op) s))) := by
  intro n
  constructor
  · intro op hop
    have hiter : Iterates h (oneByte op) s n := by
      simp only [countingOps, List.mem_cons, List.not_mem_nil, or_false] at hop
      rcases hop with rfl | rfl | rfl | rfl | rfl | rfl
      · exact oneByte_eq (f := Op.movsByte) 0xa4 rfl ▸ movs_iterates hh false hrep
      · exact oneByte_eq (f := Op.movsWord) 0xa5 rfl ▸ movs_iterates hh true hrep
      · exact oneByte_eq (f := Op.stosByte) 0xaa rfl ▸ stos_iterates hh false hrep
      · exact oneByte_eq (f := Op.stosWord) 0xab rfl ▸ stos_iterates hh true hrep
      · exact oneByte_eq (f := Op.lodsByte) 0xac rfl ▸ lods_iterates hh false hrep
      · exact oneByte_eq (f := Op.lodsWord) 0xad rfl ▸ lods_iterates hh true hrep
    exact ⟨hiter, hiter.empty⟩
  · intro op hop
    have hiter : ∃ k,
        FirstStop (fun i => RepExits s.cpu.mode ((after h (oneByte op))^[i] s.unprefixed)) n k ∧
        Iterates h (oneByte op) s k := by
      simp only [comparingOps, List.mem_cons, List.not_mem_nil, or_false] at hop
      rcases hop with rfl | rfl | rfl | rfl
      · exact oneByte_eq (f := Op.cmpsByte) 0xa6 rfl ▸ cmps_iterates hh false hrep
      · exact oneByte_eq (f := Op.cmpsWord) 0xa7 rfl ▸ cmps_iterates hh true hrep
      · exact oneByte_eq (f := Op.scasByte) 0xae rfl ▸ scas_iterates hh false hrep
      · exact oneByte_eq (f := Op.scasWord) 0xaf rfl ▸ scas_iterates hh true hrep
    obtain ⟨k, hk, hx⟩ := hiter
    exact ⟨k, hk, hx, hx.ends hk⟩

end

/-- `rep stosb` with 3 in `CX`. -/
theorem rep_iterates_stosb :
    let s : St := { cpu := { resetCpu.setGen .cx 3 with mode := { repe := true } } }
    Iterates (defaultHost fun _ _ _ => 0) (oneByte 0xaa) s 3 :=
  ((rep_iterates (defaultHost_default _).blind rfl).1 0xaa (by decide)).1

end X86Emu
