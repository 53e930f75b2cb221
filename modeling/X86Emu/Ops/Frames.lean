import X86Emu.Ops.Slots

/-!
# `enter` and `leave`

The stack frame that `enter` builds and `leave` drops. `enter` saves the frame register in the width
of the stack, copies the outer frame pointers in the width of the operands, and `leave` pops the
frame register in the width of the operands. So the two belong together when the widths are the
same.
-/

namespace X86Emu

open Lib

/-! ## Registers in one width -/

/-- All of a number or its low half. -/
def inWidth (wide : Bool) (v : U32) : U32 := if wide then v else (v.setWidth 16).setWidth 32

/-- The value of a register replaced, or its low half. -/
def Cpu.setIdx (c : Cpu) (wide : Bool) (r : Reg) (v : U32) : Cpu :=
  if wide then c.setGen r v else c.set16 r (v.setWidth 16)

theorem seen_setIdx {h : Host} (wide : Bool) (r : Reg) (v : U32) (s : St) :
    seen h (setIdx wide r v) s = ((), (s.put (·.setIdx wide r v)).view) := by
  cases wide <;> rfl

theorem idx_eq (c : Cpu) (wide : Bool) (r : Reg) : c.idx wide r = inWidth wide (c.gen r) := (rfl)

theorem inWidth_eq_iff {k : Bool} {v w : U32} :
    inWidth k v = inWidth k w ↔ if k then v = w else v.setWidth 16 = w.setWidth 16 := by
  cases k with
  | true => exact Iff.rfl
  | false =>
    refine ⟨fun heq => ?_, fun heq => congrArg (BitVec.setWidth 32) heq⟩
    have hlow := congrArg (BitVec.setWidth 16) heq
    unfold inWidth at hlow
    simpa using hlow

theorem inWidth_inWidth (k : Bool) (v : U32) : inWidth k (inWidth k v) = inWidth k v := by
  rw [inWidth_eq_iff]
  cases k with
  | true => rfl
  | false =>
    show ((v.setWidth 16).setWidth 32).setWidth 16 = v.setWidth 16
    rw [BitVec.setWidth_setWidth_of_le _ (by decide), BitVec.setWidth_eq]

theorem inWidth_idxAdd (k : Bool) (d v : U32) : inWidth k (idxAdd k d v) = inWidth k (v + d) := by
  rw [inWidth_eq_iff]
  cases k with
  | true => rfl
  | false =>
    show (idxAdd false d v).setWidth 16 = (v + d).setWidth 16
    rw [idxAdd_low, BitVec.setWidth_add _ _ (by decide)]

/-- Sums in one width. -/
theorem inWidth_add {k : Bool} {v w : U32} (heq : inWidth k v = inWidth k w) (d : U32) :
    inWidth k (v + d) = inWidth k (w + d) := by
  rw [inWidth_eq_iff] at heq ⊢
  cases k with
  | true => exact congrArg (· + d) heq
  | false =>
    show (v + d).setWidth 16 = (w + d).setWidth 16
    rw [BitVec.setWidth_add _ _ (by decide), BitVec.setWidth_add _ _ (by decide)]
    exact congrArg (· + d.setWidth 16) heq

theorem inWidth_add_self {k : Bool} {v d : U32} :
    inWidth k (v + d) = inWidth k v ↔ inWidth k d = 0 := by
  have hzero : (0 : U32) = inWidth k 0 := by cases k <;> rfl
  rw [hzero, inWidth_eq_iff, inWidth_eq_iff]
  cases k with
  | true => exact BitVec.add_right_eq_self
  | false =>
    show (v + d).setWidth 16 = v.setWidth 16 ↔ d.setWidth 16 = 0
    rw [BitVec.setWidth_add _ _ (by decide)]
    exact BitVec.add_right_eq_self

theorem setIdx_idx (c : Cpu) (k : Bool) (r : Reg) (v : U32) :
    (c.setIdx k r v).idx k r = inWidth k v := by
  cases k with
  | true => exact setGen_self r v c
  | false =>
    show (((c.set16 r _).gen r).setWidth 16).setWidth 32 = (v.setWidth 16).setWidth 32
    unfold Cpu.set16
    rw [setGen_self, setWidth_setLo16]

theorem setIdx_rest (c : Cpu) (k : Bool) (r : Reg) (v : U32) :
    (c.setIdx k r v).seg = c.seg ∧ (c.setIdx k r v).mode = c.mode := by
  unfold Cpu.setIdx
  split <;> exact ⟨rfl, rfl⟩

/-! ## Below the frame pointer -/

/-- The linear address `m` bytes below the frame pointer, in the width of the stack. -/
def Cpu.belowBp (c : Cpu) (m : Nat) : U32 :=
  c.linear .ss (inWidth c.mode.stack32 (c.gen .bp + -BitVec.ofNat 32 m))

theorem below_eq (c : Cpu) (m : Nat) :
    c.below m = c.linear .ss (inWidth c.mode.stack32 (c.gen .sp + -BitVec.ofNat 32 m)) := by
  have hofs : (c.moveSp (-BitVec.ofNat 32 m)).spOfs =
      inWidth c.mode.stack32 ((c.moveSp (-BitVec.ofNat 32 m)).gen .sp) := by
    rw [← moveSp_mode c]
    rfl
  unfold Cpu.below Cpu.linear
  rw [hofs, moveSp_sp, inWidth_idxAdd]

/-- The saved frame pointers of the enclosing procedures, as copies that are pushed one after the
other find them below the frame pointer. -/
def St.display (s : St) (z : OpSize) : Nat → List (BitVec z.bits)
  | 0 => []
  | n + 1 => s.display z n ++
      [(s.pushes z (s.display z n)).mem.num z (s.cpu.belowBp ((n + 1) * z.bytes))]

/-- What is pushed at a nesting level after the frame register. -/
def St.framed (s : St) (z : OpSize) (level : Nat) : List (BitVec z.bits) :=
  if level = 0 then [] else s.display z (level - 1) ++ [s.cpu.spOfs.setWidth z.bits]

/-- All that is pushed: the frame register, the frame pointers of the enclosing procedures, and the
new frame pointer. -/
def St.enterImage (s : St) (z : OpSize) (level : Nat) : List (BitVec z.bits) :=
  s.cpu.getReg z 5 :: (s.pushes z [s.cpu.getReg z 5]).framed z level

theorem display_length (s : St) (z : OpSize) (n : Nat) : (s.display z n).length = n := by
  induction n with
  | zero => rfl
  | succ n ih => rw [St.display, List.length_append, ih, List.length_singleton]

theorem display_getElem (s : St) (z : OpSize) {n i : Nat} (hi : i < n)
    (hlt : i < (s.display z n).length) : (s.display z n)[i] =
      (s.pushes z (s.display z i)).mem.num z (s.cpu.belowBp ((i + 1) * z.bytes)) := by
  induction n with
  | zero => exact absurd hi (Nat.not_lt_zero i)
  | succ n ih =>
    have hlen := display_length s z n
    by_cases hin : i < n
    · exact (List.getElem_append_left (hlen.symm ▸ hin)).trans (ih hin (hlen.symm ▸ hin))
    · obtain rfl : i = n := by omega
      refine (List.getElem_append_right (Nat.le_of_eq hlen)).trans ?_
      simp only [hlen, Nat.sub_self, List.getElem_cons_zero]

theorem framed_length (s : St) (z : OpSize) (level : Nat) : (s.framed z level).length = level := by
  unfold St.framed
  split
  · next hzero => rw [hzero]; rfl
  · rw [List.length_append, display_length, List.length_singleton]
    omega

theorem enterImage_length (s : St) (z : OpSize) (level : Nat) :
    (s.enterImage z level).length = level + 1 := by
  rw [St.enterImage, List.length_cons, framed_length]

/-- The copies stand before the new frame pointer. -/
theorem framed_getElem (s : St) (z : OpSize) {level i : Nat} (hi : i + 1 < level)
    (hlt : i < (s.framed z level).length) : (s.framed z level)[i] =
      (s.pushes z (s.display z i)).mem.num z (s.cpu.belowBp ((i + 1) * z.bytes)) := by
  have hlen := display_length s z (level - 1)
  have hne : level ≠ 0 := by omega
  simp only [St.framed, if_neg hne]
  rw [List.getElem_append_left (by omega)]
  exact display_getElem s z (by omega) _

theorem pushes_append (s : St) (z : OpSize) (vs ws : List (BitVec z.bits)) :
    s.pushes z (vs ++ ws) = (s.pushes z vs).pushes z ws := List.foldl_append

/-! ## The copies -/

/-- One copy: the frame pointer is moved down, and the number there is pushed. -/
def St.copied (s : St) (z : OpSize) : St :=
  let t := s.put fun c =>
    c.setGen .bp (idxAdd c.mode.stack32 (-BitVec.ofNat 32 z.bytes) (c.gen .bp))
  let ofs := t.cpu.idx t.cpu.mode.stack32 .bp
  (t.loaded z.width .ss ofs).pushed z.width
    (((t.dataVal z.width .ss ofs).setWidth z.bits).setWidth 32)

/-- `n` copies are done. -/
structure Copied (s : St) (z : OpSize) (n : Nat) (t : St) : Prop where
  run : Resumes (s.pushes z (s.display z n)) t
  bp : t.cpu.gen .bp =
    idxAdd s.cpu.mode.stack32 (-BitVec.ofNat 32 (n * z.bytes)) (s.cpu.gen .bp)
  data32 : t.cpu.mode.data32 = s.cpu.mode.data32

namespace Copied

variable {s t t' : St} {z : OpSize} {n : Nat}

theorem of_view (h : Copied s z n t) (hview : t'.view = t.view) : Copied s z n t' := by
  obtain ⟨hcpu, hmem, -⟩ := view_parts hview
  refine ⟨⟨?_, ?_, ?_, ?_⟩, ?_, ?_⟩
  · rw [hcpu, h.run.sp]
  · rw [hcpu, h.run.ss]
  · rw [hcpu, h.run.stack32]
  · rw [hmem]
    exact h.run.mem
  · rw [hcpu, h.bp]
  · rw [hcpu, h.data32]

/-- One more copy. -/
theorem step (hsep : s.mem.Sep) (h : Copied s z n t) : Copied s z (n + 1) (t.copied z) := by
  obtain ⟨hseg, hmode⟩ := pushes_rest s z (s.display z n)
  have hstack : t.cpu.mode.stack32 = s.cpu.mode.stack32 := by rw [h.run.stack32, hmode]
  let w := t.put fun c =>
    c.setGen .bp (idxAdd c.mode.stack32 (-BitVec.ofNat 32 z.bytes) (c.gen .bp))
  let ofs := w.cpu.idx w.cpu.mode.stack32 .bp
  have hbp : w.cpu.gen .bp =
      idxAdd s.cpu.mode.stack32 (-BitVec.ofNat 32 ((n + 1) * z.bytes)) (s.cpu.gen .bp) := by
    have hsum : -BitVec.ofNat 32 (n * z.bytes) + -BitVec.ofNat 32 z.bytes =
        -BitVec.ofNat 32 ((n + 1) * z.bytes) := by
      rw [Nat.succ_mul, BitVec.ofNat_add, BitVec.neg_add, BitVec.sub_eq_add_neg]
    refine (setGen_self .bp _ t.cpu).trans ?_
    rw [hstack, h.bp, idxAdd_idxAdd, hsum]
  have hofs : w.cpu.linear .ss ofs = s.cpu.belowBp ((n + 1) * z.bytes) := by
    have hidx : ofs = inWidth s.cpu.mode.stack32
        (s.cpu.gen .bp + -BitVec.ofNat 32 ((n + 1) * z.bytes)) := by
      show inWidth t.cpu.mode.stack32 (w.cpu.gen .bp) = _
      rw [hbp, hstack, inWidth_idxAdd]
    have hss : w.cpu.seg .ss = s.cpu.seg .ss := h.run.ss.trans (congrFun hseg .ss)
    unfold Cpu.linear Cpu.belowBp
    rw [hidx, hss]
    rfl
  have hnum : (w.dataVal z.width .ss ofs).setWidth z.bits =
      (s.pushes z (s.display z n)).mem.num z (s.cpu.belowBp ((n + 1) * z.bytes)) := by
    rw [← hofs, ← h.run.num]
    rfl
  have hload : Resumes t (w.loaded z.width .ss ofs) := by
    have hput : Resumes t w := ⟨setGen_ne (by decide) _ t.cpu, rfl, rfl, .refl _⟩
    exact hput.trans (Reads.refl.loaded z.width .ss ofs).resumes
  refine ⟨?_, ?_, ?_⟩
  · rw [St.display, pushes_append, ← hnum]
    exact (h.run.trans hload).pushes ((pushes_guarded hsep _).sep hsep) [_]
  · show ((w.loaded z.width .ss ofs).pushed z.width _).cpu.gen .bp = _
    rw [pushed_cpu, moveSp_ne (by decide), loaded_cpu, hbp]
  · show ((w.loaded z.width .ss ofs).pushed z.width _).cpu.mode.data32 = _
    rw [pushed_cpu, moveSp_mode, loaded_cpu]
    exact h.data32

end Copied

section

variable {inp : PortInput} {h : Host} (hh : h.Blind inp) {z : OpSize} {s : St}

include hh

/-- A copy in one size, whose functions are known. -/
theorem enterCopy_steps {n : U32} {fetch : U32 → Emu (BitVec z.bits)}
    {push : BitVec z.bits → Emu Unit} (hn : -n = -BitVec.ofNat 32 z.bytes)
    (hfetch : ∀ ofs s, seen h (fetch ofs) s =
      ((s.dataVal z.width .ss ofs).setWidth z.bits, (s.loaded z.width .ss ofs).view))
    (hpush : ∀ v s, seen h (push v) s = ((), (s.pushed z.width (v.setWidth 32)).view)) :
    seen h (do
      addIdx s.cpu.mode.stack32 .bp (-n)
      let ofs ← getIdx s.cpu.mode.stack32 .bp
      push (← fetch ofs)) s = ((), (s.copied z).view) := by
  rw [seen_step hh (seen_addIdx _ .bp _ s), seen_step hh (seen_getIdx _ .bp _),
    seen_step hh (hfetch _ _), hpush, hn]
  rfl

theorem seen_enterCopy (hsize : s.cpu.mode.opSize true = z) :
    seen h Op.enterCopy s = ((), (s.copied z).view) := by
  unfold Op.enterCopy
  rw [seen_step hh (seen_getMode s)]
  rcases opSize_cases s.cpu.mode with ⟨hdata, hlong⟩ | ⟨hdata, hword⟩
  · obtain rfl : OpSize.long = z := hlong.symm.trans hsize
    rw [hdata]
    exact enterCopy_steps hh (z := .long) rfl (seen_fetchDataSizeAbs hh .long .ss)
      (seen_pushSize hh (z := .long) (by decide))
  · obtain rfl : OpSize.word = z := hword.symm.trans hsize
    rw [hdata]
    exact enterCopy_steps hh (z := .word) rfl (seen_fetchDataSizeAbs hh .word .ss)
      (seen_pushSize hh (z := .word) (by decide))

/-- All copies, by induction on their number. -/
theorem enterCopies_copied (hsep : s.mem.Sep) (hsize : s.cpu.mode.opSize true = z) (n : Nat)
    {i a : Nat} {t : St} (ht : Copied s z i t) :
    Copied s z (i + n) ((forLoop n (fun _ => Op.enterCopy) a).run h t).2 := by
  induction n generalizing i a t with
  | zero => exact ht
  | succ n ih =>
    have hdata : t.cpu.mode.opSize true = z := by
      rw [← hsize]
      unfold Mode.opSize
      rw [ht.data32]
    have hstep : Copied s z (i + 1) (Op.enterCopy.run h t).2 :=
      (ht.step hsep).of_view (congrArg Prod.snd (seen_enterCopy hh hdata))
    rw [show i + (n + 1) = i + 1 + n by omega]
    exact ih hstep

end

/-! ## The frame -/

/-- The operand size with the width of the stack. -/
def Mode.stackSize (m : Mode) : OpSize := if m.stack32 then .long else .word

theorem stackSize_iff (m : Mode) : m.opSize true = m.stackSize ↔ m.data32 = m.stack32 := by
  unfold Mode.opSize Mode.stackSize
  cases m.data32 <;> cases m.stack32 <;> decide

/-- The frame register is pushed in the width of the stack. -/
def St.saved (s : St) : St :=
  s.pushes s.cpu.mode.stackSize [s.cpu.getReg s.cpu.mode.stackSize 5]

/-- The new frame pointer is set, and the locals are reserved. -/
def Cpu.framed (c : Cpu) (framePointer locals : U32) : Cpu :=
  let c' := c.setIdx c.mode.stack32 .bp framePointer
  c'.setGen .sp (idxAdd c.mode.stack32 (-locals) (c'.gen .sp))

/-- The state after `enter`, but for where the locals begin. -/
structure Entered (z : OpSize) (level : Nat) (s p : St) : Prop where
  mem : (s.saved.pushes z (s.saved.framed z level)).mem.Marked p.mem
  bp : p.cpu.idx s.cpu.mode.stack32 .bp = s.saved.cpu.spOfs
  ss : p.cpu.seg .ss = s.cpu.seg .ss
  stack32 : p.cpu.mode.stack32 = s.cpu.mode.stack32

theorem Entered.of_view {z : OpSize} {level : Nat} {s p p' : St} (h : Entered z level s p)
    (hview : p'.view = p.view) : Entered z level s p' := by
  obtain ⟨hcpu, hmem, -⟩ := view_parts hview
  refine ⟨?_, ?_, ?_, ?_⟩
  · rw [hmem]
    exact h.mem
  · rw [hcpu, h.bp]
  · rw [hcpu, h.ss]
  · rw [hcpu, h.stack32]

theorem framed_rest (c : Cpu) (framePointer locals : U32) :
    (c.framed framePointer locals).seg = c.seg ∧ (c.framed framePointer locals).mode = c.mode ∧
      (c.framed framePointer locals).idx c.mode.stack32 .bp =
        inWidth c.mode.stack32 framePointer := by
  obtain ⟨hseg, hmode⟩ := setIdx_rest c c.mode.stack32 .bp framePointer
  refine ⟨hseg, hmode, ?_⟩
  rw [← setIdx_idx c, idx_eq, idx_eq]
  exact congrArg (inWidth c.mode.stack32) (setGen_ne (by decide) _ _)

theorem spOfs_eq (c : Cpu) : c.spOfs = inWidth c.mode.stack32 (c.gen .sp) := (rfl)

theorem saved_rest (s : St) : s.saved.cpu.seg = s.cpu.seg ∧ s.saved.cpu.mode = s.cpu.mode :=
  pushes_rest s _ _

section

variable {inp : PortInput} {h : Host} (hh : h.Blind inp) {z : OpSize} {s : St}

include hh

theorem seen_saved {k : Bool} (y : Unit → Emu Unit) (hk : s.cpu.mode.stack32 = k) :
    seen h (if k = true then do
      let v ← getGen .bp
      let r ← pushLong v
      y r
    else do
      let v ← get16 .bp
      let r ← pushWord v
      y r) s = seen h (y ()) s.saved := by
  unfold St.saved Mode.stackSize
  rw [seen_ite]
  cases k with
  | true =>
    rw [if_pos rfl, if_pos hk, seen_step hh (seen_getGen .bp s)]
    exact seen_step hh (seen_pushSize hh (z := .long) (by decide) _ s)
  | false =>
    rw [if_neg Bool.false_ne_true, if_neg (hk ▸ Bool.false_ne_true),
      seen_step hh (seen_get16 .bp s)]
    exact seen_step hh (seen_pushSize hh (z := .word) (by decide) _ s)

theorem seen_frameEnd (framePointer locals : U32) (s : St) :
    seen h (do
      let stack32 := (← getMode).stack32
      setIdx stack32 .bp framePointer
      addIdx stack32 .sp (-locals)) s = ((), (s.put (·.framed framePointer locals)).view) := by
  rw [seen_step hh (seen_getMode s)]
  dsimp only
  rw [seen_step hh (seen_setIdx _ .bp _ s), seen_addIdx]
  rfl

/-- The nesting levels: the copies are done, and the new frame pointer is pushed behind them. -/
theorem enterLevels_entered (hsep : s.mem.Sep) (hsize : s.cpu.mode.opSize true = z) (nesting : U8)
    (locals : U32) {t : St} (ht : Copied s.saved z 0 t) :
    Entered z nesting.toNat s ((do
      if nesting > 0 then
        forLoop (nesting.toNat - 1) fun _ => Op.enterCopy
        if (← getMode).data32 then pushLong s.saved.cpu.spOfs
        else pushWord (s.saved.cpu.spOfs.setWidth 16)
      let stack32 := (← getMode).stack32
      setIdx stack32 .bp s.saved.cpu.spOfs
      addIdx stack32 .sp (-locals) : Emu Unit).run h t).2 := by
  obtain ⟨hseg, hmode⟩ := saved_rest s
  have hsep' : s.saved.mem.Sep := (pushes_guarded hsep _).sep hsep
  have hsize' : s.saved.cpu.mode.opSize true = z := by rw [hmode, hsize]
  have hend : ∀ c : St, Resumes (s.saved.pushes z (s.saved.framed z nesting.toNat)) c →
      Entered z nesting.toNat s (c.put (·.framed s.saved.cpu.spOfs locals)) := by
    intro c hc
    obtain ⟨hpseg, hpmode⟩ := pushes_rest s.saved z (s.saved.framed z nesting.toNat)
    have hstack : c.cpu.mode.stack32 = s.cpu.mode.stack32 := by rw [hc.stack32, hpmode, hmode]
    obtain ⟨hfseg, hfmode, hbp⟩ := framed_rest c.cpu s.saved.cpu.spOfs locals
    refine ⟨hc.mem, ?_, ?_, ?_⟩
    · rw [← hstack, put_cpu, hbp, spOfs_eq, hmode, ← hstack, inWidth_inWidth]
    · rw [put_cpu, hfseg, hc.ss, hpseg, hseg]
    · rw [put_cpu, hfmode, hstack]
  dsimp only
  split
  · next hpos =>
    have hlevel : nesting.toNat ≠ 0 := Nat.ne_of_gt hpos
    have hcopies := enterCopies_copied hh hsep' hsize' (nesting.toNat - 1) (a := 0) ht
    rw [Nat.zero_add] at hcopies
    generalize hc : ((forLoop (nesting.toNat - 1) fun _ => Op.enterCopy).run h t).2 = c at hcopies
    have hloop : seen h (forLoop (nesting.toNat - 1) fun _ => Op.enterCopy) t = ((), c.view) :=
      congrArg (fun u : St => ((), u.view)) hc
    have hrun : Resumes (s.saved.pushes z (s.saved.framed z nesting.toNat))
        (c.pushes z [s.saved.cpu.spOfs.setWidth z.bits]) := by
      have hpush := hcopies.run.pushes ((pushes_guarded hsep' _).sep hsep')
        [s.saved.cpu.spOfs.setWidth z.bits]
      unfold St.framed
      rwa [if_neg hlevel, pushes_append]
    refine (hend _ hrun).of_view (congrArg Prod.snd (?_ : seen h _ t = ((), _)))
    rw [seen_step hh hloop, seen_step hh (seen_getMode c), hcopies.data32, seen_ite]
    rcases opSize_cases s.saved.cpu.mode with ⟨hdata, hlong⟩ | ⟨hdata, hword⟩
    · obtain rfl : OpSize.long = z := hlong.symm.trans hsize'
      rw [hdata, if_pos rfl, seen_step hh (seen_pushLong hh _ c)]
      exact seen_frameEnd hh _ _ _
    · obtain rfl : OpSize.word = z := hword.symm.trans hsize'
      rw [hdata, if_neg Bool.false_ne_true, seen_step hh (seen_pushWord hh _ c)]
      exact seen_frameEnd hh _ _ _
  · next hzero =>
    have hlevel : nesting.toNat = 0 := Nat.eq_zero_of_not_pos hzero
    refine (hend t ?_).of_view (congrArg Prod.snd (seen_frameEnd hh _ _ t))
    unfold St.framed
    rw [if_pos hlevel]
    exact ht.run

omit hh in
/-- The operand bytes do not matter for the frame register saved. -/
theorem saved_reads (hsep : s.mem.Sep) {r : St} (hr : Reads s r) (z : OpSize) :
    Copied s.saved z 0 r.saved ∧ r.saved.cpu.spOfs = s.saved.cpu.spOfs := by
  obtain ⟨eip, segDsSs, halted, hcpu⟩ := hr.cpu
  have hsize : r.cpu.mode.stackSize = s.cpu.mode.stackSize := by
    rw [hcpu]
    rfl
  have hsaved : r.saved = r.pushes s.cpu.mode.stackSize [s.cpu.getReg s.cpu.mode.stackSize 5] := by
    unfold St.saved
    rw [hsize, hr.getReg]
  have hrun : Resumes s.saved r.saved := by
    rw [hsaved]
    exact hr.resumes.pushes hsep _
  obtain ⟨-, hmode⟩ := saved_rest s
  obtain ⟨-, hmode'⟩ := saved_rest r
  have hbp : ∀ t : St, t.saved.cpu.gen .bp = t.cpu.gen .bp := by
    intro t
    unfold St.saved
    rw [pushes_cpu]
    exact moveSp_ne (by decide) _
  refine ⟨⟨hrun, ?_, ?_⟩, ?_⟩
  · rw [Nat.zero_mul, show -BitVec.ofNat 32 0 = (0 : U32) from rfl, idxAdd_zero, hbp, hbp, hcpu]
  · rw [hmode, hmode', hcpu]
  · rw [spOfs_eq, spOfs_eq, hrun.stack32, hrun.sp]

theorem enter_entered (hsep : s.mem.Sep) (hsize : s.cpu.mode.opSize true = z) (op : U8) :
    Entered z (s.immAt .byte 2 &&& 0x1f).toNat s ((Op.enter op).run h s).2 := by
  let r := (s.fetched .b16).fetched .b8
  have hr : Reads s r := (Reads.refl.fetched .b16).fetched .b8
  obtain ⟨hcopied, hsp⟩ := saved_reads hsep hr z
  have hlevels := enterLevels_entered hh hsep hsize (s.immAt .byte 2 &&& 0x1f)
    ((s.immAt .word 0).setWidth 32) hcopied
  refine hlevels.of_view (congrArg Prod.snd (?_ : seen h (Op.enter op) s = seen h _ r.saved))
  have hlocals : (s.code .b16 s.cpu.eip).setWidth 16 = s.immAt .word 0 := by
    unfold St.immAt
    rw [advance_zero]
    rfl
  have hnesting : ((s.fetched .b16).code .b8 (s.fetched .b16).cpu.eip).setWidth 8 =
      s.immAt .byte 2 := by
    rw [fetched_code]
    rfl
  unfold Op.enter
  rw [seen_step hh (seen_opDecode _ s), seen_step hh (seen_fetchWord hh s),
    seen_step hh (seen_fetchByte hh _), seen_step hh (seen_decode _ _),
    seen_step hh (seen_opDecode _ _), seen_step hh (seen_decode _ _), seen_step hh (seen_getMode _),
    hlocals, hnesting]
  dsimp only
  rw [seen_saved hh _ rfl, seen_step hh (seen_getMode _), seen_step hh (seen_getIdx _ .sp _),
    show r.saved.cpu.idx r.saved.cpu.mode.stack32 .sp = s.saved.cpu.spOfs from hsp]

end

/-! ## Leaving the frame -/

/-- The stack pointer is set to the frame pointer. -/
def St.unframed (s : St) : St :=
  s.put fun c => c.setIdx c.mode.stack32 .sp (c.idx c.mode.stack32 .bp)

/-- The frame register is popped behind it. -/
def St.left (s : St) (z : OpSize) : St :=
  (s.unframed.popped z.width).put (·.setReg z 5 (s.unframed.mem.num z (s.unframed.cpu.below 0)))

theorem seen_leave {inp : PortInput} {h : Host} (hh : h.Blind inp) (op : U8) {z : OpSize} {s : St}
    (hsize : s.cpu.mode.opSize true = z) : seen h (Op.leave op) s = ((), (s.left z).view) := by
  obtain ⟨-, hmode⟩ := setIdx_rest s.cpu s.cpu.mode.stack32 .sp (s.cpu.idx s.cpu.mode.stack32 .bp)
  unfold Op.leave
  rw [seen_step hh (seen_opDecode _ s), seen_step hh (seen_getMode s)]
  dsimp only
  rw [seen_step hh (seen_getIdx _ .bp s), seen_step hh (seen_setIdx _ .sp _ s),
    seen_step hh (seen_getMode _), put_cpu, hmode, seen_ite]
  rcases opSize_cases s.cpu.mode with ⟨hdata, hlong⟩ | ⟨hdata, hword⟩
  · obtain rfl : OpSize.long = z := hlong.symm.trans hsize
    rw [hdata, if_pos rfl, seen_step hh (seen_popLong_num hh _)]
    exact seen_setReg .long 5 _ _
  · obtain rfl : OpSize.word = z := hword.symm.trans hsize
    rw [hdata, if_neg Bool.false_ne_true, seen_step hh (seen_popWord_num hh _)]
    exact seen_setReg .word 5 _ _

section

variable {z : OpSize} (hz : z ≠ .byte) {s : St}

theorem unframed_rest (s : St) :
    s.unframed.cpu.seg = s.cpu.seg ∧ s.unframed.cpu.mode = s.cpu.mode :=
  setIdx_rest _ _ _ _

include hz

theorem left_sp (s : St) : (s.left z).cpu.idx s.cpu.mode.stack32 .sp =
    inWidth s.cpu.mode.stack32 (s.cpu.gen .bp + BitVec.ofNat 32 z.bytes) := by
  obtain ⟨-, hmode⟩ := unframed_rest s
  have hsp : (s.left z).cpu.gen .sp =
      (s.unframed.cpu.moveSp (BitVec.ofNat 32 z.bytes)).gen .sp := by
    refine (setReg_ne hz _ 5 _ (by decide)).trans ?_
    rw [popped_cpu, size_width]
  have hbp : inWidth s.cpu.mode.stack32 (s.unframed.cpu.gen .sp) =
      inWidth s.cpu.mode.stack32 (s.cpu.gen .bp) := by
    rw [← inWidth_inWidth s.cpu.mode.stack32 (s.cpu.gen .bp)]
    exact setIdx_idx s.cpu s.cpu.mode.stack32 .sp _
  rw [idx_eq, hsp, moveSp_sp, hmode, inWidth_idxAdd]
  exact inWidth_add hbp _

theorem left_bp (s : St) : (s.left z).cpu.getReg z 5 = s.mem.num z (s.cpu.belowBp 0) := by
  obtain ⟨hseg, hmode⟩ := unframed_rest s
  have hbelow : s.unframed.cpu.below 0 = s.cpu.belowBp 0 := by
    have hbp := setIdx_idx s.cpu s.cpu.mode.stack32 .sp (s.cpu.idx s.cpu.mode.stack32 .bp)
    rw [idx_eq, idx_eq, inWidth_inWidth] at hbp
    rw [below_eq, hmode]
    unfold Cpu.belowBp Cpu.linear
    rw [hseg]
    exact congrArg _ (inWidth_add hbp _)
  rw [← hbelow]
  exact Op2.getReg_setReg hz _ _ _

end

/-! ## What is kept -/

/-- `enter` with a nesting level leads from `s` to `p`, and `leave` then to `t`: the stack pointer
and the frame register are as before. The new frame pointer is the stack pointer behind the saved
frame register, and below it are the frame pointers of the enclosing procedures and the new one. -/
structure FrameKept (z : OpSize) (level : Nat) (s p t : St) : Prop where
  sp : t.cpu.idx s.cpu.mode.stack32 .sp = s.cpu.idx s.cpu.mode.stack32 .sp
  bp : t.cpu.getReg z 5 = s.cpu.getReg z 5
  frame : p.cpu.idx s.cpu.mode.stack32 .bp = (s.cpu.moveSp (-BitVec.ofNat 32 z.bytes)).spOfs
  image : ∀ i (hi : i < (s.enterImage z level).length),
    p.mem.num z (p.cpu.belowBp (i * z.bytes)) = (s.enterImage z level)[i]
  outer : ∀ i, 0 < i → i < level →
    (∀ j < z.bytes, ¬s.cpu.InSlots z i (s.cpu.belowBp (i * z.bytes) + BitVec.ofNat 32 j)) →
    p.mem.num z (p.cpu.belowBp (i * z.bytes)) = s.mem.num z (s.cpu.belowBp (i * z.bytes))

theorem Entered.belowBp {z : OpSize} {level : Nat} {s p : St} (h : Entered z level s p) (m : Nat) :
    p.cpu.belowBp m = s.cpu.below (s.cpu.mode.stackSize.bytes + m) := by
  obtain ⟨hseg, hmode⟩ := saved_rest s
  have hbp : inWidth s.cpu.mode.stack32 (p.cpu.gen .bp) =
      inWidth s.cpu.mode.stack32 (s.saved.cpu.gen .sp) := by
    rw [← idx_eq, h.bp, spOfs_eq, hmode]
  have hdown : s.cpu.Down s.cpu.mode.stackSize.bytes s.saved.cpu := by
    have hone := pushes_down s s.cpu.mode.stackSize [s.cpu.getReg s.cpu.mode.stackSize 5]
    rwa [List.length_singleton, Nat.one_mul] at hone
  rw [← hdown.below, below_eq]
  unfold Cpu.belowBp Cpu.linear
  rw [h.ss, h.stack32, hseg, hmode]
  exact congrArg _ (inWidth_add hbp _)

theorem resumed_bp {z : OpSize} (hz : z ≠ .byte) {p u : St} (hsp : Resumes p u)
    (hbp : u.cpu.gen .bp = p.cpu.gen .bp) :
    (u.left z).cpu.getReg z 5 = p.mem.num z (p.cpu.belowBp 0) := by
  have hbelow : u.cpu.belowBp 0 = p.cpu.belowBp 0 := by
    unfold Cpu.belowBp Cpu.linear
    rw [hsp.ss, hsp.stack32, hbp]
  rw [left_bp hz, hsp.num, hbelow]

section

variable {z : OpSize} {level : Nat} {s p u : St} (h : Entered z level s p)
  (hsp : Resumes p u) (hbp : u.cpu.gen .bp = p.cpu.gen .bp)

include h hsp hbp

/-- The stack pointer comes back exactly when the register is popped as it is pushed. -/
theorem Entered.sp_iff (hz : z ≠ .byte) : (u.left z).cpu.idx s.cpu.mode.stack32 .sp =
    s.cpu.idx s.cpu.mode.stack32 .sp ↔ z = s.cpu.mode.stackSize := by
  obtain ⟨-, hmode⟩ := saved_rest s
  have hstack : u.cpu.mode.stack32 = s.cpu.mode.stack32 := hsp.stack32.trans h.stack32
  have hsaved : inWidth s.cpu.mode.stack32 (u.cpu.gen .bp) = inWidth s.cpu.mode.stack32
      (s.cpu.gen .sp + -BitVec.ofNat 32 s.cpu.mode.stackSize.bytes) := by
    have hone := pushes_cpu s s.cpu.mode.stackSize [s.cpu.getReg s.cpu.mode.stackSize 5]
    rw [List.length_singleton, Nat.one_mul] at hone
    rw [hbp, ← idx_eq, h.bp, spOfs_eq, hmode, ← inWidth_idxAdd, ← moveSp_sp]
    exact congrArg (fun c : Cpu => inWidth s.cpu.mode.stack32 (c.gen .sp)) hone
  have hleft := left_sp hz u
  rw [hstack] at hleft
  rw [hleft, inWidth_add hsaved, idx_eq, BitVec.add_assoc, inWidth_add_self]
  unfold Mode.stackSize
  cases s.cpu.mode.stack32 <;> cases z <;> decide

end

section

variable {z : OpSize} {level : Nat} {s p : St} (h : Entered z level s p)
  (hz : s.cpu.mode.stackSize = z)

include h hz

theorem Entered.num (m : Nat) : p.mem.num z (p.cpu.belowBp m) =
    (s.pushes z (s.enterImage z level)).mem.num z (s.cpu.below (z.bytes + m)) := by
  have hsaved : s.saved = s.pushes z [s.cpu.getReg z 5] := by
    unfold St.saved
    rw [hz]
  have hmem := h.mem.num z
  rw [hsaved] at hmem
  rw [h.belowBp, hz]
  exact hmem _

/-- The numbers on the stack. -/
theorem Entered.image (hsep : s.mem.Sep) (hlevel : level < 32) (hram : s.StackRam z (level + 1))
    {i : Nat} (hi : i < (s.enterImage z level).length) :
    p.mem.num z (p.cpu.belowBp (i * z.bytes)) = (s.enterImage z level)[i] := by
  have hlen := enterImage_length s z level
  have hbytes := (bytes_le z).2
  have hfits : (level + 1) * z.bytes ≤ 32 * 4 := Nat.mul_le_mul hlevel hbytes
  rw [h.num hz, Nat.add_comm, ← Nat.succ_mul]
  exact pushes_num hsep _ (hlen ▸ hram) (by rw [hlen]; omega) hi

/-- The copies are those of the frame pointers found before, where these are not overwritten. -/
theorem Entered.outer (hsep : s.mem.Sep) (hlevel : level < 32) (hram : s.StackRam z (level + 1))
    {i : Nat} (hpos : 0 < i) (hi : i < level)
    (hapart : ∀ j < z.bytes,
      ¬s.cpu.InSlots z i (s.cpu.belowBp (i * z.bytes) + BitVec.ofNat 32 j)) :
    p.mem.num z (p.cpu.belowBp (i * z.bytes)) = s.mem.num z (s.cpu.belowBp (i * z.bytes)) := by
  obtain ⟨k, rfl⟩ : ∃ k, i = k + 1 := ⟨i - 1, by omega⟩
  let t := s.pushes z [s.cpu.getReg z 5]
  have hbelow : t.cpu.belowBp ((k + 1) * z.bytes) = s.cpu.belowBp ((k + 1) * z.bytes) := by
    obtain ⟨hseg, hmode⟩ := pushes_rest s z [s.cpu.getReg z 5]
    unfold Cpu.belowBp Cpu.linear
    rw [hseg, hmode, pushes_cpu, moveSp_ne (by decide)]
  have hlt : k + 1 < (s.enterImage z level).length := by
    rw [enterImage_length]
    omega
  have hdisplay : (s.enterImage z level)[k + 1] =
      (t.pushes z (t.display z k)).mem.num z (t.cpu.belowBp ((k + 1) * z.bytes)) :=
    framed_getElem t z hi (Nat.lt_of_succ_lt_succ hlt)
  rw [h.image hz hsep hlevel hram hlt, hdisplay, hbelow]
  refine num_congr z _ fun j hj => ?_
  have hflat := pushes_flat (s := s) hsep (s.cpu.getReg z 5 :: t.display z k) (z := z)
    (a := s.cpu.belowBp ((k + 1) * z.bytes) + BitVec.ofNat 32 j)
  rw [List.length_cons, display_length] at hflat
  exact hflat (hapart j hj)

end

section

variable {inp : PortInput} {h : Host} (hh : h.Blind inp) {s u : St}
  (hres : Resumes ((Op.enter 0xc8).run h s).2 u)
  (hbp : u.cpu.gen .bp = ((Op.enter 0xc8).run h s).2.cpu.gen .bp)
  (hdata : u.cpu.mode.data32 = s.cpu.mode.data32)

include hh

include hdata in
theorem leave_cpu : ((Op.leave 0xc9).run h u).2.cpu = (u.left (s.cpu.mode.opSize true)).cpu := by
  have hsize : u.cpu.mode.opSize true = s.cpu.mode.opSize true := by
    unfold Mode.opSize
    rw [hdata]
  exact (view_parts (congrArg Prod.snd (seen_leave hh 0xc9 hsize))).1

include hres hbp hdata

theorem enter_leave_sp (hsep : s.mem.Sep) :
    ((Op.leave 0xc9).run h u).2.cpu.idx s.cpu.mode.stack32 .sp = s.cpu.idx s.cpu.mode.stack32 .sp ↔
      s.cpu.mode.data32 = s.cpu.mode.stack32 := by
  rw [leave_cpu hh hdata, ← stackSize_iff]
  exact (enter_entered hh hsep rfl 0xc8).sp_iff hres hbp (opSize_ne_byte _)

/-- `enter` and `leave`: the frame is kept exactly when operands and stack have the same width. -/
theorem enter_leave_iff (hsep : s.mem.Sep)
    (hram : s.StackRam (s.cpu.mode.opSize true) ((s.immAt .byte 2 &&& 0x1f).toNat + 1)) :
    FrameKept (s.cpu.mode.opSize true) (s.immAt .byte 2 &&& 0x1f).toNat s
        ((Op.enter 0xc8).run h s).2 ((Op.leave 0xc9).run h u).2 ↔
      s.cpu.mode.data32 = s.cpu.mode.stack32 := by
  have hentered := enter_entered hh hsep (s := s) rfl 0xc8
  have hlevel : (s.immAt .byte 2 &&& 0x1f).toNat < 32 := by
    rw [BitVec.toNat_and]
    exact Nat.and_lt_two_pow _ (n := 5) (by decide)
  constructor
  · intro hkept
    exact (enter_leave_sp hh hres hbp hdata hsep).mp hkept.sp
  · intro hsame
    have hz := ((stackSize_iff s.cpu.mode).mpr hsame).symm
    refine ⟨(enter_leave_sp hh hres hbp hdata hsep).mpr hsame, ?_, ?_, ?_, ?_⟩
    · rw [leave_cpu hh hdata, resumed_bp (opSize_ne_byte _) hres hbp]
      have himage := hentered.image hz hsep hlevel hram (i := 0) (Nat.succ_pos _)
      rw [Nat.zero_mul] at himage
      exact himage
    · rw [hentered.bp]
      unfold St.saved
      rw [pushes_cpu, List.length_singleton, Nat.one_mul, hz]
    · exact fun i hi => hentered.image hz hsep hlevel hram hi
    · exact fun i hpos hi hapart => hentered.outer hz hsep hlevel hram hpos hi hapart

end

/-- A procedure of level 3 with 16 bytes of locals. -/
def frameState (data32 stack32 : Bool) : St where
  cpu :=
    { gen := fun _ => 0x8000
      seg := fun _ => { limit := 0xffffffff }
      mode := { data32 := data32, stack32 := stack32 } }
  mem := fullMem fun a => if a = 0 then 0x10 else if a = 2 then 3 else 0

/-- 16 bit operands on a stack of 16 bits. -/
theorem enter_leave_iff_word :
    let h := defaultHost fun _ _ _ => 0
    let s := frameState false false
    let u := ((Op.enter 0xc8).run h s).2.narrow
    FrameKept (s.cpu.mode.opSize true) (s.immAt .byte 2 &&& 0x1f).toNat s
      ((Op.enter 0xc8).run h s).2 ((Op.leave 0xc9).run h u).2 := by
  intro h s u
  have hh : h.Blind fun _ _ _ => 0 := (defaultHost_default _).blind
  have hres : Resumes ((Op.enter 0xc8).run h s).2 u := narrow_resumes _
  have hbp : u.cpu.gen .bp = ((Op.enter 0xc8).run h s).2.cpu.gen .bp := narrow_gen _ .bp
  have hdata : u.cpu.mode.data32 = s.cpu.mode.data32 := narrow_data32 _
  exact (enter_leave_iff hh hres hbp hdata (fullMem_sep _) fun _ _ => fullMem_ram _ _ _).mpr rfl

/-- 16 bit operands on a stack of 32 bits: `leave` pops half of what is saved. -/
theorem enter_leave_fails :
    let h := defaultHost fun _ _ _ => 0
    let s := frameState false true
    let u := ((Op.enter 0xc8).run h s).2.narrow
    s.StackRam (s.cpu.mode.opSize true) ((s.immAt .byte 2 &&& 0x1f).toNat + 1) ∧
      ¬FrameKept (s.cpu.mode.opSize true) (s.immAt .byte 2 &&& 0x1f).toNat s
        ((Op.enter 0xc8).run h s).2 ((Op.leave 0xc9).run h u).2 := by
  intro h s u
  refine ⟨fun _ _ => fullMem_ram _ _ _, fun hkept => ?_⟩
  have hh : h.Blind fun _ _ _ => 0 := (defaultHost_default _).blind
  have hres : Resumes ((Op.enter 0xc8).run h s).2 u := narrow_resumes _
  have hbp : u.cpu.gen .bp = ((Op.enter 0xc8).run h s).2.cpu.gen .bp := narrow_gen _ .bp
  have hdata : u.cpu.mode.data32 = s.cpu.mode.data32 := narrow_data32 _
  have hsame := (enter_leave_sp hh hres hbp hdata (fullMem_sep _)).mp hkept.sp
  exact Bool.false_ne_true hsame

end X86Emu
