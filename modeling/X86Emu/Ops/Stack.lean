import X86Emu.Decode.Index
import X86Emu.Decode.Rm
import X86Emu.Effects.Frame

/-!
# The stack pointer

How far programs move the stack pointer, in the width of the stack. The moves of the parts of a
program add up. The forms of the instructions that move the stack pointer are listed with the number
of bytes that they are documented to move it by.
-/

namespace X86Emu

open Lib

/-! ## Moves -/

theorem moveSp_sp (c : Cpu) (d : U32) :
    (c.moveSp d).gen .sp = idxAdd c.mode.stack32 d (c.gen .sp) := by
  unfold Cpu.moveSp idxAdd Cpu.set16 Cpu.setGen
  split <;> simp [Cpu.get16]

/-- What decides how the stack is used, besides the stack pointer. -/
def Cpu.sizes (c : Cpu) : Bool × Bool × Bool × Bool :=
  (c.mode.data32, c.mode.stack32, c.mode.code32, c.prot)

theorem moveSp_sizes (c : Cpu) (d : U32) : (c.moveSp d).sizes = c.sizes := by
  unfold Cpu.moveSp
  split <;> rfl

/-- `ESP` is changed by `g`, and the sizes are the same. -/
structure Moved (g : U32 → U32) (s t : St) : Prop where
  sp : t.cpu.gen .sp = g (s.cpu.gen .sp)
  sizes : t.cpu.sizes = s.cpu.sizes

namespace Moved

variable {s t u : St} {f g : U32 → U32}

theorem refl (s : St) : Moved id s s := ⟨rfl, rfl⟩

theorem trans (h : Moved f s t) (h' : Moved g t u) : Moved (fun v => g (f v)) s u :=
  ⟨by rw [h'.sp, h.sp], h'.sizes.trans h.sizes⟩

theorem data32 (h : Moved f s t) : t.cpu.mode.data32 = s.cpu.mode.data32 := congrArg (·.1) h.sizes

theorem stack32 (h : Moved f s t) : t.cpu.mode.stack32 = s.cpu.mode.stack32 :=
  congrArg (·.2.1) h.sizes

theorem of_view (hview : t.view = s.view) : Moved id s t := by
  have hcpu : t.view.cpu = s.view.cpu := congrArg St.cpu hview
  rw [view_cpu, view_cpu] at hcpu
  exact ⟨by rw [hcpu, id], by rw [hcpu]⟩

theorem moveSp {d : U32} (hcpu : t.cpu = s.cpu.moveSp d) :
    Moved (idxAdd s.cpu.mode.stack32 d) s t :=
  ⟨by rw [hcpu, moveSp_sp], by rw [hcpu, moveSp_sizes]⟩

end Moved

/-! ## Programs -/

/-- With operand size `b` and stack size `k` the program changes `ESP` by `g`. -/
def Moves {α : Type} (h : Host) (b k : Bool) (x : Emu α) (g : U32 → U32) : Prop :=
  ∀ s, s.cpu.mode.data32 = b → s.cpu.mode.stack32 = k → Moved g s (x.run h s).2

namespace Moves

section

variable {α β : Type} {h : Host} {b k : Bool} {x : Emu α} {y : α → Emu β} {f g : U32 → U32}
  {d e : U32}

theorem bind (hx : Moves h b k x f) (hy : ∀ a, Moves h b k (y a) g) :
    Moves h b k (x >>= y) fun v => g (f v) := by
  intro s hb hk
  have hs := hx s hb hk
  exact hs.trans (hy _ _ (hs.data32.trans hb) (hs.stack32.trans hk))

/-- Moves add up. -/
theorem add (hx : Moves h b k x (idxAdd k d)) (hy : ∀ a, Moves h b k (y a) (idxAdd k e)) :
    Moves h b k (x >>= y) (idxAdd k (d + e)) := by
  have hsum : idxAdd k (d + e) = fun v => idxAdd k e (idxAdd k d v) :=
    funext fun v => (idxAdd_idxAdd k d e v).symm
  rw [hsum]
  exact hx.bind hy

/-- Moves add up before another change. -/
theorem addThen (hx : Moves h b k x (idxAdd k d))
    (hy : ∀ a, Moves h b k (y a) fun v => f (idxAdd k e v)) :
    Moves h b k (x >>= y) fun v => f (idxAdd k (d + e) v) := by
  have hrun := hx.bind hy
  simp only [idxAdd_idxAdd] at hrun
  exact hrun

/-- A program that does not move the stack pointer, before another one. -/
theorem skip (hx : Moves h b k x id) (hy : ∀ a, Moves h b k (y a) g) : Moves h b k (x >>= y) g :=
  hx.bind hy

/-- The same after another one. -/
theorem ends (hx : Moves h b k x g) (hy : ∀ a, Moves h b k (y a) id) : Moves h b k (x >>= y) g :=
  hx.bind hy

theorem pure (a : α) : Moves h b k (Pure.pure a) id := fun s _ _ => .refl s

/-- A program that looks at the sizes. -/
theorem mode {y : Mode → Emu β} (hy : ∀ m, m.data32 = b → m.stack32 = k → Moves h b k (y m) g) :
    Moves h b k (getMode >>= y) g :=
  fun s hb hk => hy s.cpu.mode hb hk s hb hk

theorem size {y : OpSize → Emu β} (hy : Moves h b k (y (if b then .long else .word)) g) :
    Moves h b k (dataSize >>= y) g := by
  intro s hb hk
  subst hb
  exact hy s rfl hk

theorem of_seen (hx : ∀ s, s.cpu.mode.data32 = b → s.cpu.mode.stack32 = k →
    ∃ t, (seen h x s).2 = t.view ∧ Moved g s t) : Moves h b k x g := by
  intro s hb hk
  obtain ⟨t, ht, hmoved⟩ := hx s hb hk
  have hview : (x.run h s).2.view = t.view := ht
  exact hmoved.trans (.of_view hview)

end

end Moves

/-- All effects but writes to general registers, control registers and memory. -/
abbrev quiet : Effects := (true, false, false, true, true, false)

/-- The effects of programs that leave the stack pointer alone. -/
class LeavesSp (f : Effects) : Prop where
  le : f ≤ quiet

instance : LeavesSp ⊥ := ⟨bot_le⟩
instance : LeavesSp mayUd := ⟨by decide⟩
instance : LeavesSp mayFlags := ⟨by decide⟩
instance : LeavesSp maySeg := ⟨by decide⟩
instance (f g : Effects) [hf : LeavesSp f] [hg : LeavesSp g] : LeavesSp (f ⊔ g) :=
  ⟨sup_le hf.le hg.le⟩

/-- The bytes of an operand of the word forms. -/
def dataBytes (data32 : Bool) : U32 := if data32 then 4 else 2

section

variable {α β : Type} {inp : PortInput} {h : Host} (hh : h.Blind inp)

include hh

theorem moved_memio (kind : MemioKind) (bits : MemioBits) (addr val : U32) (s : St) :
    Moved id s (callMemio kind bits addr val h s).2 := by
  obtain ⟨mem, io, hframe⟩ := vmMemio_frame inp s kind bits addr val
  unfold callMemio
  rw [hh.memio]
  dsimp only
  rw [hframe]
  exact ⟨rfl, rfl⟩

theorem moved_logBlind : LogBlind h (Moved id) where
  refl := .refl
  trans := .trans
  log _ _ := ⟨rfl, rfl⟩
  flush hf s t := .of_view (hh.flush hf s t)

/-- Programs that write neither general registers nor memory leave the stack pointer. -/
theorem moved_keeps : Keeps h (Moved id) quiet := by
  have hnot : ∀ {P : Prop}, mayWrite ≤ quiet → P := fun hle => absurd hle (by decide)
  have hcell : Keeps h (Moved id) (true, false, false, true, false, false) := by
    refine ⟨.refl, .trans, ?_⟩
    intro β n f x hx hf s
    cases hx with
    | getCpu | hasCpuid => exact .refl s
    | ctrl hctrl => cases hctrl <;> exact ⟨rfl, rfl⟩
    | eflg v => exact ⟨rfl, rfl⟩
    | disasm text => exact ⟨rfl, rfl⟩
    | capture bytes => exact .of_view (view_capture bytes s)
    | read hkind width addr val => exact moved_memio hh _ _ addr val s
    | fetchStop addr => exact ⟨rfl, rfl⟩
    | log thr guard text _ => exact (moved_logBlind hh).line thr guard text s
    | raise _ err | raiseUd _ _ err =>
      unfold x86emuIntrRaise
      dsimp only
      split <;> exact ⟨rfl, rfl⟩
    | division _ | rdtsc => exact ⟨rfl, rfl⟩
    | debugJump c start ofs =>
      have hrecord : Moved id s (setDebugRecord start ofs s) := by
        unfold setDebugRecord
        split <;> exact ⟨rfl, rfl⟩
      dsimp only
      split
      · exact hrecord
      · exact .refl s
    | _ => exact absurd hf (by decide)
  exact hcell.withSeg fun ref v s => by cases ref <;> exact ⟨rfl, rfl⟩

/-! ### Parts of the handlers -/

variable {b k : Bool}

theorem quiet_moves (x : Emu α) {n : Nat} {fx : Effects} [hx : Does x n fx] [hf : LeavesSp fx] :
    Moves h b k x id :=
  fun s _ _ => (moved_keeps hh).does x hf.le s

/-- A quiet program before another one. -/
theorem quiet_skip (x : Emu α) {n : Nat} {fx : Effects} [Does x n fx] [LeavesSp fx] {y : α → Emu β}
    {g : U32 → U32} (hy : ∀ a, Moves h b k (y a) g) : Moves h b k (x >>= y) g :=
  (quiet_moves hh x).skip hy

theorem pushWord_moves (v : U16) : Moves h b k (pushWord v) (idxAdd k (-2)) := by
  refine .of_seen fun s hb hk => ⟨_, congrArg Prod.snd (seen_pushWord hh v s), ?_⟩
  subst hk
  exact .moveSp (pushed_cpu s _ _)

theorem pushLong_moves (v : U32) : Moves h b k (pushLong v) (idxAdd k (-4)) := by
  refine .of_seen fun s hb hk => ⟨_, congrArg Prod.snd (seen_pushLong hh v s), ?_⟩
  subst hk
  exact .moveSp (pushed_cpu s _ _)

theorem popWord_moves : Moves h b k popWord (idxAdd k 2) := by
  refine .of_seen fun s hb hk => ⟨_, congrArg Prod.snd (seen_popWord hh s), ?_⟩
  subst hk
  exact .moveSp (popped_cpu s _)

theorem popLong_moves : Moves h b k popLong (idxAdd k 4) := by
  refine .of_seen fun s hb hk => ⟨_, congrArg Prod.snd (seen_popLong hh s), ?_⟩
  subst hk
  exact .moveSp (popped_cpu s _)

theorem pushSize_moves {z : OpSize} (hz : z = if b then .long else .word) (v : BitVec z.bits) :
    Moves h b k (pushSize z v) (idxAdd k (-dataBytes b)) := by
  subst hz
  cases b with
  | true => exact pushLong_moves hh v
  | false => exact pushWord_moves hh v

theorem popSize_moves {z : OpSize} (hz : z = if b then .long else .word) :
    Moves h b k (popSize z) (idxAdd k (dataBytes b)) := by
  subst hz
  cases b with
  | true => exact popLong_moves hh
  | false => exact popWord_moves hh

theorem pushSel_moves (v : U16) : Moves h b k (Op.pushSel v) (idxAdd k (-dataBytes b)) := by
  refine .mode fun m hb _ => ?_
  rw [hb]
  cases b with
  | true => exact pushLong_moves hh _
  | false => exact pushWord_moves hh v

theorem popSel_moves : Moves h b k Op.popSel (idxAdd k (dataBytes b)) := by
  refine .mode fun m hb _ => ?_
  rw [hb]
  cases b with
  | true => exact (popLong_moves hh).ends fun _ => .pure _
  | false => exact popWord_moves hh

theorem popData_moves : Moves h b k Op.popData (idxAdd k (dataBytes b)) := by
  refine .mode fun m hb _ => ?_
  rw [hb]
  cases b with
  | true => exact popLong_moves hh
  | false => exact (popWord_moves hh).ends fun _ => .pure _

theorem pushIp_moves : Moves h b k Op.pushIp (idxAdd k (-dataBytes b)) :=
  .size (quiet_skip hh _ fun _ => pushSize_moves hh rfl _)

theorem pushFar_moves : Moves h b k Op.pushFar (idxAdd k (-dataBytes b + -dataBytes b)) :=
  quiet_skip hh _ fun _ => (pushSel_moves hh _).add fun _ => pushIp_moves hh

/-! Writes to other registers. -/

omit hh in
theorem setGen_moves {r : Reg} (hr : r ≠ .sp) (v : U32) : Moves h b k (setGen r v) id := by
  refine .of_seen fun s _ _ => ⟨_, congrArg Prod.snd (seen_setGen r v s), ?_, rfl⟩
  exact setGen_ne hr.symm v s.cpu

omit hh in
theorem set16_moves {r : Reg} (hr : r ≠ .sp) (v : U16) : Moves h b k (set16 r v) id := by
  refine .of_seen fun s _ _ => ⟨_, congrArg Prod.snd (seen_set16 r v s), ?_, rfl⟩
  exact setGen_ne hr.symm _ s.cpu

omit hh in
theorem setIdx_moves {r : Reg} (hr : r ≠ .sp) (wide : Bool) (v : U32) :
    Moves h b k (setIdx wide r v) id := by
  cases wide with
  | true => exact setGen_moves hr v
  | false => exact set16_moves hr _

omit hh in
theorem setReg_moves {r : BitVec 3} (hr : r ≠ 4) {z : OpSize} (hz : z ≠ .byte)
    (v : BitVec z.bits) : Moves h b k (setReg z r v) id := by
  have hsp : ∀ r, r ≠ 4 → Reg.ofBits r ≠ .sp := by decide
  cases z with
  | byte => exact absurd rfl hz
  | word => exact set16_moves (hsp r hr) v
  | long => exact setGen_moves (hsp r hr) v

theorem storeDataSize_moves (z : OpSize) (ofs : U32) (v : BitVec z.bits) :
    Moves h b k (storeDataSize z ofs v) id :=
  .of_seen fun s _ _ => ⟨_, congrArg Prod.snd (seen_storeDataSize hh z ofs v s),
    by rw [stored_cpu, id], by rw [stored_cpu]⟩

/-! ## Instructions -/

theorem pushSeg_moves (text : String) (r : SegReg) :
    Moves h b k (Op.pushSeg text r) (idxAdd k (-dataBytes b)) :=
  quiet_skip hh _ fun _ => quiet_skip hh _ fun _ => pushSel_moves hh _

theorem popSeg_moves (text : String) (r : SegReg) :
    Moves h b k (Op.popSeg text r) (idxAdd k (dataBytes b)) :=
  quiet_skip hh _ fun _ => (popSel_moves hh).ends fun _ => quiet_moves hh _

theorem pushReg_moves (text32 text16 : String) (r : Reg) :
    Moves h b k (Op.pushReg text32 text16 r) (idxAdd k (-dataBytes b)) := by
  refine .mode fun m hb _ => ?_
  rw [hb]
  cases b with
  | true => exact quiet_skip hh _ fun _ => quiet_skip hh _ fun _ => pushLong_moves hh _
  | false => exact quiet_skip hh _ fun _ => quiet_skip hh _ fun _ => pushWord_moves hh _

theorem popReg_moves (text32 text16 : String) {r : Reg} (hr : r ≠ .sp) :
    Moves h b k (Op.popReg text32 text16 r) (idxAdd k (dataBytes b)) := by
  refine .mode fun m hb _ => ?_
  rw [hb]
  cases b with
  | true => exact quiet_skip hh _ fun _ => (popLong_moves hh).ends fun v => setGen_moves hr v
  | false => exact quiet_skip hh _ fun _ => (popWord_moves hh).ends fun v => set16_moves hr v

theorem pushAll_moves (op : U8) :
    Moves h b k (Op.pushAll op) (idxAdd k (-(8 * dataBytes b))) := by
  refine quiet_skip hh _ fun esp => .mode fun m hb _ => ?_
  rw [hb]
  cases b with
  | true =>
    have hlong : ∀ v, Moves h true k (pushLong v) (idxAdd k (-4)) := pushLong_moves hh
    have hread : ∀ r : Reg, Moves h true k (getGen r) id := fun r => quiet_moves hh _
    have hsum : -(8 * dataBytes true) = -4 + (-4 + (-4 + (-4 + (-4 + (-4 + (-4 + -4)))))) := by
      decide
    rw [hsum]
    refine quiet_skip hh _ fun _ => ?_
    exact (hread .ax).skip fun _ => (hlong _).add fun _ => (hread .cx).skip fun _ =>
      (hlong _).add fun _ => (hread .dx).skip fun _ => (hlong _).add fun _ =>
      (hread .bx).skip fun _ => (hlong _).add fun _ => (hlong _).add fun _ =>
      (hread .bp).skip fun _ => (hlong _).add fun _ => (hread .si).skip fun _ =>
      (hlong _).add fun _ => (hread .di).skip fun _ => hlong _
  | false =>
    have hword : ∀ v, Moves h false k (pushWord v) (idxAdd k (-2)) := pushWord_moves hh
    have hread : ∀ r : Reg, Moves h false k (get16 r) id := fun r => quiet_moves hh _
    have hsum : -(8 * dataBytes false) = -2 + (-2 + (-2 + (-2 + (-2 + (-2 + (-2 + -2)))))) := by
      decide
    rw [hsum]
    refine quiet_skip hh _ fun _ => ?_
    exact (hread .ax).skip fun _ => (hword _).add fun _ => (hread .cx).skip fun _ =>
      (hword _).add fun _ => (hread .dx).skip fun _ => (hword _).add fun _ =>
      (hread .bx).skip fun _ => (hword _).add fun _ => (hword _).add fun _ =>
      (hread .bp).skip fun _ => (hword _).add fun _ => (hread .si).skip fun _ =>
      (hword _).add fun _ => (hread .di).skip fun _ => hword _

omit hh in
theorem addSp_word (d : U32) :
    Moves h b k (do set16 .sp ((← get16 .sp) + d.setWidth 16)) (idxAdd false d) :=
  fun s _ _ => ⟨setGen_self .sp _ s.cpu, rfl⟩

omit hh in
/-- The stack pointer moved in a width of its own. -/
theorem addSp_moves (wide : Bool) (d : U32) : Moves h b k (addIdx wide .sp d) (idxAdd wide d) :=
  .of_seen fun s _ _ =>
    ⟨_, congrArg Prod.snd (seen_addIdx wide .sp d s), setGen_self .sp _ s.cpu, rfl⟩

omit hh in
/-- `popa` and `popad`: the pop that is skipped moves the stack pointer in the operand size. -/
theorem popAll_steps {pop : Emu α} {set : Reg → α → Emu Unit} {read : Emu β}
    {adjust : β → Emu Unit} {n : U32}
    (hpop : Moves h b k pop (idxAdd k n)) (hset : ∀ r v, r ≠ .sp → Moves h b k (set r v) id)
    (hadjust : Moves h b k (read >>= adjust) (idxAdd b n)) :
    Moves h b k (do
      set .di (← pop)
      set .si (← pop)
      set .bp (← pop)
      adjust (← read)
      set .bx (← pop)
      set .dx (← pop)
      set .cx (← pop)
      set .ax (← pop))
      fun v => idxAdd k (n + (n + (n + n))) (idxAdd b n (idxAdd k (n + (n + n)) v)) := by
  have hlast : Moves h b k (do
      set .bx (← pop)
      set .dx (← pop)
      set .cx (← pop)
      set .ax (← pop)) (idxAdd k (n + (n + (n + n)))) :=
    hpop.add fun v => (hset .bx v (by decide)).skip fun _ => hpop.add fun v =>
      (hset .dx v (by decide)).skip fun _ => hpop.add fun v => (hset .cx v (by decide)).skip
      fun _ => hpop.ends fun v => hset .ax v (by decide)
  have hskip : Moves h b k (do
      adjust (← read)
      set .bx (← pop)
      set .dx (← pop)
      set .cx (← pop)
      set .ax (← pop)) fun v => idxAdd k (n + (n + (n + n))) (idxAdd b n v) :=
    hadjust.bind fun _ => hlast
  have hall : Moves h b k (do
      set .di (← pop)
      set .si (← pop)
      set .bp (← pop)
      adjust (← read)
      set .bx (← pop)
      set .dx (← pop)
      set .cx (← pop)
      set .ax (← pop)) fun v => idxAdd k (n + (n + (n + n))) (idxAdd b n
        (idxAdd k n (idxAdd k n (idxAdd k n v)))) :=
    hpop.bind fun v => (hset .di v (by decide)).skip fun _ => hpop.bind fun v =>
      (hset .si v (by decide)).skip fun _ => hpop.bind fun v => (hset .bp v (by decide)).skip
      fun _ => hskip
  simp only [idxAdd_idxAdd, BitVec.add_assoc] at hall
  exact hall

theorem popAll_moves (op : U8) : Moves h b k (Op.popAll op) fun v =>
    idxAdd k (4 * dataBytes b) (idxAdd b (dataBytes b) (idxAdd k (3 * dataBytes b) v)) := by
  have hthree : ∀ n : U32, 3 * n = n + (n + n) := fun n => by bv_omega
  have hfour : ∀ n : U32, 4 * n = n + (n + (n + n)) := fun n => by bv_omega
  rw [hthree, hfour]
  refine .mode fun m hb _ => ?_
  rw [hb]
  cases b with
  | true =>
    exact quiet_skip hh _ fun _ => popAll_steps (popLong_moves hh) (fun r v hr => setGen_moves hr v)
      (addSp_moves true 4)
  | false =>
    exact quiet_skip hh _ fun _ => popAll_steps (popWord_moves hh) (fun r v hr => set16_moves hr v)
      (addSp_word 2)

theorem pushWordImm_moves (op : U8) :
    Moves h b k (Op.pushWordImm op) (idxAdd k (-dataBytes b)) := by
  refine quiet_skip hh _ fun _ => .size ?_
  cases b with
  | true => exact quiet_skip hh (fetchImm .long) fun v => pushLong_moves hh v
  | false => exact quiet_skip hh (fetchImm .word) fun v => pushWord_moves hh v

theorem pushByteImm_moves (op : U8) :
    Moves h b k (Op.pushByteImm op) (idxAdd k (-dataBytes b)) := by
  refine quiet_skip hh _ fun _ => quiet_skip hh _ fun _ => quiet_skip hh _ fun _ =>
    .mode fun m hb _ => ?_
  rw [hb]
  cases b with
  | true => exact pushLong_moves hh _
  | false => exact pushWord_moves hh _

theorem pushfWord_moves (op : U8) :
    Moves h b k (Op.pushfWord op) (idxAdd k (-dataBytes b)) := by
  refine quiet_skip hh _ fun _ => quiet_skip hh _ fun _ => .mode fun m hb _ => ?_
  rw [hb]
  cases b with
  | true => exact quiet_skip hh _ fun _ => pushLong_moves hh _
  | false => exact quiet_skip hh _ fun _ => pushWord_moves hh _

theorem popfWord_moves (op : U8) : Moves h b k (Op.popfWord op) (idxAdd k (dataBytes b)) := by
  refine .mode fun m hb _ => ?_
  rw [hb]
  cases b with
  | true =>
    exact quiet_skip hh _ fun _ => (popLong_moves hh).ends fun _ => quiet_moves hh _
  | false =>
    exact quiet_skip hh _ fun _ => (popWord_moves hh).ends fun _ => quiet_moves hh _

theorem callNearImm_moves (op : U8) :
    Moves h b k (Op.callNearImm op) (idxAdd k (-dataBytes b)) :=
  quiet_skip hh _ fun _ => quiet_skip hh _ fun _ => quiet_skip hh _ fun _ =>
    quiet_skip hh _ fun _ =>
    quiet_skip hh _ fun _ => (pushIp_moves hh).ends fun _ => quiet_moves hh _

theorem callFarImm_moves (op : U8) :
    Moves h b k (Op.callFarImm op) (idxAdd k (-dataBytes b + -dataBytes b)) :=
  quiet_skip hh _ fun _ => quiet_skip hh _ fun _ => quiet_skip hh _ fun _ =>
    quiet_skip hh _ fun _ =>
    (pushFar_moves hh).ends fun _ => quiet_moves hh _

theorem retNear_moves (op : U8) : Moves h b k (Op.retNear op) (idxAdd k (dataBytes b)) :=
  quiet_skip hh _ fun _ => (popData_moves hh).ends fun _ => quiet_moves hh _

theorem retFar_moves (op : U8) :
    Moves h b k (Op.retFar op) (idxAdd k (dataBytes b + dataBytes b)) :=
  quiet_skip hh _ fun _ => (popData_moves hh).add fun _ => (popData_moves hh).ends fun _ =>
    quiet_moves hh _

theorem iret_moves (op : U8) :
    Moves h b k (Op.iret op) (idxAdd k (dataBytes b + (dataBytes b + dataBytes b))) :=
  quiet_skip hh _ fun _ => (popData_moves hh).add fun _ => (popData_moves hh).add fun _ =>
    (popData_moves hh).ends fun _ => quiet_moves hh (do setEflg _; Op.farTransfer _ _)

omit hh in
/-- The bytes of the caller are released in the operand size. -/
theorem releaseStack_moves (imm : U32) : Moves h b k (Op.releaseStack imm) (idxAdd b imm) :=
  .mode fun m hb _ => hb ▸ addSp_moves m.data32 imm

theorem pushRm_moves (m : ModRm) : Moves h b k (Op.pushRm m) (idxAdd k (-dataBytes b)) := by
  have hsize : ∀ z : OpSize, z = (if b then .long else .word) →
      ∀ v, Moves h b k (pushSize z v) (idxAdd k (-dataBytes b)) :=
    fun z hz v => pushSize_moves hh hz v
  refine .size ?_
  generalize hz : (if b then OpSize.long else OpSize.word) = z
  split
  · exact quiet_skip hh _ fun _ => quiet_skip hh _ fun _ => hsize z hz.symm _
  · exact quiet_skip hh _ fun _ => quiet_skip hh _ fun _ => quiet_skip hh _ fun _ =>
      hsize z hz.symm _

theorem jumpRm_moves {push : Emu Unit} {d : U32} (hpush : Moves h b k push (idxAdd k d))
    (m : ModRm) : Moves h b k (Op.jumpRm push m) (idxAdd k d) := by
  refine .size ?_
  generalize (if b then OpSize.long else OpSize.word) = z
  split
  · exact quiet_skip hh _ fun _ => hpush.ends fun _ => quiet_skip hh _ fun _ => quiet_moves hh _
  · exact quiet_skip hh _ fun _ => quiet_skip hh _ fun _ => quiet_skip hh _ fun _ =>
      hpush.ends fun _ => quiet_moves hh _

theorem jumpFarRm_moves {push : Emu Unit} {d : U32} (hpush : Moves h b k push (idxAdd k d))
    (m : ModRm) : Moves h b k (Op.jumpFarRm push m) (idxAdd k d) := by
  refine .mode fun mode _ _ => .size ?_
  generalize (if b then OpSize.long else OpSize.word) = z
  have hrest : Moves h b k (do
      let addr ← decodeRmAddress m.mod m.regl
      let val ← fetchDataSize z addr
      let cs ← fetchDataWord (addr + (if z = .long then 4 else 2))
      push
      Op.farTransfer cs (val.setWidth 32)) (idxAdd k d) :=
    quiet_skip hh _ fun _ => quiet_skip hh _ fun _ => quiet_skip hh _ fun _ =>
      hpush.ends fun _ => quiet_moves hh _
  dsimp only
  split
  · exact quiet_skip hh _ fun _ => hrest
  · exact hrest

omit hh in
/-- A program that goes on as another one after its first bytes are read. -/
theorem moved_at {x y : Emu Unit} {s u : St} {g : U32 → U32} (hu : Reads s u)
    (hx : seen h x s = seen h y u)
    (hy : Moves h s.cpu.mode.data32 s.cpu.mode.stack32 y g) : Moved g s (x.run h s).2 := by
  have hstart : Moved id s u := by
    obtain ⟨eip, segDsSs, halted, hcpu⟩ := hu.cpu
    exact ⟨by rw [hcpu, id], by rw [hcpu]; rfl⟩
  have hview : (x.run h s).2.view = (y.run h u).2.view := congrArg Prod.snd hx
  exact (hstart.trans (hy u hstart.data32 hstart.stack32)).trans (.of_view hview)

theorem popRm_moved (op : U8) {s : St} (hreg : s.modrm.regh = 0)
    (hdst : ¬(s.modrm.mod = 3 ∧ s.modrm.regl = 4)) :
    Moved (idxAdd s.cpu.mode.stack32 (dataBytes s.cpu.mode.data32)) s
      ((Op.popRm op).run h s).2 := by
  refine moved_at (y := if s.modrm.mod = 3 then do
      let z ← dataSize
      decodeReg z s.modrm.regl
      setReg z s.modrm.regl (← popSize z)
    else do
      let addr ← decodeRmAddress s.modrm.mod s.modrm.regl
      let z ← dataSize
      let val ← popSize z
      storeDataSize z addr val) (Reads.refl.fetched .b8) ?_ ?_
  · unfold Op.popRm
    rw [seen_step hh (seen_opDecode _ s), seen_step hh (seen_modrm hh s), hreg]
    rfl
  · split
    · next hmod =>
      have hr : s.modrm.regl ≠ 4 := fun hr => hdst ⟨hmod, hr⟩
      refine .size ?_
      generalize hz : (if s.cpu.mode.data32 then OpSize.long else OpSize.word) = z
      have hbyte : z ≠ .byte := by
        subst hz
        cases s.cpu.mode.data32 <;> decide
      exact quiet_skip hh _ fun _ => (popSize_moves hh hz.symm).ends fun v =>
        setReg_moves hr hbyte v
    · refine quiet_skip hh _ fun _ => .size ?_
      generalize hz : (if s.cpu.mode.data32 then OpSize.long else OpSize.word) = z
      exact (popSize_moves hh hz.symm).ends fun v => storeDataSize_moves hh z _ v

/-- The immediate of the returns, behind the opcode. -/
theorem seen_immWord {y : U16 → Emu Unit} (text : String) (s : St) :
    seen h (do opDecode text; y (← fetchImm .word)) s =
      seen h (y (s.immAt .word 0)) (s.fetched .b16) := by
  rw [seen_step hh (seen_opDecode _ s), seen_step hh (seen_fetchImm hh .word s)]
  unfold St.immAt
  rw [advance_zero]
  rfl

theorem retNearImm_moved (op : U8) (s : St) :
    Moved (fun v => idxAdd s.cpu.mode.data32 ((s.immAt .word 0).setWidth 32)
      (idxAdd s.cpu.mode.stack32 (dataBytes s.cpu.mode.data32) v)) s
      ((Op.retNearImm op).run h s).2 := by
  refine moved_at (Reads.refl.fetched .b16) (seen_immWord hh _ s) ?_
  exact (popData_moves hh).bind fun _ => quiet_skip hh _ fun _ => releaseStack_moves _

theorem retFarImm_moved (op : U8) (s : St) :
    Moved (fun v => idxAdd s.cpu.mode.data32 ((s.immAt .word 0).setWidth 32)
      (idxAdd s.cpu.mode.stack32 (2 * dataBytes s.cpu.mode.data32) v)) s
      ((Op.retFarImm op).run h s).2 := by
  have htwo : ∀ n : U32, 2 * n = n + n := fun n => by bv_omega
  rw [htwo]
  refine moved_at (Reads.refl.fetched .b16) (seen_immWord hh _ s) ?_
  exact (popData_moves hh).addThen fun eip => (popData_moves hh).bind fun cs =>
    (releaseStack_moves _).ends fun _ => quiet_moves hh (Op.farTransfer (cs.setWidth 16) eip)

/-- The stack pointer is set to the base pointer, and that is popped. -/
theorem leave_moved (op : U8) (s : St) :
    Moved (idxAdd s.cpu.mode.stack32
      (s.cpu.gen .bp - s.cpu.gen .sp + dataBytes s.cpu.mode.data32)) s
        ((Op.leave op).run h s).2 := by
  have hset : Moved (idxAdd s.cpu.mode.stack32 (s.cpu.gen .bp - s.cpu.gen .sp)) s
      ((do setIdx s.cpu.mode.stack32 .sp (← getIdx s.cpu.mode.stack32 .bp)).run h s).2 := by
    cases hk : s.cpu.mode.stack32 with
    | true =>
      refine ⟨(setGen_self .sp _ s.cpu).trans ?_, rfl⟩
      show s.cpu.gen .bp = s.cpu.gen .sp + (s.cpu.gen .bp - s.cpu.gen .sp)
      bv_omega
    | false =>
      refine ⟨(setGen_self .sp _ s.cpu).trans ?_, rfl⟩
      have hlow : ((s.cpu.get16 .bp).setWidth 32).setWidth 16 = (s.cpu.gen .sp).setWidth 16 +
          (s.cpu.gen .bp - s.cpu.gen .sp).setWidth 16 := by
        rw [← BitVec.setWidth_add _ _ (by decide), BitVec.setWidth_setWidth_of_le _ (by decide),
          BitVec.setWidth_eq]
        unfold Cpu.get16
        congr 1
        bv_omega
      exact congrArg (setLo16 (s.cpu.gen .sp)) hlow
  have hpop : Moves h s.cpu.mode.data32 s.cpu.mode.stack32 (do
      if (← getMode).data32 then setGen .bp (← popLong) else set16 .bp (← popWord))
      (idxAdd s.cpu.mode.stack32 (dataBytes s.cpu.mode.data32)) := by
    refine .mode fun m hb _ => ?_
    rw [hb]
    cases s.cpu.mode.data32 with
    | true => exact (popLong_moves hh).ends fun v => setGen_moves (by decide) v
    | false => exact (popWord_moves hh).ends fun v => set16_moves (by decide) v
  have hall := hset.trans (hpop _ hset.data32 hset.stack32)
  simp only [idxAdd_idxAdd] at hall
  have hseen : seen h (Op.leave op) s = seen h (do
      setIdx s.cpu.mode.stack32 .sp (← getIdx s.cpu.mode.stack32 .bp)
      if (← getMode).data32 then setGen .bp (← popLong) else set16 .bp (← popWord)) s := by
    unfold Op.leave
    rw [seen_step hh (seen_opDecode _ s), seen_step hh (seen_getMode s)]
  exact hall.trans (.of_view (congrArg Prod.snd hseen))

omit hh in
theorem forLoop_moves {body : Nat → Emu Unit} {d : U32}
    (hbody : ∀ i, Moves h b k (body i) (idxAdd k d)) (n a : Nat) :
    Moves h b k (forLoop n body a) (idxAdd k (BitVec.ofNat 32 n * d)) := by
  induction n generalizing a with
  | zero =>
    have hzero : idxAdd k (BitVec.ofNat 32 0 * d) = id := by
      rw [show BitVec.ofNat 32 0 * d = 0 from BitVec.zero_mul]
      exact funext (idxAdd_zero k)
    rw [hzero]
    exact .pure _
  | succ n ih =>
    rw [ofNat_succ_mul, BitVec.add_comm]
    exact (hbody a).add fun _ => ih (a + 1)

theorem enterCopy_moves : Moves h b k Op.enterCopy (idxAdd k (-dataBytes b)) := by
  refine .mode fun m hb hk => ?_
  rw [hb, hk]
  have hadd : ∀ v, Moves h b k (addIdx k .bp v) id := fun v =>
    quiet_skip hh (getIdx k .bp) fun _ => setIdx_moves (by decide) k _
  refine (hadd _).skip fun _ => quiet_skip hh (getIdx k .bp) fun ofs => ?_
  cases b with
  | true => exact quiet_skip hh _ fun _ => pushLong_moves hh _
  | false => exact quiet_skip hh _ fun _ => pushWord_moves hh _

omit hh in
/-- The end of `enter`. -/
theorem enterEnd_moves (locals framePointer : U32) : Moves h b k (do
      let stack32 := (← getMode).stack32
      setIdx stack32 .bp framePointer
      addIdx stack32 .sp (-locals)) (idxAdd k (-locals)) := by
  refine .mode fun m _ hk => ?_
  rw [hk]
  exact (setIdx_moves (by decide) k _).skip fun _ => addSp_moves k _

/-- The frame pointers that `enter` pushes. -/
theorem enterLevels_moves (locals framePointer : U32) (nesting : U8) : Moves h b k (do
      if nesting > 0 then
        forLoop (nesting.toNat - 1) fun _ => Op.enterCopy
        if (← getMode).data32 then pushLong framePointer else pushWord (framePointer.setWidth 16)
      let stack32 := (← getMode).stack32
      setIdx stack32 .bp framePointer
      addIdx stack32 .sp (-locals))
      (idxAdd k (BitVec.ofNat 32 nesting.toNat * -dataBytes b + -locals)) := by
  have hend : Moves h b k _ (idxAdd k (-locals)) := enterEnd_moves locals framePointer
  dsimp only
  split
  · next hpos =>
    have hlevel : BitVec.ofNat 32 nesting.toNat * -dataBytes b + -locals =
        BitVec.ofNat 32 (nesting.toNat - 1) * -dataBytes b + (-dataBytes b + -locals) := by
      have hlt : 0 < nesting.toNat := hpos
      obtain ⟨n, hn⟩ : ∃ n, nesting.toNat = n + 1 := ⟨nesting.toNat - 1, by omega⟩
      rw [hn, Nat.add_sub_cancel, ofNat_succ_mul, BitVec.add_assoc]
    rw [hlevel]
    refine (forLoop_moves (fun _ => enterCopy_moves hh) _ _).add fun _ => .mode fun m hb _ => ?_
    rw [hb]
    cases b with
    | true => exact (pushLong_moves hh _).add fun _ => hend
    | false => exact (pushWord_moves hh _).add fun _ => hend
  · next hpos =>
    have hlevel : BitVec.ofNat 32 nesting.toNat * -dataBytes b + -locals = -locals := by
      have hzero : nesting.toNat = 0 := Nat.eq_zero_of_not_pos hpos
      rw [hzero, show BitVec.ofNat 32 0 * -dataBytes b = 0 from BitVec.zero_mul]
      exact BitVec.zero_add _
    rw [hlevel]
    exact hend

/-- What `enter` does with its operands. -/
theorem enterBody_moves (locals : U32) (nesting : U8) :
    Moves h b k (do
      if (← getMode).stack32 then pushLong (← getGen .bp) else pushWord (← get16 .bp)
      let framePointer ← getIdx (← getMode).stack32 .sp
      if nesting > 0 then
        forLoop (nesting.toNat - 1) fun _ => Op.enterCopy
        if (← getMode).data32 then pushLong framePointer else pushWord (framePointer.setWidth 16)
      let stack32 := (← getMode).stack32
      setIdx stack32 .bp framePointer
      addIdx stack32 .sp (-locals))
      (idxAdd k (-dataBytes k + (BitVec.ofNat 32 nesting.toNat * -dataBytes b + -locals))) := by
  refine .mode fun m _ hk => ?_
  have hrest : Moves h b k _
      (idxAdd k (BitVec.ofNat 32 nesting.toNat * -dataBytes b + -locals)) :=
    .mode fun m _ _ => quiet_skip hh (getIdx m.stack32 .sp) fun framePointer =>
      enterLevels_moves hh locals framePointer nesting
  rw [hk]
  cases k with
  | true => exact quiet_skip hh (getGen .bp) fun v => (pushLong_moves hh v).add fun _ => hrest
  | false => exact quiet_skip hh (get16 .bp) fun v => (pushWord_moves hh v).add fun _ => hrest

theorem enter_moved (op : U8) (s : St) :
    Moved (idxAdd s.cpu.mode.stack32 (-dataBytes s.cpu.mode.stack32 +
      (BitVec.ofNat 32 (s.immAt .byte 2 &&& 0x1f).toNat * -dataBytes s.cpu.mode.data32 +
        -(s.immAt .word 0).setWidth 32))) s ((Op.enter op).run h s).2 := by
  refine moved_at ((Reads.refl.fetched .b16).fetched .b8) ?_ (enterBody_moves hh _ _)
  unfold Op.enter St.immAt
  rw [seen_step hh (seen_opDecode _ s), seen_step hh (seen_fetchWord hh s),
    seen_step hh (seen_fetchByte hh _), seen_step hh (seen_decode _ _),
    seen_step hh (seen_opDecode _ _), seen_step hh (seen_decode _ _), advance_zero, fetched_code,
    fetched_eip]
  rfl

/-! ## Interrupts -/

omit hh in
/-- The bytes of the frame that `generate_int` pushes. -/
def Cpu.frameBytes (c : Cpu) : U32 := if c.prot && c.mode.code32 then 12 else 6

omit hh in
theorem Moved.frameBytes {g : U32 → U32} {s t : St} (hmoved : Moved g s t) :
    t.cpu.frameBytes = s.cpu.frameBytes :=
  congrArg (fun z : Bool × Bool × Bool × Bool => if z.2.2.2 && z.2.2.1 then 12 else 6) hmoved.sizes

theorem pushFrame_moved (cs eip : U32) (s : St) :
    Moved (idxAdd s.cpu.mode.stack32 (-s.cpu.frameBytes)) s ((pushFrame cs eip).run h s).2 := by
  have hlong : ∀ v, Moves h s.cpu.mode.data32 s.cpu.mode.stack32 (pushLong v) _ := pushLong_moves hh
  have hword : ∀ v, Moves h s.cpu.mode.data32 s.cpu.mode.stack32 (pushWord v) _ := pushWord_moves hh
  have hframe : Moves h s.cpu.mode.data32 s.cpu.mode.stack32
      (if s.cpu.prot && s.cpu.mode.code32 then do
        pushLong (← getCpu).eflg
        pushLong cs
        pushLong eip
      else do
        pushWord ((← getCpu).eflg.setWidth 16)
        pushWord (cs.setWidth 16)
        pushWord (eip.setWidth 16)) (idxAdd s.cpu.mode.stack32 (-s.cpu.frameBytes)) := by
    unfold Cpu.frameBytes
    split
    · rw [show (-12 : U32) = -4 + (-4 + -4) by decide]
      exact quiet_skip hh getCpu fun _ => (hlong _).add fun _ => (hlong _).add fun _ => hlong _
    · rw [show (-6 : U32) = -2 + (-2 + -2) by decide]
      exact quiet_skip hh getCpu fun _ => (hword _).add fun _ => (hword _).add fun _ => hword _
  exact hframe s rfl rfl

omit hh in
theorem flags_moves (x : FlagOp α) : Moves h b k (flags x) id :=
  .of_seen fun s _ _ => ⟨_, congrArg Prod.snd (seen_flags x s), rfl, rfl⟩

theorem deliverSoft_moved (nr : U8) (s : St) :
    Moved (idxAdd s.cpu.mode.stack32 (-s.cpu.frameBytes)) s
      ((deliverInt nr intrTypeSoft 0).run h s).2 := by
  have htail : ∀ b k newCs newEip, Moves h b k (do
      if intrTypeSoft &&& intrModeErrcode ≠ 0 then pushLong 0
      flags (clearFlag .if')
      flags (clearFlag .tf)
      x86emuSetSegRegister (.seg .cs) newCs
      setEip newEip) id := by
    intro b k newCs newEip
    have hnone : ¬(intrTypeSoft &&& intrModeErrcode ≠ 0) := by decide
    dsimp only
    rw [if_neg hnone]
    exact (flags_moves _).skip fun _ => (flags_moves _).skip fun _ => quiet_skip hh _ fun _ =>
      quiet_moves hh _
  let ret := s.cpu.returnAddr intrTypeSoft
  let new := ((idtLookup nr ret.1 ret.2).run h s).1
  let t := ((idtLookup nr ret.1 ret.2).run h s).2
  let u := ((pushFrame ret.1 ret.2).run h t).2
  have hidt : Moved id s t := (moved_keeps hh).does (idtLookup nr ret.1 ret.2) (by decide) s
  have hpush : Moved (idxAdd t.cpu.mode.stack32 (-t.cpu.frameBytes)) t u :=
    pushFrame_moved hh ret.1 ret.2 t
  have hend := htail u.cpu.mode.data32 u.cpu.mode.stack32 (new.1.setWidth 16) new.2 u rfl rfl
  rw [hidt.stack32, hidt.frameBytes] at hpush
  exact (hidt.trans hpush).trans hend

omit hh in
/-- The interrupt callback leaves every interrupt to the emulator. -/
def Host.Declines (h : Host) : Prop :=
  ∀ {f}, h.intr = some f → ∀ s nr type, f s nr type = (false, s)

theorem handleInterrupt_moved (hdecl : h.Declines) {nr : U8} {s : St}
    (hintr : s.intr = ⟨nr, intrTypeSoft, 0⟩) :
    Moved (idxAdd s.cpu.mode.stack32 (-s.cpu.frameBytes)) s (handleInterrupt h s) := by
  have hgen : ∀ t : St, Moved (idxAdd t.cpu.mode.stack32 (-t.cpu.frameBytes)) t
      (generateInt nr intrTypeSoft 0 h t) := by
    intro t
    have hcall : ∀ u, callIntr nr intrTypeSoft h u = (false, u) := by
      intro u
      unfold callIntr
      cases hf : h.intr with
      | none => rfl
      | some f => exact hdecl hf u nr intrTypeSoft
    unfold generateInt
    dsimp only
    rw [hcall]
    exact ⟨(deliverSoft_moved hh nr _).sp, (deliverSoft_moved hh nr _).sizes⟩
  have hsoft : ¬(s.intr.type = 0) := by
    rw [hintr]
    exact (by decide : ¬(intrTypeSoft = 0))
  unfold handleInterrupt
  rw [if_neg hsoft]
  have hview : (logLine 128 (·.has traceInts) (fun s => intText s.intr) h s).view = s.view :=
    (hh.logBlind).line _ _ _ s
  have hlog : Moved id s (logLine 128 (·.has traceInts) (fun s => intText s.intr) h s) :=
    .of_view hview
  generalize logLine 128 (·.has traceInts) (fun s => intText s.intr) h s = t at hview hlog
  have hpend : t.view.intr = s.view.intr := congrArg St.intr hview
  have ht : t.intr = ⟨nr, intrTypeSoft, 0⟩ := hpend.trans hintr
  have hrun := hgen t
  rw [hlog.stack32, hlog.frameBytes] at hrun
  have hall := hlog.trans hrun
  dsimp only
  rw [ht]
  exact ⟨hall.sp, hall.sizes⟩

end

end X86Emu
