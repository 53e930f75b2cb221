import X86Emu.Lib.Blocks
import X86Emu.Ops.PortString
import X86Emu.Ops.PushPop

/-!
# Blocks of memory

A repeated string instruction against what it is used for. `rep stos` fills the elements of a block,
`rep movs` copies them, one after the other from the first, and `repe` and `repne` with `scas` and
`cmps` search for the first element that differs, or that does not.
-/

namespace X86Emu

open Lib

/-! ## Bytes in memory -/

/-- The bytes in memory. -/
def Mem.bytes (mem : Mem) (a : U32) : U8 := (mem.flat a).data

theorem Mem.Marked.bytes {mem mem' : Mem} (h : mem.Marked mem') : mem'.bytes = mem.bytes :=
  funext fun a => (h.cells a).data

/-- The bytes that a number in readable memory is read from. -/
theorem num_bytes {mem : Mem} {z : OpSize} {a : U32} (hread : mem.Permits permR z.bytes a) {j : Nat}
    (hj : j < z.bytes) :
    (mem.num z a).extractLsb' (8 * j) 8 = mem.bytes (a + BitVec.ofNat 32 j) := by
  rw [num_byte z a hj]
  unfold Cell.shown
  exact if_pos (hread j hj)

/-- A number stored in writable memory. -/
theorem bytes_stored {mem : Mem} (hsep : mem.Sep) {z : OpSize} {a : U32}
    (hwrite : mem.Permits permW z.bytes a) (v : BitVec z.bits) :
    (mem.access .w z.width.bits a (v.setWidth 32)).2.bytes =
      blit z.bytes a (fun j => v.extractLsb' (8 * j) 8) mem.bytes := by
  refine eq_blit ((bytes_le z).2.trans (by decide)) (fun j hj => ?_) fun b hb => ?_
  · unfold Mem.bytes
    rw [access_cell z a hj hsep, write_permitted (hwrite j hj), extract_setWidth v hj]
  · exact congrArg Cell.data (flat_stored hsep z _ hb)

/-! ## The registers -/

/-- The index registers `rs` behind `k` elements. -/
def Cpu.strided (c : Cpu) (w : Bool) (rs : List Reg) (k : Nat) : Cpu :=
  { c with
    gen := fun r =>
      if r ∈ rs then idxAdd c.mode.addr32 (BitVec.ofNat 32 k * c.stringInc w) (c.gen r)
      else c.gen r }

theorem strided_one (c : Cpu) (w : Bool) (rs : List Reg) (r : Reg) : (c.strided w rs 1).gen r =
    if r ∈ rs then idxAdd c.mode.addr32 (c.stringInc w) (c.gen r) else c.gen r := by
  unfold Cpu.strided
  dsimp only
  rw [show BitVec.ofNat 32 1 * c.stringInc w = c.stringInc w from BitVec.one_mul _]

theorem moved_gen_self (c : Cpu) (k : Bool) (r : Reg) (d : U32) :
    (c.moved k r d).gen r = idxAdd k d (c.gen r) := setGen_self r _ c

theorem moved_gen_ne {r r' : Reg} (hr : r' ≠ r) (c : Cpu) (k : Bool) (d : U32) :
    (c.moved k r d).gen r' = c.gen r' := setGen_ne hr _ c

theorem moved_di (c : Cpu) (w : Bool) :
    c.moved c.mode.addr32 .di (c.stringInc w) = c.strided w [.di] 1 := by
  refine congrArg (fun g : Reg → U32 => { c with gen := g }) (funext fun r => ?_)
  refine Eq.trans (?_ : (c.moved _ _ _).gen r = _) (strided_one c w [.di] r).symm
  by_cases hr : r = .di
  · rw [hr, if_pos (List.mem_singleton.mpr rfl), moved_gen_self]
  · rw [if_neg (by simpa using hr), moved_gen_ne hr]

theorem moved_si_di (c : Cpu) (w : Bool) :
    (c.moved c.mode.addr32 .si (c.stringInc w)).moved c.mode.addr32 .di (c.stringInc w) =
      c.strided w [.si, .di] 1 := by
  refine congrArg (fun g : Reg → U32 => { c with gen := g }) (funext fun r => ?_)
  refine Eq.trans (?_ : (Cpu.moved (c.moved _ _ _) _ _ _).gen r = _)
    (strided_one c w [.si, .di] r).symm
  by_cases hdi : r = .di
  · rw [hdi, if_pos (by decide), moved_gen_self, moved_gen_ne (by decide)]
  · rw [moved_gen_ne hdi]
    by_cases hsi : r = .si
    · rw [hsi, if_pos (by decide), moved_gen_self]
    · rw [if_neg (by simp [hsi, hdi]), moved_gen_ne hsi]

/-- Between a state and the one that `k` elements of a string instruction leave. -/
structure Strides (w : Bool) (rs : List Reg) (k : Nat) (s t : St) : Prop where
  cpu : t.cpu = { s.cpu.strided w rs k with eflg := t.cpu.eflg }
  df : t.cpu.flag .df = s.cpu.flag .df

namespace Strides

variable {w : Bool} {rs : List Reg} {k : Nat} {s t u : St}

theorem zero (w : Bool) (rs : List Reg) (s : St) : Strides w rs 0 s s := by
  have hgen : (s.cpu.strided w rs 0).gen = s.cpu.gen := by
    funext r
    unfold Cpu.strided
    dsimp only
    rw [show BitVec.ofNat 32 0 * s.cpu.stringInc w = 0 from BitVec.zero_mul, idxAdd_zero, ite_self]
  refine ⟨?_, rfl⟩
  conv_rhs => rw [show s.cpu.strided w rs 0 =
    { s.cpu with gen := (s.cpu.strided w rs 0).gen } from rfl, hgen]

theorem mode (h : Strides w rs k s t) : t.cpu.mode = s.cpu.mode := by rw [h.cpu]; rfl

theorem seg (h : Strides w rs k s t) : t.cpu.seg = s.cpu.seg := by rw [h.cpu]; rfl

theorem dataSeg (h : Strides w rs k s t) : t.cpu.dataSeg = s.cpu.dataSeg := by rw [h.cpu]; rfl

theorem stringInc (h : Strides w rs k s t) : t.cpu.stringInc w = s.cpu.stringInc w := by
  unfold Cpu.stringInc
  rw [h.mode, h.df]

theorem gen (h : Strides w rs k s t) (r : Reg) : t.cpu.gen r =
    if r ∈ rs then idxAdd s.cpu.mode.addr32 (BitVec.ofNat 32 k * s.cpu.stringInc w) (s.cpu.gen r)
    else s.cpu.gen r := by
  rw [h.cpu]
  rfl

/-- One more element. -/
theorem succ (h : Strides w rs k s t) (h' : Strides w rs 1 t u) : Strides w rs (k + 1) s u := by
  have hgen : u.cpu.gen = (s.cpu.strided w rs (k + 1)).gen := by
    funext r
    rw [h'.gen, h.gen, h.mode, h.stringInc]
    unfold Cpu.strided
    dsimp only
    split
    · rw [idxAdd_idxAdd, ofNat_succ_mul k,
        show BitVec.ofNat 32 1 * s.cpu.stringInc w = s.cpu.stringInc w from BitVec.one_mul _]
    · rfl
  refine ⟨?_, h'.df.trans h.df⟩
  have hrest : u.cpu = { t.cpu with gen := u.cpu.gen, eflg := u.cpu.eflg } := by
    conv_lhs => rw [h'.cpu]
    rw [show u.cpu.gen = (t.cpu.strided w rs 1).gen by rw [h'.cpu]]
    rfl
  rw [hrest, h.cpu, hgen]
  rfl

/-- The index register is at the next element. -/
theorem idx (h : Strides w rs k s t) {r : Reg} (hr : r ∈ rs) :
    t.cpu.idx s.cpu.mode.addr32 r = s.cpu.elementOfs w r k := by
  unfold Cpu.idx Cpu.elementOfs Cpu.get16
  rw [h.gen, if_pos hr]
  cases s.cpu.mode.addr32 with
  | true => rfl
  | false => exact congrArg (BitVec.setWidth 32) (setWidth_setLo16 _ _)

/-- A step that moves `DI`, after what changes at most flags. -/
theorem one_di {fl : U32} (hdf : fl.getLsbD Flag.df.bit = s.cpu.flag .df)
    (ht : t.cpu = { s.cpu.moved s.cpu.mode.addr32 .di (s.cpu.stringInc w) with eflg := fl }) :
    Strides w [.di] 1 s t := by
  rw [moved_di] at ht
  exact ⟨by rw [ht], by rw [ht]; exact hdf⟩

/-- A step that moves `SI` and `DI`, after what changes at most flags. -/
theorem one_si_di {fl : U32} (hdf : fl.getLsbD Flag.df.bit = s.cpu.flag .df)
    (ht : t.cpu = { (s.cpu.moved s.cpu.mode.addr32 .si (s.cpu.stringInc w)).moved
      s.cpu.mode.addr32 .di (s.cpu.stringInc w) with eflg := fl }) :
    Strides w [.si, .di] 1 s t := by
  rw [moved_si_di] at ht
  exact ⟨by rw [ht], by rw [ht]; exact hdf⟩

end Strides

/-- A repeated string instruction of `k` elements leaves the index registers `rs` behind them and
the counter `k` less, and the other registers as they were, but for the flags. -/
structure Behind (w : Bool) (rs : List Reg) (k : Nat) (s t : St) : Prop where
  index : ∀ r ∈ rs, t.cpu.gen r =
    idxAdd s.cpu.mode.addr32 (BitVec.ofNat 32 k * s.cpu.stringInc w) (s.cpu.gen r)
  counter : t.cpu.gen .cx = idxAdd s.cpu.mode.addr32 (-BitVec.ofNat 32 k) (s.cpu.gen .cx)
  other : ∀ r, r ≠ .cx → r ∉ rs → t.cpu.gen r = s.cpu.gen r
  rest : t.cpu = { s.cpu with gen := t.cpu.gen, eflg := t.cpu.eflg }

theorem Strides.behind {w : Bool} {rs : List Reg} {k : Nat} {s t u : St} (h : Strides w rs k s t)
    (hcx : .cx ∉ rs) (hu : u.view = (t.counted (idxAdd s.cpu.mode.addr32 (-BitVec.ofNat 32 k)
      (s.cpu.gen .cx)) s.cpu.mode.repe s.cpu.mode.repne).view) : Behind w rs k s u := by
  have hcpu : u.cpu = t.cpu.counted _ _ _ := congrArg (·.cpu) hu
  have hne : ∀ r, r ≠ .cx → u.cpu.gen r = t.cpu.gen r := by
    intro r hr
    rw [hcpu, counted_gen hr]
  constructor
  · intro r hr
    rw [hne r (fun heq => hcx (heq ▸ hr)), h.gen, if_pos hr]
  · rw [hcpu]
    exact setGen_self .cx _ t.cpu
  · intro r hr hout
    rw [hne r hr, h.gen, if_neg hout]
  · rw [hcpu, h.cpu]
    rfl

/-! ## Elements -/

/-- The linear address of element `i` of the string at `seg:r`. -/
def Cpu.elementAt (c : Cpu) (w : Bool) (seg : SegReg) (r : Reg) (i : Nat) : U32 :=
  c.linear seg (c.elementOfs w r i)

/-- An element at the offset is inside of the segment. -/
def Cpu.InLimit (c : Cpu) (w : Bool) (seg : SegReg) (ofs : U32) : Prop :=
  ofs + (c.mode.opSize w).width.size - 1 ≤ (c.seg seg).limit

theorem Strides.linear {w : Bool} {rs : List Reg} {k : Nat} {s t : St} (h : Strides w rs k s t)
    (seg : SegReg) {r : Reg} (hr : r ∈ rs) :
    t.cpu.linear seg (t.cpu.idx s.cpu.mode.addr32 r) = s.cpu.elementAt w seg r k := by
  unfold Cpu.elementAt Cpu.linear
  rw [h.seg, h.idx hr]

theorem Strides.inLimit {w : Bool} {rs : List Reg} {k : Nat} {s t : St} (h : Strides w rs k s t)
    (seg : SegReg) {r : Reg} (hr : r ∈ rs) :
    t.cpu.InLimit w seg (t.cpu.idx s.cpu.mode.addr32 r) ↔
      s.cpu.InLimit w seg (s.cpu.elementOfs w r k) := by
  unfold Cpu.InLimit
  rw [h.seg, h.mode, h.idx hr]

theorem checked_inLimit {s : St} {w : Bool} {seg : SegReg} {ofs : U32}
    (h : s.cpu.InLimit w seg ofs) : s.checked seg ofs (s.cpu.mode.opSize w).width.size = s :=
  if_neg (BitVec.not_lt.mpr h)

/-- A multiple of a divisor of the range of numbers. -/
theorem dvd_toNat_mul {z : Nat} (hz : z ∣ 2 ^ 32) {d : U32} (hd : z ∣ d.toNat) (v : U32) :
    z ∣ (v * d).toNat := by
  rw [BitVec.toNat_mul]
  exact (Nat.dvd_mod_iff hz).mpr (hd.mul_left v.toNat)

theorem stringInc_dvd (c : Cpu) (w : Bool) : (c.mode.opSize w).bytes ∣ (c.stringInc w).toNat := by
  unfold Cpu.stringInc
  cases c.flag .df <;> cases c.mode.opSize w <;> decide

/-- The distance of two elements is a multiple of their size. -/
theorem elementAt_sub (c : Cpu) (w : Bool) (seg : SegReg) (r : Reg) (i j : Nat) :
    (c.mode.opSize w).bytes ∣ (c.elementAt w seg r i - c.elementAt w seg r j).toNat := by
  have hinc := stringInc_dvd c w
  have hmul : ∀ k : Nat, (c.mode.opSize w).bytes ∣ (BitVec.ofNat 32 k * c.stringInc w).toNat :=
    fun k => dvd_toNat_mul (by cases c.mode.opSize w <;> decide) hinc _
  have hi := hmul i
  have hj := hmul j
  unfold Cpu.elementAt Cpu.linear Cpu.elementOfs
  generalize BitVec.ofNat 32 i * c.stringInc w = d at hi
  generalize BitVec.ofNat 32 j * c.stringInc w = e at hj
  generalize (c.seg seg).base = b
  generalize c.gen r = v
  generalize c.get16 r = v'
  obtain ⟨-, hbytes⟩ := (c.mode.opSize w).bits_eq
  generalize (c.mode.opSize w).bytes = z at *
  cases c.mode.addr32 with
  | true =>
    rw [if_pos rfl, if_pos rfl]
    rcases hbytes with rfl | rfl | rfl <;> bv_omega
  | false =>
    rw [if_neg Bool.false_ne_true, if_neg Bool.false_ne_true]
    rcases hbytes with rfl | rfl | rfl <;> bv_omega

/-- Two elements of a string are the same, or they have no address in common. -/
theorem elementAt_apart (c : Cpu) (w : Bool) (seg : SegReg) (r : Reg) (i j : Nat) :
    c.elementAt w seg r i = c.elementAt w seg r j ∨
      Apart (c.mode.opSize w).bytes (c.elementAt w seg r i) (c.elementAt w seg r j) := by
  have hsub := elementAt_sub c w seg r i j
  obtain ⟨-, hbytes⟩ := (c.mode.opSize w).bits_eq
  generalize c.elementAt w seg r i = a at hsub
  generalize c.elementAt w seg r j = b at hsub
  generalize (c.mode.opSize w).bytes = z at *
  by_cases hab : a = b
  · exact Or.inl hab
  · refine Or.inr fun k hk l hl heq => hab ?_
    rcases hbytes with rfl | rfl | rfl <;> bv_omega

/-! ## Loops -/

/-- `stosb` and `stosw` -/
def stosOp (w : Bool) : U8 := if w then 0xab else 0xaa

/-- `movsb` and `movsw` -/
def movsOp (w : Bool) : U8 := if w then 0xa5 else 0xa4

theorem oneByte_stos (w : Bool) : oneByte (stosOp w) = Op.stos w := by
  cases w with
  | false => exact oneByte_eq (f := Op.stosByte) 0xaa rfl
  | true => exact oneByte_eq (f := Op.stosWord) 0xab rfl

theorem oneByte_movs (w : Bool) : oneByte (movsOp w) = Op.movs w := by
  cases w with
  | false => exact oneByte_eq (f := Op.movsByte) 0xa4 rfl
  | true => exact oneByte_eq (f := Op.movsWord) 0xa5 rfl

section

variable {inp : PortInput} {h : Host} (hh : h.Blind inp)

include hh

/-- The loop of a repeated instruction without a condition. -/
theorem counting_loop {x : Emu Unit} {body : Cpu → Emu Unit} {s : St} (hbody : Stepwise h body)
    (hx : ∀ s, seen h x s = seen h (counting s.cpu.mode.addr32 (body s.cpu)) s)
    (hrep : s.cpu.mode.rep = true) :
    (after h x s).view = (((after h (body s.cpu))^[s.count] s).counted
      (idxAdd s.cpu.mode.addr32 (-BitVec.ofNat 32 s.count) (s.cpu.gen .cx)) s.cpu.mode.repe
      s.cpu.mode.repne).view := by
  refine (congrArg Prod.snd ((hx s).trans (seen_counting_rep hh _ _ hrep))).trans ?_
  show ((forLoop _ _).run h _).2.view = _
  rw [forLoop_after]
  exact iterate_counted hh (hbody.steady s.cpu) _ s _ _ _

theorem stos_loop (w : Bool) {s : St} (hrep : s.cpu.mode.rep = true) :
    (after h (oneByte (stosOp w)) s).view =
      (((after h (Op.stosStep w s.cpu.mode.addr32 (s.cpu.gen .ax) (s.cpu.stringInc w)))^[s.count]
        s).counted (idxAdd s.cpu.mode.addr32 (-BitVec.ofNat 32 s.count) (s.cpu.gen .cx))
        s.cpu.mode.repe s.cpu.mode.repne).view := by
  rw [oneByte_stos]
  refine counting_loop hh (stos_stepwise hh w) (fun s => ?_) hrep
  unfold Op.stos
  rw [seen_step hh (seen_stringHead hh w _ _ _ s), seen_step hh (seen_getGen .ax s),
    seen_step hh (seen_getMode s)]
  rfl

theorem movs_loop (w : Bool) {s : St} (hrep : s.cpu.mode.rep = true) :
    (after h (oneByte (movsOp w)) s).view =
      (((after h (Op.movsStep w s.cpu.mode.addr32 (s.cpu.stringInc w)))^[s.count] s).counted
        (idxAdd s.cpu.mode.addr32 (-BitVec.ofNat 32 s.count) (s.cpu.gen .cx)) s.cpu.mode.repe
        s.cpu.mode.repne).view := by
  rw [oneByte_movs]
  refine counting_loop hh (movs_stepwise hh w) (fun s => ?_) hrep
  unfold Op.movs
  rw [seen_step hh (seen_stringHead hh w _ _ _ s), seen_step hh (seen_getMode s)]
  rfl

theorem seen_stosStep (w a32 : Bool) (val inc : U32) (s : St) :
    seen h (Op.stosStep w a32 val inc) s =
      ((), ((s.stored (s.cpu.mode.opSize w).width .es (s.cpu.idx a32 .di)
        ((val.setWidth (s.cpu.mode.opSize w).bits).setWidth 32)).put
          (·.moved a32 .di inc)).view) := by
  unfold Op.stosStep
  rw [seen_step hh (seen_opSize w s), seen_step hh (seen_getIdx a32 .di s),
    seen_step hh (seen_storeDataSizeAbs hh _ .es _ _ s)]
  exact seen_addIdx a32 .di inc _

theorem seen_movsStep (w a32 : Bool) (inc : U32) (s : St) :
    seen h (Op.movsStep w a32 inc) s =
      ((), ((((s.loaded (s.cpu.mode.opSize w).width s.cpu.dataSeg (s.cpu.idx a32 .si)).stored
        (s.cpu.mode.opSize w).width .es (s.cpu.idx a32 .di)
        (((s.dataVal (s.cpu.mode.opSize w).width s.cpu.dataSeg (s.cpu.idx a32 .si)).setWidth
          (s.cpu.mode.opSize w).bits).setWidth 32)).put (·.moved a32 .si inc)).put
          (·.moved a32 .di inc)).view) := by
  unfold Op.movsStep
  rw [seen_step hh (seen_opSize w s), seen_step hh (seen_getIdx a32 .si s),
    seen_step hh (seen_fetchDataSize hh _ _ s), seen_step hh (seen_getIdx a32 .di _),
    seen_step hh (seen_storeDataSizeAbs hh _ .es _ _ _), seen_step hh (seen_addIdx a32 .si inc _),
    loaded_cpu]
  exact seen_addIdx a32 .di inc _

end

/-! ## Elements done one by one -/

/-- Between a state and the one that `k` elements leave when element `i` is stored at `dst i`, with
the bytes that `val i` makes of the memory before, and `quiet i` says that it is inside of the
segments. -/
structure Stored (w : Bool) (rs : List Reg) (dst : Nat → U32)
    (val : Nat → (U32 → U8) → Nat → U8) (quiet : Nat → Prop) (k : Nat) (s t : St) : Prop where
  strides : Strides w rs k s t
  flags : t.cpu.eflg = s.cpu.eflg
  guarded : s.mem.Guarded t.mem
  bytes : t.mem.bytes = blits (s.cpu.mode.opSize w).bytes dst val k s.mem.bytes
  intr : (∀ i < k, quiet i) → t.intr = s.intr

section

variable {w : Bool} {rs : List Reg} {dst : Nat → U32} {val : Nat → (U32 → U8) → Nat → U8}
  {quiet : Nat → Prop} {s : St}

theorem Stored.zero (w : Bool) (rs : List Reg) (dst : Nat → U32)
    (val : Nat → (U32 → U8) → Nat → U8) (quiet : Nat → Prop) (s : St) :
    Stored w rs dst val quiet 0 s s :=
  ⟨.zero w rs s, rfl, .refl s.mem, rfl, fun _ => rfl⟩

/-- What one step keeps, a loop of them keeps. -/
theorem stored_run {h : Host} {x : Emu Unit} {n : Nat}
    (hstep : ∀ k < n, ∀ t, Stored w rs dst val quiet k s t →
      Stored w rs dst val quiet (k + 1) s (after h x t)) :
    Stored w rs dst val quiet n s ((after h x)^[n] s) := by
  induction n with
  | zero => exact .zero w rs dst val quiet s
  | succ n ih =>
    rw [Function.iterate_succ_apply']
    exact hstep n (Nat.lt_succ_self n) _ (ih fun k hk => hstep k (Nat.lt_succ_of_lt hk))

end

theorem stored_intr {s : St} {w : Bool} {seg : SegReg} {ofs : U32} (hofs : s.cpu.InLimit w seg ofs)
    (v : U32) : (s.stored (s.cpu.mode.opSize w).width seg ofs v).intr = s.intr := by
  unfold St.stored
  rw [checked_inLimit hofs]
  rfl

theorem loaded_intr {s : St} {w : Bool} {seg : SegReg} {ofs : U32}
    (hofs : s.cpu.InLimit w seg ofs) :
    (s.loaded (s.cpu.mode.opSize w).width seg ofs).intr = s.intr := by
  unfold St.loaded
  rw [checked_inLimit hofs]
  rfl

/-- One element is stored, after what does not change the memory but for the access bits. -/
theorem Stored.succ {w : Bool} {rs : List Reg} {dst : Nat → U32}
    {val : Nat → (U32 → U8) → Nat → U8} {quiet : Nat → Prop} {k : Nat} {s t t' u : St}
    (hsep : s.mem.Sep) (ht : Stored w rs dst val quiet k s t) (hmark : t.mem.Marked t'.mem)
    (hcpu : t'.cpu = t.cpu) {ofs : U32} {v : BitVec (s.cpu.mode.opSize w).bits}
    (hdst : t.cpu.linear .es ofs = dst k)
    (hwrite : s.mem.Permits permW (s.cpu.mode.opSize w).bytes (dst k))
    (hval : ∀ j < (s.cpu.mode.opSize w).bytes, v.extractLsb' (8 * j) 8 = val k t.mem.bytes j)
    (hquiet : quiet k → t.cpu.InLimit w .es ofs ∧ t'.intr = t.intr) {f : Cpu → Cpu}
    (hview : u.view =
      ((t'.stored (s.cpu.mode.opSize w).width .es ofs (v.setWidth 32)).put f).view)
    (hone : Strides w rs 1 t u) (hflags : u.cpu.eflg = t.cpu.eflg) :
    Stored w rs dst val quiet (k + 1) s u := by
  have hmode := ht.strides.mode
  have hmem : u.mem =
      (t'.mem.access .w (s.cpu.mode.opSize w).width.bits (dst k) (v.setWidth 32)).2 := by
    have hstored := congrArg (·.mem) hview
    rw [← hdst, ← hcpu]
    exact hstored.trans (stored_mem ..)
  have hguard := hmark.guarded
  have hsep' : t'.mem.Sep := hmark.sep (ht.guarded.sep hsep)
  have hwrite' := ((ht.guarded.trans hguard).permits (Or.inr (Or.inl rfl)) _ _).mpr hwrite
  refine ⟨ht.strides.succ hone, hflags.trans ht.flags, ?_, ?_, ?_⟩
  · refine (ht.guarded.trans hguard).trans ?_
    rw [hmem]
    exact access_guarded hsep' (fun h => width_ne_noperm _ h.2) _ _
  · rw [hmem, bytes_stored hsep' hwrite', hmark.bytes]
    refine (blit_congr hval).trans ?_
    rw [ht.bytes]
    rfl
  · intro hall
    obtain ⟨hlimit, hintr⟩ := hquiet (hall k (Nat.lt_succ_self k))
    have hstored : u.intr = t'.intr := by
      refine (congrArg (·.intr) hview).trans ?_
      have hlimit' : t'.cpu.InLimit w .es ofs := hcpu ▸ hlimit
      have hkeep := stored_intr hlimit' (v.setWidth 32)
      rw [hcpu, hmode] at hkeep
      exact hkeep
    rw [hstored, hintr]
    exact ht.intr fun i hi => hall i (Nat.lt_succ_of_lt hi)

section

variable {inp : PortInput} {h : Host} (hh : h.Blind inp) {w : Bool} {s : St} (hsep : s.mem.Sep)

include hh hsep

theorem stos_stored
    (hwrite : ∀ i < s.count,
      s.mem.Permits permW (s.cpu.mode.opSize w).bytes (s.cpu.elementAt w .es .di i)) :
    Stored w [.di] (s.cpu.elementAt w .es .di)
      (fun _ _ j => ((s.cpu.gen .ax).setWidth (s.cpu.mode.opSize w).bits).extractLsb' (8 * j) 8)
      (fun i => s.cpu.InLimit w .es (s.cpu.elementOfs w .di i)) s.count s
      ((after h (Op.stosStep w s.cpu.mode.addr32 (s.cpu.gen .ax) (s.cpu.stringInc w)))^[s.count]
        s) := by
  refine stored_run fun k hk t ht => ?_
  have hview := congrArg Prod.snd
    (seen_stosStep hh w s.cpu.mode.addr32 (s.cpu.gen .ax) (s.cpu.stringInc w) t)
  rw [ht.strides.mode] at hview
  have hcpu : (after h (Op.stosStep w s.cpu.mode.addr32 (s.cpu.gen .ax) (s.cpu.stringInc w)) t).cpu
      = t.cpu.moved t.cpu.mode.addr32 .di (t.cpu.stringInc w) := by
    refine (congrArg (·.cpu) hview).trans ?_
    show (t.stored _ _ _ _).cpu.moved _ _ _ = _
    rw [stored_cpu, ht.strides.mode, ht.strides.stringInc]
  have hmem : Reg.di ∈ [Reg.di] := List.mem_singleton.mpr rfl
  refine ht.succ hsep (.refl t.mem) rfl (ht.strides.linear .es hmem) (hwrite k hk) (fun j hj => rfl)
    (fun hquiet => ⟨(ht.strides.inLimit .es hmem).mpr hquiet, rfl⟩) hview
    (.one_di rfl hcpu) (congrArg (·.eflg) hcpu)

theorem movs_stored
    (hread : ∀ i < s.count,
      s.mem.Permits permR (s.cpu.mode.opSize w).bytes (s.cpu.elementAt w s.cpu.dataSeg .si i))
    (hwrite : ∀ i < s.count,
      s.mem.Permits permW (s.cpu.mode.opSize w).bytes (s.cpu.elementAt w .es .di i)) :
    Stored w [.si, .di] (s.cpu.elementAt w .es .di)
      (fun i f j => f (s.cpu.elementAt w s.cpu.dataSeg .si i + BitVec.ofNat 32 j))
      (fun i => s.cpu.InLimit w s.cpu.dataSeg (s.cpu.elementOfs w .si i) ∧
        s.cpu.InLimit w .es (s.cpu.elementOfs w .di i)) s.count s
      ((after h (Op.movsStep w s.cpu.mode.addr32 (s.cpu.stringInc w)))^[s.count] s) := by
  refine stored_run fun k hk t ht => ?_
  have hview := congrArg Prod.snd
    (seen_movsStep hh w s.cpu.mode.addr32 (s.cpu.stringInc w) t)
  have hcpu : (after h (Op.movsStep w s.cpu.mode.addr32 (s.cpu.stringInc w)) t).cpu =
      (t.cpu.moved t.cpu.mode.addr32 .si (t.cpu.stringInc w)).moved t.cpu.mode.addr32 .di
        (t.cpu.stringInc w) := by
    refine (congrArg (·.cpu) hview).trans ?_
    show ((St.stored _ _ _ _ _).cpu.moved _ _ _).moved _ _ _ = _
    rw [stored_cpu, loaded_cpu, ht.strides.mode, ht.strides.stringInc]
  rw [ht.strides.mode, ht.strides.dataSeg, put_put] at hview
  have hsi : Reg.si ∈ [Reg.si, Reg.di] := by decide
  have hdi : Reg.di ∈ [Reg.si, Reg.di] := by decide
  have hread' := (ht.guarded.permits (Or.inl rfl) _ _).mpr (hread k hk)
  have hmark : t.mem.Marked (t.loaded (s.cpu.mode.opSize w).width s.cpu.dataSeg
      (t.cpu.idx s.cpu.mode.addr32 .si)).mem := by
    rw [loaded_mem]
    exact .access (by decide) _ _ _ t.mem
  refine ht.succ hsep hmark (loaded_cpu ..) (ht.strides.linear .es hdi) (hwrite k hk)
    (fun j hj => ?_) (fun hquiet => ⟨(ht.strides.inLimit .es hdi).mpr hquiet.2, ?_⟩) hview
    (.one_si_di rfl hcpu) (congrArg (·.eflg) hcpu)
  · rw [← num_bytes hread' hj, ← ht.strides.linear s.cpu.dataSeg hsi]
    rfl
  · have hlimit := (ht.strides.inLimit s.cpu.dataSeg hsi).mpr hquiet.1
    have hkeep := loaded_intr hlimit
    rw [ht.strides.mode] at hkeep
    exact hkeep

end

/-! ## The instructions -/

theorem OpSize.bytes_range (z : OpSize) : z.bytes ≤ 2 ^ 32 := (bytes_le z).2.trans (by decide)

section

variable {inp : PortInput} {h : Host} (hh : h.Blind inp) (w : Bool) {s : St} (hsep : s.mem.Sep)
  (hrep : s.cpu.mode.rep = true)

include hh hsep hrep

/-- `rep stos` fills a block of writable memory with the elements from the accumulator. Every byte
of it is that of the accumulator afterwards, also where the index register wraps around. -/
theorem rep_stos_fills
    (hwrite : ∀ i < s.count,
      s.mem.Permits permW (s.cpu.mode.opSize w).bytes (s.cpu.elementAt w .es .di i)) :
    let t := after h (oneByte (stosOp w)) s
    let z := s.cpu.mode.opSize w
    let dst := s.cpu.elementAt w .es .di
    let v := fun j => ((s.cpu.gen .ax).setWidth z.bits).extractLsb' (8 * j) 8
    Behind w [.di] s.count s t ∧ t.cpu.eflg = s.cpu.eflg ∧
    t.mem.bytes = fills z.bytes dst v s.count s.mem.bytes ∧
    (∀ i < s.count, ∀ j < z.bytes, t.mem.bytes (dst i + BitVec.ofNat 32 j) = v j) ∧
    ((∀ i < s.count, s.cpu.InLimit w .es (s.cpu.elementOfs w .di i)) → t.intr = s.intr) := by
  intro t z dst v
  have hst := stos_stored hh hsep hwrite
  have hview : t.view = _ := stos_loop hh w hrep
  have hbytes : t.mem.bytes = fills z.bytes dst v s.count s.mem.bytes :=
    (congrArg (·.mem.bytes) hview).trans hst.bytes
  refine ⟨hst.strides.behind (by decide) hview, ?_, hbytes, fun i hi j hj => ?_, fun hlimit => ?_⟩
  · exact (congrArg (·.cpu.eflg) hview).trans hst.flags
  · rw [hbytes]
    exact fills_at z.bytes_range hi (fun k _ => elementAt_apart s.cpu w .es .di k i) hj
  · exact (congrArg (·.intr) hview).trans (hst.intr hlimit)

/-- `rep movs` copies a block of readable memory to a block of writable memory, one element after
the other. An element arrives as it was at first unless it was stored over before it was read. Where
the destination is `p` elements behind the source, the first `p` elements are repeated. -/
theorem rep_movs_copies
    (hread : ∀ i < s.count,
      s.mem.Permits permR (s.cpu.mode.opSize w).bytes (s.cpu.elementAt w s.cpu.dataSeg .si i))
    (hwrite : ∀ i < s.count,
      s.mem.Permits permW (s.cpu.mode.opSize w).bytes (s.cpu.elementAt w .es .di i)) :
    let t := after h (oneByte (movsOp w)) s
    let z := s.cpu.mode.opSize w
    let src := s.cpu.elementAt w s.cpu.dataSeg .si
    let dst := s.cpu.elementAt w .es .di
    Behind w [.si, .di] s.count s t ∧ t.cpu.eflg = s.cpu.eflg ∧
    t.mem.bytes = copies z.bytes src dst s.count s.mem.bytes ∧
    (∀ i < s.count, (∀ j < i, Apart z.bytes (dst j) (src i)) →
      (∀ j, i < j → j < s.count → dst j ≠ dst i) → ∀ j < z.bytes,
      t.mem.bytes (dst i + BitVec.ofNat 32 j) = s.mem.bytes (src i + BitVec.ofNat 32 j)) ∧
    (∀ p > 0, (∀ i < s.count, dst i = src (i + p)) →
      (∀ i < s.count + p, ∀ j < i, src j ≠ src i) → ∀ i < s.count + p, ∀ j < z.bytes,
      t.mem.bytes (src i + BitVec.ofNat 32 j) = s.mem.bytes (src (i % p) + BitVec.ofNat 32 j)) ∧
    ((∀ i < s.count, s.cpu.InLimit w s.cpu.dataSeg (s.cpu.elementOfs w .si i) ∧
      s.cpu.InLimit w .es (s.cpu.elementOfs w .di i)) → t.intr = s.intr) := by
  intro t z src dst
  have hst := movs_stored hh hsep hread hwrite
  have hview : t.view = _ := movs_loop hh w hrep
  have hbytes : t.mem.bytes = copies z.bytes src dst s.count s.mem.bytes :=
    (congrArg (·.mem.bytes) hview).trans hst.bytes
  refine ⟨hst.strides.behind (by decide) hview, ?_, hbytes, ?_, ?_, fun hlimit => ?_⟩
  · exact (congrArg (·.cpu.eflg) hview).trans hst.flags
  · intro i hi hearlier hlater j hj
    rw [hbytes]
    refine copies_at z.bytes_range hi hearlier (fun k hik hk => ?_) hj
    exact (elementAt_apart s.cpu w .es .di k i).resolve_left (hlater k hik hk)
  · intro p hp hdst hsrc i hi j hj
    rw [hbytes]
    refine copies_repeat z.bytes_range hp hdst (fun a ha b hb => ?_) hi hj
    exact (elementAt_apart s.cpu w s.cpu.dataSeg .si b a).resolve_left (hsrc a ha b hb)
  · exact (congrArg (·.intr) hview).trans (hst.intr hlimit)

end

/-- `rep stosb` with 3 in `CX`. -/
theorem rep_stos_fills_three :
    let s : St :=
      { cpu := { resetCpu.setGen .cx 3 with mode := { repe := true } }, mem := fullMem fun _ => 1 }
    Behind false [.di] 3 s (after (defaultHost fun _ _ _ => 0) (oneByte (stosOp false)) s) := by
  intro s
  have hwrite : ∀ n a, s.mem.Permits permW n a := fun n a => (fullMem_ram (fun _ => 1) n a).2
  exact (rep_stos_fills (defaultHost_default fun _ _ _ => 0).blind false (s := s) (fullMem_sep _)
    rfl fun _ _ => hwrite _ _).1

/-- `rep movsb` with 3 in `CX` and a destination one byte behind the source: all the bytes become
the first one. -/
theorem rep_movs_copies_repeat :
    let s : St :=
      { cpu := { (resetCpu.setGen .cx 3).setGen .di 1 with mode := { repe := true } }
        mem := fullMem fun i => i.setWidth 8 + 1 }
    let t := after (defaultHost fun _ _ _ => 0) (oneByte (movsOp false)) s
    ∀ i < 4, t.mem.bytes (s.cpu.elementAt false .ds .si i + BitVec.ofNat 32 0) = 1 := by
  intro s t i hi
  have hram : ∀ n a, s.mem.Ram n a := fullMem_ram fun i => i.setWidth 8 + 1
  have hcopies := rep_movs_copies (defaultHost_default fun _ _ _ => 0).blind false (s := s)
    (fullMem_sep _) rfl (fun _ _ => (hram _ _).1) fun _ _ => (hram _ _).2
  obtain ⟨-, -, -, -, hrepeat, -⟩ := hcopies
  have hfirst := hrepeat 1 Nat.one_pos (by decide) (by decide) i hi 0 (by decide)
  rw [Nat.mod_one] at hfirst
  exact hfirst.trans (by decide)

end X86Emu
