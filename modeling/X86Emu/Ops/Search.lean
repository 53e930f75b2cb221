import X86Emu.Ops.Blocks

/-!
# Searches

`repe` and `repne` with `scas` and `cmps` against a search for the first element that differs, or
that does not. The conditions are those of the last pair of elements compared. So after `repe cmps`
they are the order of the two blocks, in which the first difference decides.
-/

namespace X86Emu

open Lib

/-! ## Flags -/

theorem subFlags_subFlags (w v : Nat) (d s r d' s' r' fl : U32) :
    ((subFlags w d s r).run () ((subFlags v d' s' r').run () fl).2).2 =
      ((subFlags w d s r).run () fl).2 := by
  apply BitVec.eq_of_getLsbD_eq
  intro i hi
  unfold subFlags setResFlags setChainFlags
  simp only [Prog.run_bind, getLsbD_condSet]
  split_ifs <;> rfl

theorem subFlags_clear (w : Nat) (d s r fl : U32) :
    ((subFlags w d s r).run () ((clearFlag .cf).run () fl).2).2 =
      ((subFlags w d s r).run () fl).2 := by
  rw [show clearFlag .cf = condSet false .cf from rfl]
  apply BitVec.eq_of_getLsbD_eq
  intro i hi
  unfold subFlags setResFlags setChainFlags
  simp only [Prog.run_bind, getLsbD_condSet]
  split_ifs <;> rfl

/-- The flags after a comparison. -/
def cmpFlags (z : OpSize) (d s : BitVec z.bits) (fl : U32) : U32 := ((cmpSize z d s).run () fl).2

theorem cmpFlags_eq (z : OpSize) (d s : BitVec z.bits) (fl : U32) : cmpFlags z d s fl =
    ((subFlags z.bits (widen d) (widen s) (widen d - widen s)).run () fl).2 := by
  cases z with
  | byte => exact subFlags_clear 8 _ _ _ fl
  | word => rfl
  | long => rfl

/-- A comparison decides all that another one before it did. -/
theorem cmpFlags_cmpFlags (z : OpSize) (d s d' s' : BitVec z.bits) (fl : U32) :
    cmpFlags z d s (cmpFlags z d' s' fl) = cmpFlags z d s fl := by
  rw [cmpFlags_eq, cmpFlags_eq, cmpFlags_eq, subFlags_subFlags]

theorem cmpFlags_df (z : OpSize) (d s : BitVec z.bits) (fl : U32) :
    (cmpFlags z d s fl).getLsbD Flag.df.bit = fl.getLsbD Flag.df.bit := by
  rw [cmpFlags_eq]
  exact subFlags_flag _ _ _ _ fl .df

theorem cmpFlags_conditions (z : OpSize) (d s : BitVec z.bits) {c : Cpu} {fl : U32}
    (hc : c.eflg = cmpFlags z d s fl) (cc : BitVec 4) :
    evalCondition c cc = true ↔ ComparesCc d s cc := by
  refine evalCondition_iff cc fun type => ?_
  rw [← baseCondition_cmp z d s { c with eflg := fl } type]
  have hflag : ∀ f, c.flag f =
      (({ c with eflg := fl } : Cpu).afterFlags (cmpSize z d s)).flag f := by
    intro f
    unfold Cpu.flag
    rw [hc]
    rfl
  unfold baseCondition
  simp only [hflag]

/-! ## Loops -/

/-- `scasb` and `scasw` -/
def scasOp (w : Bool) : U8 := if w then 0xaf else 0xae

/-- `cmpsb` and `cmpsw` -/
def cmpsOp (w : Bool) : U8 := if w then 0xa7 else 0xa6

theorem oneByte_scas (w : Bool) : oneByte (scasOp w) = Op.scas w := by
  cases w with
  | false => exact oneByte_eq (f := Op.scasByte) 0xae rfl
  | true => exact oneByte_eq (f := Op.scasWord) 0xaf rfl

theorem oneByte_cmps (w : Bool) : oneByte (cmpsOp w) = Op.cmps w := by
  cases w with
  | false => exact oneByte_eq (f := Op.cmpsByte) 0xa6 rfl
  | true => exact oneByte_eq (f := Op.cmpsWord) 0xa7 rfl

/-- One step of `scas`. -/
def scasStep (w a32 : Bool) (inc : U32) : Emu Unit := do
  Op.scasCompare w a32
  addIdx a32 .di inc

/-- One step of `cmps`. -/
def cmpsStep (w a32 : Bool) (inc : U32) : Emu Unit := do
  Op.cmpsCompare w a32
  do addIdx a32 .si inc; addIdx a32 .di inc

section

variable {inp : PortInput} {h : Host} (hh : h.Blind inp)

include hh

/-- The loop of a repeated comparison. -/
theorem comparing_loop {x compare advance : Emu Unit} {s : St}
    (hcmp : Steady h s.cpu.mode.addr32 compare) (hadv : Steady h s.cpu.mode.addr32 advance)
    (hx : seen h x s = seen h (Op.repCompare s.cpu.mode.addr32 compare advance) s)
    (hrep : s.cpu.mode.rep = true) :
    ∃ k, FirstStop (fun i => RepExits s.cpu.mode ((after h (do compare; advance))^[i] s))
        s.count k ∧
      (after h x s).view = (((after h (do compare; advance))^[k] s).counted
        (idxAdd s.cpu.mode.addr32 (-BitVec.ofNat 32 k) (s.cpu.gen .cx)) s.cpu.mode.repe
        s.cpu.mode.repne).view := by
  have hn : ((s.cpu.setGen .cx (s.cpu.gen .cx)).idx s.cpu.mode.addr32 .cx).toNat = s.count := by
    rw [setGen_gen_self]
    rfl
  obtain ⟨k, hk, hloop⟩ := repWhile_after hh hcmp hadv (Op.repCond s.cpu.mode) s.cpu.mode.repe
    s.cpu.mode.repne s.count s (s.cpu.gen .cx) hn
  rw [counted_self] at hloop
  have hexits := fun i => evalCondition_repCond s.cpu.mode ((after h (do compare; advance))^[i] s)
  refine ⟨k, ⟨hk.le, fun i hi hlt => ?_, ?_⟩, ?_⟩
  · exact mt (hexits i).mpr (hk.before i hi hlt)
  · exact hk.stops.imp_right fun ⟨hpos, hat⟩ => ⟨hpos, (hexits k).mp hat⟩
  · exact (congrArg Prod.snd (hx.trans (seen_repCompare_rep hh _ _ _ hrep))).trans hloop

theorem scas_loop (w : Bool) {s : St} (hrep : s.cpu.mode.rep = true) :
    ∃ k, FirstStop (fun i => RepExits s.cpu.mode
        ((after h (scasStep w s.cpu.mode.addr32 (s.cpu.stringInc w)))^[i] s)) s.count k ∧
      (after h (oneByte (scasOp w)) s).view =
        (((after h (scasStep w s.cpu.mode.addr32 (s.cpu.stringInc w)))^[k] s).counted
          (idxAdd s.cpu.mode.addr32 (-BitVec.ofNat 32 k) (s.cpu.gen .cx)) s.cpu.mode.repe
          s.cpu.mode.repne).view := by
  rw [oneByte_scas]
  refine comparing_loop hh (scasCompare_steady hh w _) (Steady.addIdx (by decide) _) ?_ hrep
  unfold Op.scas
  rw [seen_step hh (seen_stringHead hh w _ _ _ s), seen_step hh (seen_getMode s)]

theorem cmps_loop (w : Bool) {s : St} (hrep : s.cpu.mode.rep = true) :
    ∃ k, FirstStop (fun i => RepExits s.cpu.mode
        ((after h (cmpsStep w s.cpu.mode.addr32 (s.cpu.stringInc w)))^[i] s)) s.count k ∧
      (after h (oneByte (cmpsOp w)) s).view =
        (((after h (cmpsStep w s.cpu.mode.addr32 (s.cpu.stringInc w)))^[k] s).counted
          (idxAdd s.cpu.mode.addr32 (-BitVec.ofNat 32 k) (s.cpu.gen .cx)) s.cpu.mode.repe
          s.cpu.mode.repne).view := by
  rw [oneByte_cmps]
  refine comparing_loop hh (cmpsCompare_steady hh w _) (cmpsAdvance_steady hh _ _) ?_ hrep
  unfold Op.cmps
  rw [seen_step hh (seen_stringHead hh w _ _ _ s), seen_step hh (seen_getMode s)]

omit hh in
theorem dataVal_num (s : St) (z : OpSize) (seg : SegReg) (ofs : U32) :
    (s.dataVal z.width seg ofs).setWidth z.bits = s.mem.num z (s.cpu.linear seg ofs) := rfl

omit hh in
theorem loaded_marked (s : St) (width : MemioWidth) (seg : SegReg) (ofs : U32) :
    s.mem.Marked (s.loaded width seg ofs).mem := by
  rw [loaded_mem]
  exact .access (by decide) _ _ _ s.mem

theorem seen_scasStep (w a32 : Bool) (inc : U32) {s : St} {z : OpSize}
    (hz : s.cpu.mode.opSize w = z) :
    seen h (scasStep w a32 inc) s =
      ((), (((s.loaded z.width .es (s.cpu.idx a32 .di)).put (·.flagged (cmpSize z
        (s.cpu.getReg z 0) (s.mem.num z (s.cpu.linear .es (s.cpu.idx a32 .di)))))).put
          (·.moved a32 .di inc)).view) := by
  subst hz
  have hcmp : seen h (Op.scasCompare w a32) s =
      seen h (do let _ ← flags (cmpSize (s.cpu.mode.opSize w) (s.cpu.getReg _ 0)
        (s.mem.num _ (s.cpu.linear .es (s.cpu.idx a32 .di)))); pure ())
        (s.loaded (s.cpu.mode.opSize w).width .es (s.cpu.idx a32 .di)) := by
    unfold Op.scasCompare
    rw [seen_step hh (seen_opSize w s), seen_step hh (seen_getIdx a32 .di s),
      seen_step hh (seen_fetchDataSizeAbs hh _ .es _ s), seen_step hh (seen_getReg _ 0 _),
      loaded_cpu, dataVal_num]
  rw [seen_step hh (seen_flags _ _)] at hcmp
  unfold scasStep
  rw [seen_step hh hcmp]
  exact seen_addIdx a32 .di inc _

theorem seen_cmpsStep (w a32 : Bool) (inc : U32) {s : St} {z : OpSize}
    (hz : s.cpu.mode.opSize w = z) :
    seen h (cmpsStep w a32 inc) s =
      ((), ((((((s.loaded z.width s.cpu.dataSeg (s.cpu.idx a32 .si)).loaded z.width .es
        (s.cpu.idx a32 .di)).put (·.flagged (cmpSize z
          (s.mem.num z (s.cpu.linear s.cpu.dataSeg (s.cpu.idx a32 .si)))
          (s.mem.num z (s.cpu.linear .es (s.cpu.idx a32 .di)))))).put (·.moved a32 .si inc)).put
        (·.moved a32 .di inc))).view) := by
  subst hz
  have hcmp : seen h (Op.cmpsCompare w a32) s =
      seen h (do let _ ← flags (cmpSize (s.cpu.mode.opSize w)
        (s.mem.num _ (s.cpu.linear s.cpu.dataSeg (s.cpu.idx a32 .si)))
        (s.mem.num _ (s.cpu.linear .es (s.cpu.idx a32 .di)))); pure ())
        ((s.loaded (s.cpu.mode.opSize w).width s.cpu.dataSeg (s.cpu.idx a32 .si)).loaded
          (s.cpu.mode.opSize w).width .es (s.cpu.idx a32 .di)) := by
    unfold Op.cmpsCompare
    rw [seen_step hh (seen_opSize w s), seen_step hh (seen_getIdx a32 .si s),
      seen_step hh (seen_fetchDataSize hh _ _ s), seen_step hh (seen_getIdx a32 .di _),
      seen_step hh (seen_fetchDataSizeAbs hh _ .es _ _), dataVal_num, dataVal_num, loaded_cpu,
      (loaded_marked s _ _ _).num]
  rw [seen_step hh (seen_flags _ _)] at hcmp
  unfold cmpsStep
  rw [seen_step hh hcmp, seen_step hh (seen_addIdx a32 .si inc _)]
  exact seen_addIdx a32 .di inc _

end

/-! ## Elements compared one by one -/

/-- The flags after the pairs of elements before `k`, which are those of the last one. -/
def flagsBehind {z : OpSize} (a b : Nat → BitVec z.bits) (fl : U32) : Nat → U32
  | 0 => fl
  | k + 1 => cmpFlags z (a k) (b k) fl

/-- Between a state and the one after `k` comparisons, of `a i` with `b i`, where `quiet i` says
that these elements are inside of the segments. -/
structure Compared (w : Bool) (rs : List Reg) (s : St)
    (a b : Nat → BitVec (s.cpu.mode.opSize w).bits) (quiet : Nat → Prop) (k : Nat) (t : St) :
    Prop where
  strides : Strides w rs k s t
  marked : s.mem.Marked t.mem
  flags : t.cpu.eflg = flagsBehind a b s.cpu.eflg k
  intr : (∀ i < k, quiet i) → t.intr = s.intr

/-- The search ends behind element `k`: behind the first pair that is equal under REPNE, or not
equal under REPE, or behind all of them. -/
structure Finds (w : Bool) (rs : List Reg) (s : St)
    (a b : Nat → BitVec (s.cpu.mode.opSize w).bits) (quiet : Nat → Prop) (k : Nat) (t : St) :
    Prop where
  stop : FirstStop (fun i => a (i - 1) = b (i - 1) ↔ s.cpu.mode.repe = false) s.count k
  behind : Behind w rs k s t
  marked : s.mem.Marked t.mem
  flags : t.cpu.eflg = flagsBehind a b s.cpu.eflg k
  conditions : 0 < k → ∀ cc, evalCondition t.cpu cc = true ↔ ComparesCc (a (k - 1)) (b (k - 1)) cc
  intr : (∀ i < k, quiet i) → t.intr = s.intr

section

variable {w : Bool} {rs : List Reg} {s : St} {a b : Nat → BitVec (s.cpu.mode.opSize w).bits}
  {quiet : Nat → Prop}

theorem flagsBehind_succ {z : OpSize} (a b : Nat → BitVec z.bits) (fl : U32) (k : Nat) :
    cmpFlags z (a k) (b k) (flagsBehind a b fl k) = flagsBehind a b fl (k + 1) := by
  cases k with
  | zero => rfl
  | succ k => exact cmpFlags_cmpFlags z _ _ _ _ fl

/-- What one step keeps, a loop of them keeps. -/
theorem compared_run {h : Host} {x : Emu Unit}
    (hstep : ∀ k t, Compared w rs s a b quiet k t → Compared w rs s a b quiet (k + 1) (after h x t))
    (k : Nat) : Compared w rs s a b quiet k ((after h x)^[k] s) := by
  induction k with
  | zero => exact ⟨.zero w rs s, .refl s.mem, rfl, fun _ => rfl⟩
  | succ k ih =>
    rw [Function.iterate_succ_apply']
    exact hstep k _ ih

theorem Compared.exits {k : Nat} {t : St} (ht : Compared w rs s a b quiet (k + 1) t) :
    RepExits s.cpu.mode t ↔ (a k = b k ↔ s.cpu.mode.repe = false) := by
  have hzero : t.cpu.flag .zf = true ↔ a k = b k := cmpFlags_conditions _ _ _ ht.flags 4
  unfold RepExits
  rw [← hzero]
  cases t.cpu.flag .zf <;> cases s.cpu.mode.repe <;> decide

/-- The loop of comparisons ends where the search does. -/
theorem finds_of_loop {h : Host} {x : Emu Unit} {k : Nat} {t : St} (hcx : .cx ∉ rs)
    (hrun : ∀ i, Compared w rs s a b quiet i ((after h x)^[i] s))
    (hstop : FirstStop (fun i => RepExits s.cpu.mode ((after h x)^[i] s)) s.count k)
    (hview : t.view = (((after h x)^[k] s).counted
      (idxAdd s.cpu.mode.addr32 (-BitVec.ofNat 32 k) (s.cpu.gen .cx)) s.cpu.mode.repe
      s.cpu.mode.repne).view) : Finds w rs s a b quiet k t := by
  have hexits : ∀ i, 0 < i → (RepExits s.cpu.mode ((after h x)^[i] s) ↔
      (a (i - 1) = b (i - 1) ↔ s.cpu.mode.repe = false)) := by
    intro i hi
    obtain ⟨j, rfl⟩ : ∃ j, i = j + 1 := ⟨i - 1, by omega⟩
    exact (hrun (j + 1)).exits
  have hflags : t.cpu.eflg = flagsBehind a b s.cpu.eflg k :=
    (congrArg (·.cpu.eflg) hview).trans (hrun k).flags
  refine ⟨⟨hstop.le, fun i hi hlt => ?_, ?_⟩, (hrun k).strides.behind hcx hview, ?_, hflags, ?_, ?_⟩
  · exact mt (hexits i hi).mpr (hstop.before i hi hlt)
  · exact hstop.stops.imp_right fun ⟨hpos, hat⟩ => ⟨hpos, (hexits k hpos).mp hat⟩
  · have hmem : t.mem = ((after h x)^[k] s).mem := congrArg (·.mem) hview
    exact hmem ▸ (hrun k).marked
  · intro hpos cc
    obtain ⟨j, rfl⟩ : ∃ j, k = j + 1 := ⟨k - 1, by omega⟩
    exact cmpFlags_conditions _ _ _ hflags cc
  · exact fun hquiet => (congrArg (·.intr) hview).trans ((hrun k).intr hquiet)

end

theorem getReg_zero_congr {c c' : Cpu} (hax : c'.gen .ax = c.gen .ax) (z : OpSize) :
    c'.getReg z 0 = c.getReg z 0 := by
  cases z with
  | byte => exact congrArg (fun v : U32 => v.extractLsb' 0 8) hax
  | word => exact congrArg (BitVec.setWidth 16) hax
  | long => exact hax

section

variable {inp : PortInput} {h : Host} (hh : h.Blind inp) (w : Bool) (s : St)

include hh

theorem scas_compared (k : Nat) :
    Compared w [.di] s (fun _ => s.cpu.getReg (s.cpu.mode.opSize w) 0)
      (fun i => s.mem.num (s.cpu.mode.opSize w) (s.cpu.elementAt w .es .di i))
      (fun i => s.cpu.InLimit w .es (s.cpu.elementOfs w .di i)) k
      ((after h (scasStep w s.cpu.mode.addr32 (s.cpu.stringInc w)))^[k] s) := by
  refine compared_run (fun k t ht => ?_) k
  have hst := ht.strides
  have hdi : Reg.di ∈ [Reg.di] := List.mem_singleton.mpr rfl
  have hview := congrArg Prod.snd (seen_scasStep hh w s.cpu.mode.addr32 (s.cpu.stringInc w)
    (s := t) (congrArg (·.opSize w) hst.mode))
  have hacc : t.cpu.getReg (s.cpu.mode.opSize w) 0 = s.cpu.getReg (s.cpu.mode.opSize w) 0 :=
    getReg_zero_congr (by rw [hst.gen, if_neg (by decide)]) _
  rw [hacc, hst.linear .es hdi, ht.marked.num] at hview
  have hcpu : (after h (scasStep w s.cpu.mode.addr32 (s.cpu.stringInc w)) t).cpu =
      { t.cpu.moved t.cpu.mode.addr32 .di (t.cpu.stringInc w) with
        eflg := cmpFlags _ (s.cpu.getReg (s.cpu.mode.opSize w) 0)
          (s.mem.num _ (s.cpu.elementAt w .es .di k)) t.cpu.eflg } := by
    refine (congrArg (·.cpu) hview).trans ?_
    show ((t.loaded _ _ _).cpu.flagged _).moved _ _ _ = _
    rw [loaded_cpu, hst.mode, hst.stringInc]
    rfl
  refine ⟨hst.succ (.one_di (cmpFlags_df _ _ _ _) hcpu), ?_, ?_, fun hquiet => ?_⟩
  · have hmem : (after h (scasStep w s.cpu.mode.addr32 (s.cpu.stringInc w)) t).mem =
        (t.loaded _ _ _).mem := congrArg (·.mem) hview
    rw [hmem]
    exact ht.marked.trans (loaded_marked t _ _ _)
  · rw [hcpu, ← flagsBehind_succ, ← ht.flags]
  · have hlimit := (hst.inLimit .es hdi).mpr (hquiet k (Nat.lt_succ_self k))
    have hkeep := loaded_intr hlimit
    rw [hst.mode] at hkeep
    exact ((congrArg (·.intr) hview).trans hkeep).trans
      (ht.intr fun i hi => hquiet i (Nat.lt_succ_of_lt hi))

theorem cmps_compared (k : Nat) :
    Compared w [.si, .di] s
      (fun i => s.mem.num (s.cpu.mode.opSize w) (s.cpu.elementAt w s.cpu.dataSeg .si i))
      (fun i => s.mem.num (s.cpu.mode.opSize w) (s.cpu.elementAt w .es .di i))
      (fun i => s.cpu.InLimit w s.cpu.dataSeg (s.cpu.elementOfs w .si i) ∧
        s.cpu.InLimit w .es (s.cpu.elementOfs w .di i)) k
      ((after h (cmpsStep w s.cpu.mode.addr32 (s.cpu.stringInc w)))^[k] s) := by
  refine compared_run (fun k t ht => ?_) k
  have hst := ht.strides
  have hsi : Reg.si ∈ [Reg.si, Reg.di] := by decide
  have hdi : Reg.di ∈ [Reg.si, Reg.di] := by decide
  have hview := congrArg Prod.snd (seen_cmpsStep hh w s.cpu.mode.addr32 (s.cpu.stringInc w)
    (s := t) (congrArg (·.opSize w) hst.mode))
  rw [hst.dataSeg, hst.linear s.cpu.dataSeg hsi, hst.linear .es hdi, ht.marked.num,
    ht.marked.num] at hview
  have hcpu : (after h (cmpsStep w s.cpu.mode.addr32 (s.cpu.stringInc w)) t).cpu =
      { (t.cpu.moved t.cpu.mode.addr32 .si (t.cpu.stringInc w)).moved t.cpu.mode.addr32 .di
          (t.cpu.stringInc w) with
        eflg := cmpFlags (s.cpu.mode.opSize w)
          (s.mem.num _ (s.cpu.elementAt w s.cpu.dataSeg .si k))
          (s.mem.num _ (s.cpu.elementAt w .es .di k)) t.cpu.eflg } := by
    refine (congrArg (·.cpu) hview).trans ?_
    show (((St.loaded _ _ _ _).cpu.flagged _).moved _ _ _).moved _ _ _ = _
    rw [loaded_cpu, loaded_cpu, hst.mode, hst.stringInc]
    rfl
  refine ⟨hst.succ (.one_si_di (cmpFlags_df _ _ _ _) hcpu), ?_, ?_, fun hquiet => ?_⟩
  · have hmem : (after h (cmpsStep w s.cpu.mode.addr32 (s.cpu.stringInc w)) t).mem =
        (St.loaded (t.loaded _ _ _) _ _ _).mem := congrArg (·.mem) hview
    rw [hmem]
    exact (ht.marked.trans (loaded_marked t _ _ _)).trans (loaded_marked _ _ _ _)
  · rw [hcpu, ← flagsBehind_succ, ← ht.flags]
  · obtain ⟨hsrc, hdst⟩ := hquiet k (Nat.lt_succ_self k)
    have hfirst := loaded_intr ((hst.inLimit s.cpu.dataSeg hsi).mpr hsrc)
    have hlimit := (hst.inLimit .es hdi).mpr hdst
    rw [hst.mode] at hfirst
    rw [← loaded_cpu t (s.cpu.mode.opSize w).width s.cpu.dataSeg
      (t.cpu.idx s.cpu.mode.addr32 .si)] at hlimit
    have hsecond := loaded_intr hlimit
    rw [loaded_cpu, hst.mode] at hsecond
    exact (((congrArg (·.intr) hview).trans hsecond).trans hfirst).trans
      (ht.intr fun i hi => hquiet i (Nat.lt_succ_of_lt hi))

end

/-! ## The instructions -/

section

variable {inp : PortInput} {h : Host} (hh : h.Blind inp) (w : Bool)

include hh

/-- `repe scas` and `repne scas` search a block for the first element that is not, or that is, the
accumulator. -/
theorem rep_scas_finds {s : St} (hrep : s.cpu.mode.rep = true) :
    ∃ k, Finds w [.di] s (fun _ => s.cpu.getReg (s.cpu.mode.opSize w) 0)
      (fun i => s.mem.num (s.cpu.mode.opSize w) (s.cpu.elementAt w .es .di i))
      (fun i => s.cpu.InLimit w .es (s.cpu.elementOfs w .di i)) k
      (after h (oneByte (scasOp w)) s) := by
  obtain ⟨k, hstop, hview⟩ := scas_loop hh w hrep
  exact ⟨k, finds_of_loop (by decide) (scas_compared hh w s) hstop hview⟩

/-- `repe cmps` and `repne cmps` search two blocks for the first pair of elements that are not, or
that are, equal. After `repe` the conditions compare the blocks: they are equal, or the first
difference orders them, as unsigned or as signed numbers. -/
theorem rep_cmps_orders {s : St} (hrep : s.cpu.mode.rep = true) :
    let z := s.cpu.mode.opSize w
    let t := after h (oneByte (cmpsOp w)) s
    let a := fun i => s.mem.num z (s.cpu.elementAt w s.cpu.dataSeg .si i)
    let b := fun i => s.mem.num z (s.cpu.elementAt w .es .di i)
    let src := (List.range s.count).map a
    let dst := (List.range s.count).map b
    (∃ k, Finds w [.si, .di] s a b (fun i =>
      s.cpu.InLimit w s.cpu.dataSeg (s.cpu.elementOfs w .si i) ∧
        s.cpu.InLimit w .es (s.cpu.elementOfs w .di i)) k t) ∧
    (s.cpu.mode.repe = true → 0 < s.count →
      (evalCondition t.cpu 4 = true ↔ src = dst) ∧ (evalCondition t.cpu 2 = true ↔ src < dst) ∧
      (evalCondition t.cpu 12 = true ↔ src.map BitVec.toInt < dst.map BitVec.toInt)) := by
  intro z t a b src dst
  obtain ⟨k, hstop, hview⟩ := cmps_loop hh w hrep
  have hfinds := finds_of_loop (by decide) (cmps_compared hh w s) hstop hview
  refine ⟨⟨k, hfinds⟩, fun hrepe hcount => ?_⟩
  -- the pairs before the last one compared are equal
  have hpair : ∀ i, (a i = b i ↔ s.cpu.mode.repe = false) ↔ a i ≠ b i := by
    intro i
    rw [hrepe]
    simp
  have hpos : 0 < k := by
    rcases hfinds.stop.stops with rfl | ⟨hpos, -⟩
    · exact hcount
    · exact hpos
  have heq : ∀ i < k - 1, a i = b i := by
    intro i hi
    by_contra hne
    exact hfinds.stop.before (i + 1) i.succ_pos (by omega) ((hpair i).mpr hne)
  have hle := hfinds.stop.le
  have hlast : a (k - 1) ≠ b (k - 1) ∨ k - 1 + 1 = s.count := by
    rcases hfinds.stop.stops with hall | ⟨-, hat⟩
    · exact Or.inr (by omega)
    · exact Or.inl ((hpair (k - 1)).mp hat)
  have hcond := hfinds.conditions hpos
  refine ⟨(hcond 4).trans ?_, (hcond 2).trans ?_, (hcond 12).trans ?_⟩
  · rw [map_range_eq_iff]
    refine ⟨fun hsame i hi => ?_, fun hall => hall (k - 1) (by omega)⟩
    have hend := hlast.resolve_left fun hne => hne hsame
    rcases (show i < k - 1 ∨ i = k - 1 by omega) with hlt | rfl
    · exact heq i hlt
    · exact hsame
  · exact (map_range_lt_iff (fun x => BitVec.lt_irrefl x) (by omega) heq hlast).symm
  · rw [List.map_map, List.map_map]
    refine (map_range_lt_iff (a := BitVec.toInt ∘ a) (b := BitVec.toInt ∘ b)
      (fun x => Int.lt_irrefl x) (by omega) (fun i hi => congrArg BitVec.toInt (heq i hi)) ?_).symm
    exact hlast.imp_left fun hne => mt BitVec.toInt_inj.mp hne

end

/-- `repne scasb` with 3 in `CX`. -/
theorem rep_scas_finds_three :
    let s : St :=
      { cpu := { resetCpu.setGen .cx 3 with mode := { repne := true } }, mem := fullMem fun _ => 1 }
    ∃ k, Finds false [.di] s (fun _ => s.cpu.getReg .byte 0)
      (fun i => s.mem.num .byte (s.cpu.elementAt false .es .di i))
      (fun i => s.cpu.InLimit false .es (s.cpu.elementOfs false .di i)) k
      (after (defaultHost fun _ _ _ => 0) (oneByte (scasOp false)) s) :=
  rep_scas_finds (defaultHost_default _).blind false rfl

/-- `repe cmpsb` with 3 in `CX`, of the bytes from 0 on and those from 1 on: `jb` jumps. -/
theorem rep_cmps_orders_below :
    let s : St :=
      { cpu := { (resetCpu.setGen .cx 3).setGen .di 1 with mode := { repe := true } }
        mem := fullMem fun i => i.setWidth 8 }
    evalCondition (after (defaultHost fun _ _ _ => 0) (oneByte (cmpsOp false)) s).cpu 2 = true := by
  intro s
  have hrep : s.cpu.mode.rep = true := rfl
  have horders := (rep_cmps_orders (defaultHost_default fun _ _ _ => 0).blind false hrep).2 rfl
    (by decide)
  exact horders.2.1.mpr (by decide)

end X86Emu
