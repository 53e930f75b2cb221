import X86Emu.Run.Ends
import X86Emu.Run.Inert
import X86Emu.Run.PortProtection

/-!
# Runs in slices

A run that is stopped by its instruction limit can be taken up again with another call of
`x86emu_run`: however a run is cut into slices, its last slice returns what the whole run returns,
in a state that only differs in what a run does not look at, `x86emuRun_slices`.
-/

namespace X86Emu

open Lib

/-! ## Fuel

What has ended ends the same way with more fuel. -/

theorem prefixLoop_more {h : Host} {n m : Nat} {s t : St} {op1 : U8}
    (hend : prefixLoop h n s = (some op1, t)) (hle : n ≤ m) :
    prefixLoop h m s = (some op1, t) := by
  induction n generalizing m s with
  | zero => cases hend
  | succ n ih =>
    obtain ⟨m, rfl⟩ := Nat.exists_eq_add_of_le' (Nat.one_le_of_lt hle)
    unfold prefixLoop at hend ⊢
    dsimp only at hend ⊢
    cases hf : prefixEffect (fetchByte.run h s).1 with
    | some f =>
      rw [hf] at hend
      exact ih hend (Nat.le_of_succ_le_succ hle)
    | none =>
      rw [hf] at hend
      exact hend

section Fuel

variable {h : Host} {e : RunEnv} {fuel : Nat} (hfuel : e.fuel ≤ fuel)

include hfuel

theorem readOpcode_more {rs : U32} {s : St} (hend : (readOpcode h e rs s).1 ≠ .prefixes) :
    readOpcode h { e with fuel := fuel } rs s = readOpcode h e rs s := by
  unfold readOpcode at hend ⊢
  rcases hloop : prefixLoop h e.fuel (startPrefixes s) with ⟨_ | op1, t⟩
  · rw [hloop] at hend
    exact absurd rfl hend
  · rw [prefixLoop_more hloop hfuel]
    rfl

theorem runChecks_more {rs : U32} {s : St} (hend : (runChecks h e rs s).1 ≠ .prefixes) :
    runChecks h { e with fuel := fuel } rs s = runChecks h e rs s := by
  have hmax : maxInstrReached { e with fuel := fuel } s = maxInstrReached e s := rfl
  have hlate : timedOut h { e with fuel := fuel } s = timedOut h e s := rfl
  unfold runChecks at hend ⊢
  rw [hmax, hlate]
  split
  · rfl
  · rename_i hgo
    rw [if_neg hgo] at hend
    dsimp only at hend ⊢
    split
    · rfl
    · rename_i hgo
      rw [if_neg hgo] at hend
      split
      · rfl
      · rename_i hgo
        rw [if_neg hgo] at hend
        exact readOpcode_more hfuel hend

theorem runIter_more {rs : U32} {s : St} (hend : (runIter h e rs s).1 ≠ .prefixes) :
    runIter h { e with fuel := fuel } rs s = runIter h e rs s := by
  have hchecks : (runChecks h e rs (logRegs h (startInstr s))).1 ≠ .prefixes := by
    intro hprefixes
    unfold runIter at hend
    generalize runChecks h e rs (logRegs h (startInstr s)) = p at hend hprefixes
    obtain ⟨checked, t⟩ := p
    obtain rfl : checked = .prefixes := hprefixes
    exact hend rfl
  unfold runIter
  rw [runChecks_more hfuel hchecks]
  rfl

theorem runLoop_more {n m : Nat} {rs rs' : U32} {s t : St} (hle : n ≤ m)
    (hend : runLoop h e n rs s = (some rs', t)) :
    runLoop h { e with fuel := fuel } m rs s = (some rs', t) := by
  induction n generalizing m rs s with
  | zero => cases hend
  | succ n ih =>
    obtain ⟨m, rfl⟩ := Nat.exists_eq_add_of_le' (Nat.one_le_of_lt hle)
    have hiter : (runIter h e rs s).1 ≠ .prefixes := by
      intro hprefixes
      unfold runLoop at hend
      generalize runIter h e rs s = p at hend hprefixes
      obtain ⟨next, t⟩ := p
      obtain rfl : next = .prefixes := hprefixes
      cases hend
    unfold runLoop at hend ⊢
    rw [runIter_more hfuel hiter]
    generalize runIter h e rs s = p at hend
    obtain ⟨next, t⟩ := p
    cases next with
    | more rs' => exact ih (Nat.le_of_succ_le_succ hle) hend
    | stop rs' => exact hend
    | prefixes => cases hend

end Fuel

/-! ## The limit

Only the check of the instruction limit sets its bit. -/

def Checked.bits : Checked → U32
  | stop rs => rs
  | prefixes => 0
  | exec rs _ => rs

def Next.bits : Next → U32
  | more rs => rs
  | stop rs => rs
  | prefixes => 0

/-- The bit of the instruction limit is not set. -/
def Unlimited (rs : U32) : Prop := rs &&& runMaxInstr = 0

theorem Unlimited.or {rs flag : U32} (hrs : Unlimited rs) (hflag : Unlimited flag) :
    Unlimited (rs ||| flag) := by
  unfold Unlimited at hrs hflag ⊢
  rw [BitVec.and_or_distrib_right, hrs, hflag]
  rfl

/-- No other bit is set besides that of the limit. -/
theorem Unlimited.eq_zero {rs : U32} (hrs : Unlimited rs)
    (hmax : rs ||| runMaxInstr = runMaxInstr) : rs = 0 := by
  have hzero : rs &&& runMaxInstr = 0 := hrs
  calc rs = rs &&& (rs ||| runMaxInstr) := by
        rw [BitVec.and_or_distrib_left, BitVec.and_self, hzero]
        exact BitVec.or_zero.symm
    _ = rs &&& runMaxInstr := by rw [hmax]
    _ = 0 := hzero

section Limit

variable (h : Host) (e : RunEnv)

theorem checkOpcode_unlimited {rs : U32} (hrs : Unlimited rs) (op1 : U8) (s : St) :
    Unlimited (checkOpcode h e rs op1 s).1.bits := by
  unfold checkOpcode
  split
  · exact hrs.or (rfl : Unlimited runNoExec)
  · have hloop : Unlimited (checkLoop h e op1 rs s).1 := by
      rcases checkLoop_cases h e op1 rs s with ⟨_, hsame, _⟩ | ⟨_, _, _, hloop, _⟩
      · rw [hsame]
        exact hrs
      · rw [hloop]
        exact hrs.or (rfl : Unlimited runLoopFlag)
    show Unlimited (checkNoCode h e op1 (checkLoop h e op1 rs s).1 (checkLoop h e op1 rs s).2).1
    rcases checkNoCode_cases h e op1 (checkLoop h e op1 rs s).1 (checkLoop h e op1 rs s).2 with
      ⟨_, hsame, _⟩ | ⟨_, hcode, _⟩
    · rw [hsame]
      exact hloop
    · rw [hcode]
      exact hloop.or (rfl : Unlimited runNoCode)

theorem runChecks_unlimited {rs : U32} (hrs : Unlimited rs) {s : St}
    (hmax : maxInstrReached e s = false) : Unlimited (runChecks h e rs s).1.bits := by
  unfold runChecks
  rw [hmax, if_neg Bool.false_ne_true]
  dsimp only
  split
  · exact hrs.or (rfl : Unlimited runTimeout)
  · split
    · exact hrs.or (rfl : Unlimited runNoCode)
    · unfold readOpcode
      split
      · exact (rfl : Unlimited 0)
      · exact checkOpcode_unlimited h e hrs _ _

theorem runIter_unlimited {rs : U32} (hrs : Unlimited rs) {s : St}
    (hmax : maxInstrReached e (logRegs h (startInstr s)) = false) :
    Unlimited (runIter h e rs s).1.bits := by
  have hchecks := runChecks_unlimited h e hrs hmax
  unfold runIter
  generalize runChecks h e rs (logRegs h (startInstr s)) = p at hchecks ⊢
  obtain ⟨checked, t⟩ := p
  cases checked with
  | stop rs' => exact hchecks
  | prefixes => exact hchecks
  | exec rs' op1 =>
    dsimp only
    split
    · exact hchecks
    · exact hchecks

/-- An iteration that finds the limit reached. -/
theorem runIter_max {rs : U32} {s : St}
    (hmax : maxInstrReached e (logRegs h (startInstr s)) = true) :
    runIter h e rs s = (.stop (rs ||| runMaxInstr), logRegs h (startInstr s)) := by
  unfold runIter runChecks
  rw [if_pos hmax]

end Limit

/-! ## One cut -/

/-- The instruction limits of the slice and of the whole run. -/
abbrev Limits (a b : U64) (m n : U64) : Prop := m = a ∧ n = b

/-- The limit of the whole run is not reached before that of the slice. -/
theorem maxInstrReached_cut {h : Host} {e e' : RunEnv} {a b : U64} (hab : b = 0 ∨ a ≤ b)
    (hflags : e'.flags = e.flags) {s t : St} (ha : a ≠ 0) (hst : Alike h false (Limits a b) s t)
    (hmax : maxInstrReached e s = false) : maxInstrReached e' t = false := by
  obtain ⟨hs, ht⟩ := hst.limit
  rw [← Bool.not_eq_true, maxInstrReached_iff] at hmax ⊢
  rintro ⟨hflag, hlimit, hreached⟩
  rw [ht] at hlimit hreached
  rw [hflags] at hflag
  rw [hst.tsc] at hreached
  rcases hab with hb | hle
  · exact hlimit hb
  · exact hmax ⟨hflag, by rw [hs]; exact ha, by rw [hs]; exact BitVec.le_trans hle hreached⟩

/-- The whole run passes the point at which the slice has ended. -/
theorem runLoop_cut {inp : PortInput} {h : Host} (hh : h.Inert inp false) {e e' : RunEnv}
    (he : SameEnv false e e') {a b : U64} (ha : a ≠ 0) (hab : b = 0 ∨ a ≤ b) {n : Nat}
    {rs r : U32} {s t s₁ : St} (hrs : Unlimited rs) (hst : Alike h false (Limits a b) s t)
    (hslice : runLoop h e n rs s = (some r, s₁)) (hr : ¬Unlimited r) :
    ∃ j rs₁ s₀ t₀, j ≤ n ∧ Unlimited rs₁ ∧ r = rs₁ ||| runMaxInstr ∧
      s₁ = logRegs h (startInstr s₀) ∧ Alike h false (Limits a b) s₀ t₀ ∧
      ∀ k, runLoop h e' (j + k) rs t = runLoop h e' k rs₁ t₀ := by
  have htwins : TwinRule h e e' (Alike h false (Limits a b)) := alike_twins hh he
  induction n generalizing rs s t with
  | zero => cases hslice
  | succ n ih =>
    unfold runLoop at hslice
    by_cases hmax : maxInstrReached e (logRegs h (startInstr s)) = true
    · rw [runIter_max h e hmax] at hslice
      cases hslice
      refine ⟨0, rs, s, t, Nat.zero_le _, hrs, rfl, rfl, hst, fun k => ?_⟩
      rw [Nat.zero_add]
    · rw [Bool.not_eq_true] at hmax
      have hstart := htwins.startInstr hst
      have hmax' := maxInstrReached_cut hab he.flags ha hstart hmax
      obtain ⟨hres, hnext⟩ := htwins.runIter rs hstart (hmax.trans hmax'.symm)
      have hbits := runIter_unlimited h e hrs hmax
      generalize runIter h e rs s = p at hslice hres hnext hbits
      obtain ⟨next, u⟩ := p
      cases next with
      | prefixes => cases hslice
      | stop rs' =>
        cases hslice
        exact absurd hbits hr
      | more rs' =>
        obtain ⟨j, rs₁, s₀, t₀, hj, hrs₁, hr₁, hs₁, hst₀, hloop⟩ := ih hbits hnext hslice
        refine ⟨j + 1, rs₁, s₀, t₀, Nat.succ_le_succ hj, hrs₁, hr₁, hs₁, hst₀, fun k => ?_⟩
        rw [← hloop k, Nat.add_right_comm]
        conv_lhs => unfold runLoop
        generalize runIter h e' rs t = q at hres ⊢
        obtain ⟨next', v⟩ := q
        obtain rfl : Next.more rs' = next' := hres
        rfl

/-- `emu->max_instr = m` -/
def St.limited (s : St) (m : U64) : St := { s with maxInstr := m }

theorem endRun_frame (h : Host) (e : RunEnv) (rs : U32) (s : St) : ∃ buf v, endRun h e rs s =
    { s with
      log := { s.log with buf := buf }
      clock := s.clock + 1
      msr := Function.update s.msr 0x12 v } := by
  have hexit : ∃ buf, logExit rs s = { s with log := { s.log with buf := buf } } := by
    unfold logExit
    split
    · exact ⟨s.log.buf, rfl⟩
    · exact ⟨_, rfl⟩
  obtain ⟨buf, hbuf⟩ := hexit
  unfold endRun
  rw [hbuf]
  exact ⟨buf, _, rfl⟩

/-- What a call of `x86emu_run` takes up is what the slice has left. -/
theorem resume_alike {inp : PortInput} {h : Host} (hh : h.Inert inp false) (e : RunEnv)
    (flags : U32) (fuel : Nat) {a b : U64} {r : U32} {s₀ t₀ s₁ : St}
    (hst : Alike h false (Limits a b) s₀ t₀)
    (hs₁ : s₁ = endRun h e r (logRegs h (startInstr s₀)))
    (hiopl : s₁.io.ioplOk = !(s₁.io.ioplNeeded && !h.iopl3)) :
    Alike h false Eq (logRegs h (startInstr (beginRun h flags fuel (s₁.limited b)).2))
      (logRegs h (startInstr t₀)) := by
  have hstart : Alike h false (Limits a b) (startInstr s₀) (startInstr t₀) := hst.startInstr
  have hline : Alike h false (Limits a b) (logRegs h (startInstr s₀)) (startInstr t₀) :=
    (logBlind_left hh).line _ _ _ _ _ hstart
  have hend : Alike h false (Limits a b) s₁ (startInstr t₀) := by
    obtain ⟨buf, v, hframe⟩ := endRun_frame h e r (logRegs h (startInstr s₀))
    rw [hs₁, hframe]
    refine { hline with msr := fun u hu => ?_, clock := nofun }
    have hne : u ≠ 0x12 := by
      rintro rfl
      exact absurd hu (by decide)
    show (startInstr t₀).msr u = Function.update (logRegs h (startInstr s₀)).msr 0x12 v u
    rw [Function.update_of_ne hne]
    exact hline.msr u hu
  have hbegin : Alike h false Eq (beginRun h flags fuel (s₁.limited b)).2 (startInstr t₀) := by
    have hio : (beginRun h flags fuel (s₁.limited b)).2.io = s₁.io := by
      show { s₁.io with ioplOk := !(s₁.io.ioplNeeded && !h.iopl3) } = s₁.io
      rw [← hiopl]
    exact { hend with io := hio ▸ hend.io, limit := hend.limit.2.symm, clock := nofun }
  apply line_alike hh
  -- the instruction has been started before
  exact hbegin.startInstr

/-! ## Runs -/

/-- The run ends, with enough fuel. -/
def RunsTo (h : Host) (flags : U32) (s : St) (rs : U32) (t : St) : Prop :=
  ∃ fuel, x86emuRun h flags fuel s = (some rs, t)

theorem RunsTo.of_loop {h : Host} {flags rs : U32} {fuel n : Nat} {s u : St}
    (hloop : runLoop h (beginRun h flags fuel s).1 n 0 (beginRun h flags fuel s).2 =
      (some rs, u)) :
    RunsTo h flags s rs (endRun h (beginRun h flags fuel s).1 rs u) := by
  refine ⟨max fuel n, ?_⟩
  have hmore := runLoop_more (le_max_left fuel n) (le_max_right fuel n) hloop
  have hbegin : beginRun h flags (max fuel n) s =
    ({ (beginRun h flags fuel s).1 with fuel := max fuel n }, (beginRun h flags fuel s).2) := rfl
  unfold x86emuRun
  rw [hbegin]
  dsimp only
  rw [hmore]
  rfl

theorem RunsTo.loop {h : Host} {flags rs : U32} {s t : St} (hrun : RunsTo h flags s rs t) :
    ∃ m, ∀ fuel n, m ≤ fuel → m ≤ n → ∃ u,
      runLoop h (beginRun h flags fuel s).1 n 0 (beginRun h flags fuel s).2 = (some rs, u) ∧
        t = endRun h (beginRun h flags fuel s).1 rs u := by
  obtain ⟨m, hrun⟩ := hrun
  refine ⟨m, fun fuel n hfuel hn => ?_⟩
  unfold x86emuRun at hrun
  dsimp only at hrun
  rcases hloop : runLoop h (beginRun h flags m s).1 m 0 (beginRun h flags m s).2 with ⟨_ | rs', u⟩
  · rw [hloop] at hrun
    cases hrun
  · rw [hloop] at hrun
    cases hrun
    exact ⟨u, runLoop_more hfuel hn hloop, rfl⟩

theorem Both.right {α : Type} {E : St → St → Prop} {a : α} {s : St} {q : α × St}
    (hboth : Both E (a, s) q) : ∃ t, q = (a, t) ∧ E s t :=
  ⟨q.2, Prod.ext hboth.1.symm rfl, hboth.2⟩

theorem Both.left {α : Type} {E : St → St → Prop} {a : α} {t : St} {p : α × St}
    (hboth : Both E p (a, t)) : ∃ s, p = (a, s) ∧ E s t :=
  ⟨p.2, Prod.ext hboth.1 rfl, hboth.2⟩

/-- The two runs return the same, if any, in states that only differ in what a run does not look
at. -/
structure RunsAlike (h : Host) (flags : U32) (s t : St) : Prop where
  right : ∀ {rs u}, RunsTo h flags s rs u → ∃ v, RunsTo h flags t rs v ∧ Alike h false Eq u v
  left : ∀ {rs v}, RunsTo h flags t rs v → ∃ u, RunsTo h flags s rs u ∧ Alike h false Eq u v

section Cuts

variable {inp : PortInput} {h : Host} (hh : h.Inert inp false) (hports : h.PortsApart inp)
  {flags : U32} (htime : flags &&& runTimeout = 0)

include hh hports htime

omit hh hports in
theorem beginRun_sameEnv (fuel : Nat) (s t : St) :
    SameEnv false (beginRun h flags fuel s).1 (beginRun h flags fuel t).1 :=
  ⟨rfl, rfl, nofun, .inr (bne_eq_false_iff_eq.mpr htime)⟩

omit hh htime in
/-- A run leaves `io.iopl_ok` as it has set it. -/
theorem RunsTo.iopl {rs : U32} {s t : St} (hrun : RunsTo h flags s rs t) :
    t.io.ioplOk = !(t.io.ioplNeeded && !h.iopl3) := by
  obtain ⟨fuel, hrun⟩ := hrun
  have hguarded := run_guarded hports flags fuel s
  rw [hrun] at hguarded
  obtain ⟨_, _, hserved, _⟩ := hguarded
  rw [hserved.iopl, hserved.needed]
  rfl

/-- The loop of the run that takes up a slice goes as the rest of the loop of the whole run. -/
theorem loops_alike {a b : U64} (ha : a ≠ 0) (hab : b = 0 ∨ a ≤ b) {s s₁ : St} (hsep : s.mem.Sep)
    (hplain : s.Plain) (hslice : RunsTo h flags (s.limited a) runMaxInstr s₁) :
    ∃ m, ∀ fuel, m ≤ fuel → ∃ j, ∀ k, Both (Alike h false Eq)
      (runLoop h (beginRun h flags fuel (s.limited b)).1 (j + (k + 1)) 0
        (beginRun h flags fuel (s.limited b)).2)
      (runLoop h (beginRun h flags fuel (s₁.limited b)).1 (k + 1) 0
        (beginRun h flags fuel (s₁.limited b)).2) := by
  have henv := beginRun_sameEnv (h := h) htime
  have hsame : Alike h false Eq s s := .refl (fun _ => rfl) hsep hplain
  have hstart : Alike h false (Limits a b) (s.limited a) (s.limited b) :=
    { hsame with limit := ⟨rfl, rfl⟩ }
  have hiopl := hslice.iopl hports
  obtain ⟨m, hm⟩ := hslice.loop
  refine ⟨m, fun fuel hfuel => ?_⟩
  obtain ⟨u, hloop, hs₁⟩ := hm fuel m hfuel le_rfl
  have hbegin := (hstart.beginRun flags fuel (.inr htime)).2
  obtain ⟨j, rs₁, s₀, t₀, _, hrs₁, hr, rfl, hst₀, hrest⟩ :=
    runLoop_cut hh (henv fuel _ (s.limited b)) ha hab (rfl : Unlimited 0) hbegin hloop
      (by decide : ¬runMaxInstr &&& runMaxInstr = 0)
  obtain rfl : rs₁ = 0 := hrs₁.eq_zero hr.symm
  have hresume := (resume_alike hh _ flags fuel hst₀ hs₁ hiopl).swap
  refine ⟨j, fun k => ?_⟩
  rw [hrest]
  exact (alike_twins hh (henv fuel (s.limited b) (s₁.limited b))).runLoop_start
    (Alike.maxInstr rfl) k 0 hresume

theorem runsAlike_cut {a b : U64} (ha : a ≠ 0) (hab : b = 0 ∨ a ≤ b) {s s₁ : St}
    (hsep : s.mem.Sep) (hplain : s.Plain)
    (hslice : RunsTo h flags (s.limited a) runMaxInstr s₁) :
    RunsAlike h flags (s.limited b) (s₁.limited b) := by
  obtain ⟨n, hloops⟩ := loops_alike hh hports htime ha hab hsep hplain hslice
  constructor
  · intro rs u hrun
    obtain ⟨m, hm⟩ := hrun.loop
    obtain ⟨j, hj⟩ := hloops (max n m) (le_max_left n m)
    obtain ⟨u', hloop, rfl⟩ := hm (max n m) (j + (m + 1)) (le_max_right n m) (by omega)
    have hboth := hj m
    rw [hloop] at hboth
    obtain ⟨v, hloop', hend⟩ := hboth.right
    exact ⟨_, .of_loop hloop', endRun_alike hh (beginRun_sameEnv htime _ _ _) rs hend⟩
  · intro rs v hrun
    obtain ⟨m, hm⟩ := hrun.loop
    obtain ⟨j, hj⟩ := hloops (max n m) (le_max_left n m)
    obtain ⟨v', hloop, rfl⟩ := hm (max n m) (m + 1) (le_max_right n m) (by omega)
    have hboth := hj m
    rw [hloop] at hboth
    obtain ⟨u, hloop', hend⟩ := hboth.left
    exact ⟨_, .of_loop hloop', endRun_alike hh (beginRun_sameEnv htime _ _ _) rs hend⟩

end Cuts

/-! ## Any number of cuts -/

/-- Slices with the limits `as`, each ended by its limit. -/
inductive Cuts (h : Host) (flags : U32) : List U64 → St → St → Prop
  | nil (s : St) : Cuts h flags [] s s
  | cons {a : U64} {as : List U64} {s t u : St}
      (hslice : RunsTo h flags (s.limited a) runMaxInstr t) (hrest : Cuts h flags as t u) :
      Cuts h flags (a :: as) s u

namespace RunsAlike

variable {h : Host} {flags : U32} {s t u : St}

theorem refl (hs : ∀ {rs v}, RunsTo h flags s rs v → Alike h false Eq v v) :
    RunsAlike h flags s s where
  right hrun := ⟨_, hrun, hs hrun⟩
  left hrun := ⟨_, hrun, hs hrun⟩

theorem trans (h₁ : RunsAlike h flags s t) (h₂ : RunsAlike h flags t u) :
    RunsAlike h flags s u where
  right hrun := by
    obtain ⟨v, hrun, hv⟩ := h₁.right hrun
    obtain ⟨w, hrun, hw⟩ := h₂.right hrun
    exact ⟨w, hrun, hv.trans hw⟩
  left hrun := by
    obtain ⟨v, hrun, hv⟩ := h₂.left hrun
    obtain ⟨w, hrun, hw⟩ := h₁.left hrun
    exact ⟨w, hrun, hw.trans hv⟩

end RunsAlike

section Slices

variable {inp : PortInput} {h : Host} (hh : h.Inert inp false) (hports : h.PortsApart inp)
  {flags : U32} (htime : flags &&& runTimeout = 0)

include hh htime

theorem RunsTo.alike {rs : U32} {s t : St} (hsep : s.mem.Sep) (hplain : s.Plain)
    (hrun : RunsTo h flags s rs t) : Alike h false Eq t t := by
  obtain ⟨fuel, hrun⟩ := hrun
  have hend := (run_alike hh flags fuel (.inr htime) (.refl (fun _ => rfl) hsep hplain)).2
  rw [hrun] at hend
  exact hend

include hports

/-- However a run is cut into slices, the call that takes it up after the last slice returns what
the whole run returns, in a state that only differs in what a run does not look at, and it ends if
the whole run does. -/
theorem x86emuRun_slices {as : List U64} {b : U64} (has : ∀ a ∈ as, a ≠ 0 ∧ (b = 0 ∨ a ≤ b))
    {s t : St} (hsep : s.mem.Sep) (hplain : s.Plain) (hcuts : Cuts h flags as s t) :
    RunsAlike h flags (s.limited b) (t.limited b) := by
  induction hcuts with
  | nil s => exact .refl (RunsTo.alike hh htime (s := s.limited b) hsep hplain)
  | @cons a as s t u hslice hrest ih =>
    obtain ⟨ha, hab⟩ := has a List.mem_cons_self
    have ht := RunsTo.alike hh htime (s := s.limited a) hsep hplain hslice
    exact (runsAlike_cut hh hports htime ha hab hsep hplain hslice).trans
      (ih (fun c hc => has c (List.mem_cons_of_mem a hc)) ht.mem.sep ht.plain)

end Slices

theorem maskedHost_portsApart (inp : PortInput) : (maskedHost inp).PortsApart inp :=
  { defaultHost_portsApart inp with
    rdmsr := fun f hf s => by
      cases hf
      dsimp only
      split
      · exact ⟨rfl, rfl⟩
      · exact ⟨rfl, rfl⟩ }

/-- An emulator in real mode over a memory of `NOP`s. -/
def nops : St := x86emuReset { mem := fullMem fun _ => 0x90 }

/-- A run of five instructions, cut after two. -/
theorem x86emuRun_slices_nops :
    RunsAlike (maskedHost fun _ _ _ => 0) runMaxInstr (nops.limited 5)
      ((x86emuRun (maskedHost fun _ _ _ => 0) runMaxInstr 10 (nops.limited 2)).2.limited 5) := by
  have hres : (x86emuRun (maskedHost fun _ _ _ => 0) runMaxInstr 10 (nops.limited 2)).1 =
      some runMaxInstr := by
    decide +kernel
  have hlimits : ∀ a ∈ [(2 : U64)], a ≠ 0 ∧ ((5 : U64) = 0 ∨ a ≤ 5) := by
    intro a ha
    rw [List.mem_singleton.mp ha]
    decide
  have hsep : nops.mem.Sep := fun a b n ha => by cases ha
  exact x86emuRun_slices (maskedHost_inert _ false) (maskedHost_portsApart _) (by decide) hlimits
    hsep ⟨by decide, rfl⟩ (.cons ⟨10, Prod.ext hres rfl⟩ (.nil _))

end X86Emu
