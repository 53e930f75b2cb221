import X86Emu.Run.InfiniteLoop

/-!
# What a run returns

A run returns at most one of the bits `X86EMU_RUN_*`, one of those it was asked for, `NO_EXEC`, or
`NO_CODE` from the host's code check. Each says how the last iteration of the run loop has gone,
`RunEnd`: what was reached before an instruction, or which opcode was executed last. With no bit set
this instruction has stopped the emulator.
-/

namespace X86Emu

open Lib

/-! ## Jumps to themselves -/

/-- The jump with opcode `op1` goes by `ofs` from `EIP`, where its displacement is; `v` is the state
after the displacement is looked at. -/
inductive JumpsBy (h : Host) (u : St) : (op1 : U8) → (ofs : U32) → (v : St) → Prop
  | short : JumpsBy h u 0xeb
      (((readByteNoperm h u.codeAddr u).1.extractLsb' 0 8).signExtend 32 + 1)
      (readByteNoperm h u.codeAddr u).2
  | near16 : u.cpu.mode.data32 = false → JumpsBy h u 0xe9
      (((readBytesNoperm h 2 u.codeAddr u).1.extractLsb' 0 16).signExtend 32 + 2)
      (readBytesNoperm h 2 u.codeAddr u).2
  | near32 : u.cpu.mode.data32 = true → JumpsBy h u 0xe9
      ((readBytesNoperm h 4 u.codeAddr u).1 + 4) (readBytesNoperm h 4 u.codeAddr u).2

/-- A jump by `ofs` leads back to the instruction, or to a flag instruction right before it, which
is looked at. -/
inductive LeadsBack (h : Host) (u : St) (ofs : U32) : (v : St) → Prop
  | self : u.cpu.eip + ofs = u.cpu.savedEip → LeadsBack h u ofs u
  | flag {b : U32} {v : St} : u.cpu.eip + 1 + ofs = u.cpu.savedEip → 1 ≤ u.cpu.savedEip →
      readByteNoperm h ((u.cpu.seg .cs).base + u.cpu.savedEip - 1) u = (b, v) →
      0xf8 ≤ b.extractLsb' 0 8 → b.extractLsb' 0 8 ≤ 0xfd → LeadsBack h u ofs v

/-! ## Ends -/

/-- The state in which an iteration from `s` looks whether it may go on. -/
def iterStart (h : Host) (s : St) : St := logRegs h (startInstr s)

/-- The iteration from `s` fetches its prefixes and then the opcode `op1`, and is in `u`. -/
def FetchesOpcode (h : Host) (e : RunEnv) (s : St) (op1 : U8) (u : St) : Prop :=
  prefixLoop h e.fuel (startPrefixes (codeCheck h (timedOut h e (iterStart h s)).2).2) =
    (some op1, u)

/-- How the iteration from `s` is the last one, with the result `rs` and in the state `t`. -/
inductive RunEnd (h : Host) (e : RunEnv) (s : St) : (rs : U32) → (t : St) → Prop
  | maxInstr : e.flags &&& runMaxInstr ≠ 0 → (iterStart h s).maxInstr ≠ 0 →
      (iterStart h s).maxInstr ≤ (iterStart h s).tsc → RunEnd h e s runMaxInstr (iterStart h s)
  | timeout : e.flags &&& runTimeout ≠ 0 → (iterStart h s).timeout ≠ 0 →
      (iterStart h s).tsc &&& 0xffff = 0 →
      (iterStart h s).timeout.toNat < (hostTime h (iterStart h s)).1 - e.start →
      RunEnd h e s runTimeout (hostTime h (iterStart h s)).2
  /-- The host's code check has refused to go on. -/
  | refused {f : St → Bool × St} {bad : Bool} {t : St} : h.codeCheck = some f →
      f (timedOut h e (iterStart h s)).2 = (bad, t) → bad = true ∨ t.halted = true →
      RunEnd h e s runNoCode t
  /-- The emulator is stopped when the opcode is fetched, and `EIP` is put back. -/
  | noExec {op1 : U8} {u : St} : FetchesOpcode h e s op1 u → u.halted = true →
      RunEnd h e s runNoExec { u with cpu := { u.cpu with eip := u.cpu.savedEip } }
  /-- Two zeros in 16 bit code are executed. -/
  | zeros {u v : St} : e.flags &&& runNoCode ≠ 0 → FetchesOpcode h e s 0 u → u.cpu.mode = {} →
      readByteNoperm h u.codeAddr u = (0, v) → (execInstr h e 0 v.halt).halted = true →
      RunEnd h e s runNoCode (execInstr h e 0 v.halt)
  /-- A jump to itself is executed. -/
  | loop {op1 : U8} {ofs : U32} {u v w : St} : e.flags &&& runLoopFlag ≠ 0 →
      FetchesOpcode h e s op1 u → JumpsBy h u op1 ofs v → LeadsBack h v ofs w →
      (execInstr h e op1 w.halt).halted = true →
      RunEnd h e s runLoopFlag (execInstr h e op1 w.halt)
  /-- The instruction has stopped the emulator; the checks have not. -/
  | stopped {op1 : U8} {u v : St} : FetchesOpcode h e s op1 u →
      checkOpcode h e 0 op1 u = (.exec 0 op1, v) → (execInstr h e op1 v).halted = true →
      RunEnd h e s 0 (execInstr h e op1 v)

/-- Iterations without a bit lead from `s` to `u`. -/
abbrev GoesOn (h : Host) (e : RunEnv) : St → St → Prop :=
  Relation.ReflTransGen fun s u => runIter h e 0 s = (.more 0, u)

/-! ## Checks -/

theorem or_ne_zero {rs flag : U32} (hflag : flag ≠ 0) : rs ||| flag ≠ 0 :=
  fun hzero => hflag (BitVec.or_eq_zero_iff.mp hzero).2

theorem loopOfs_jumps {h : Host} {op1 : U8} {s : St} (hofs : (loopOfs h op1 s).1 ≠ 0) :
    JumpsBy h s op1 (loopOfs h op1 s).1 (loopOfs h op1 s).2 := by
  unfold loopOfs at hofs ⊢
  split at hofs
  · next hshort =>
    subst hshort
    exact .short
  · next hshort =>
    rw [if_neg hshort]
    split at hofs
    · next hnear =>
      subst hnear
      rw [if_pos rfl]
      split
      · next hdata => exact .near32 hdata
      · next hdata => exact .near16 (Bool.not_eq_true _ ▸ hdata)
    · exact absurd rfl hofs

theorem loopFound_back {h : Host} {ofs : U32} {s : St} (hfound : (loopFound h ofs s).1 = true) :
    LeadsBack h s ofs (loopFound h ofs s).2 := by
  unfold loopFound at hfound ⊢
  dsimp only at hfound ⊢
  split at hfound
  · next hself =>
    rw [if_pos hself]
    exact .self hself
  · next hself =>
    rw [if_neg hself]
    split at hfound
    · next hbefore =>
      rw [if_pos hbefore]
      rw [Bool.and_eq_true, decide_eq_true_iff, decide_eq_true_iff] at hfound
      exact .flag hbefore.1 hbefore.2 rfl hfound.1 hfound.2
    · cases hfound

/-- The loop check finds jumps that lead back, and stops the emulator, or keeps the result; it does
not look at other instructions. -/
theorem checkLoop_cases (h : Host) (e : RunEnv) (op1 : U8) (rs : U32) (s : St) :
    (∃ v, checkLoop h e op1 rs s = (rs, v) ∧ (op1 = 0 → v = s)) ∨
    ∃ ofs v w, checkLoop h e op1 rs s = (rs ||| runLoopFlag, w.halt) ∧ e.has runLoopFlag ∧
      JumpsBy h s op1 ofs v ∧ LeadsBack h v ofs w := by
  have hother : op1 = 0 → loopOfs h op1 s = (0, s) := by
    rintro rfl
    rfl
  unfold checkLoop
  split
  · next hflag =>
    dsimp only
    split
    · next hofs =>
      cases hfound : (loopFound h (loopOfs h op1 s).1 (loopOfs h op1 s).2).1 with
      | true =>
        refine .inr ⟨_, _, _, ?_, hflag, loopOfs_jumps hofs, loopFound_back hfound⟩
        unfold haltIf
        rw [if_pos rfl, if_pos (or_ne_zero (by decide))]
      | false =>
        refine .inl ⟨_, rfl, fun hop => absurd ?_ hofs⟩
        rw [hother hop]
    · refine .inl ⟨_, rfl, fun hop => ?_⟩
      rw [hother hop]
  · exact .inl ⟨s, rfl, fun _ => rfl⟩

/-- The check for zeros finds them, and stops the emulator, or keeps the result. -/
theorem checkNoCode_cases (h : Host) (e : RunEnv) (op1 : U8) (rs : U32) (s : St) :
    (∃ v, checkNoCode h e op1 rs s = (rs, v) ∧ (op1 ≠ 0 → s.halt = s → v = s)) ∨
    ∃ v, checkNoCode h e op1 rs s = (rs ||| runNoCode, v.halt) ∧ e.has runNoCode ∧ op1 = 0 ∧
      s.cpu.mode = {} ∧ readByteNoperm h s.codeAddr s = (0, v) := by
  have hhalt : s.halt = s → haltIf rs s = s := by
    intro hs
    unfold haltIf
    split
    · exact hs
    · rfl
  unfold checkNoCode
  split
  · next hflag =>
    split
    · next hzero =>
      dsimp only
      split
      · next hbyte =>
        refine .inr ⟨_, ?_, hflag, hzero.2, hzero.1, Prod.ext hbyte rfl⟩
        unfold haltIf
        rw [if_pos (or_ne_zero (by decide))]
      · exact .inl ⟨_, rfl, fun hop => absurd hzero.2 hop⟩
    · exact .inl ⟨_, rfl, fun _ => hhalt⟩
  · exact .inl ⟨s, rfl, fun _ _ => rfl⟩

theorem has_iff (e : RunEnv) (flag : U32) : e.has flag = true ↔ e.flags &&& flag ≠ 0 := by
  unfold RunEnv.has
  rw [bne_iff_ne]

/-- The emulator is left as it is when the limit has been reached. -/
theorem maxInstrReached_iff (e : RunEnv) (s : St) : maxInstrReached e s = true ↔
    e.flags &&& runMaxInstr ≠ 0 ∧ s.maxInstr ≠ 0 ∧ s.maxInstr ≤ s.tsc := by
  unfold maxInstrReached
  rw [Bool.and_eq_true, Bool.and_eq_true, has_iff, decide_eq_true_iff, decide_eq_true_iff,
    and_assoc]

theorem timedOut_end {h : Host} {e : RunEnv} {s : St}
    (hlate : (timedOut h e (iterStart h s)).1 = true) :
    RunEnd h e s runTimeout (timedOut h e (iterStart h s)).2 := by
  unfold timedOut at hlate ⊢
  split at hlate
  · next hcond =>
    rw [if_pos hcond]
    rw [Bool.and_eq_true, Bool.and_eq_true, has_iff, decide_eq_true_iff, decide_eq_true_iff]
      at hcond
    obtain ⟨⟨hflag, htimeout⟩, htsc⟩ := hcond
    exact .timeout hflag htimeout htsc (of_decide_eq_true hlate)
  · cases hlate

theorem codeCheck_refused {h : Host} {e : RunEnv} {s : St}
    (hbad : (codeCheck h (timedOut h e (iterStart h s)).2).1 = true) :
    RunEnd h e s runNoCode (codeCheck h (timedOut h e (iterStart h s)).2).2 := by
  unfold codeCheck at hbad ⊢
  split at hbad
  · next f hf => exact .refused hf rfl ((Bool.or_eq_true _ _).mp hbad)
  · cases hbad

/-! ## Iterations -/

/-- The checks let the instruction with the opcode `op1` pass without a bit, or stop the emulator
with one bit, for what they have looked at from `u`. -/
inductive Passed (h : Host) (e : RunEnv) (op1 : U8) (u : St) : U32 → St → Prop
  | clean {v : St} : Passed h e op1 u 0 v
  | zeros {v : St} : e.has runNoCode → op1 = 0 → u.cpu.mode = {} →
      readByteNoperm h u.codeAddr u = (0, v) → Passed h e op1 u runNoCode v.halt
  | loop {ofs : U32} {v w : St} : e.has runLoopFlag → JumpsBy h u op1 ofs v →
      LeadsBack h v ofs w → Passed h e op1 u runLoopFlag w.halt

/-- There is no jump with opcode 0. -/
theorem JumpsBy.ne_zero {h : Host} {u v : St} {op1 : U8} {ofs : U32}
    (hjump : JumpsBy h u op1 ofs v) : op1 ≠ 0 := by
  cases hjump <;> decide

/-- Both checks together. -/
theorem checks_passed (h : Host) (e : RunEnv) (op1 : U8) (u : St) :
    Passed h e op1 u (checkNoCode h e op1 (checkLoop h e op1 0 u).1 (checkLoop h e op1 0 u).2).1
      (checkNoCode h e op1 (checkLoop h e op1 0 u).1 (checkLoop h e op1 0 u).2).2 := by
  rcases checkLoop_cases h e op1 0 u with
    ⟨v, hnone, hsame⟩ | ⟨ofs, v, w, hloop, hflag, hjump, hback⟩
  · rw [hnone]
    rcases checkNoCode_cases h e op1 0 v with
      ⟨v', hclean, -⟩ | ⟨v', hzeros, hflag, hop, hmode, hbyte⟩
    · rw [hclean]
      exact .clean
    · obtain rfl := hsame hop
      rw [hzeros]
      exact .zeros hflag hop hmode hbyte
  · rw [hloop]
    rcases checkNoCode_cases h e op1 (0 ||| runLoopFlag) w.halt with
      ⟨v', hkept, hsame⟩ | ⟨_, _, _, hop, _⟩
    · obtain rfl := hsame hjump.ne_zero rfl
      rw [hkept]
      exact .loop hflag hjump hback
    · exact absurd hop hjump.ne_zero

/-- How the checks before an instruction end. -/
theorem runChecks_end (h : Host) (e : RunEnv) (s : St) :
    ∃ t, runChecks h e 0 (iterStart h s) = (.prefixes, t) ∨
      (∃ rs, runChecks h e 0 (iterStart h s) = (.stop rs, t) ∧ RunEnd h e s rs t) ∨
      ∃ rs op1 u, runChecks h e 0 (iterStart h s) = (.exec rs op1, t) ∧ FetchesOpcode h e s op1 u ∧
        checkOpcode h e 0 op1 u = (.exec rs op1, t) ∧ Passed h e op1 u rs t := by
  unfold runChecks
  split
  · next hmax =>
    obtain ⟨hflag, hlimit, hreached⟩ := (maxInstrReached_iff e _).mp hmax
    exact ⟨_, .inr (.inl ⟨_, rfl, .maxInstr hflag hlimit hreached⟩)⟩
  · dsimp only
    split
    · next hlate => exact ⟨_, .inr (.inl ⟨_, rfl, timedOut_end hlate⟩)⟩
    · split
      · next hbad => exact ⟨_, .inr (.inl ⟨_, rfl, codeCheck_refused hbad⟩)⟩
      · unfold readOpcode
        split
        · next t _ => exact ⟨t, .inl rfl⟩
        · next op1 u hfetch =>
          have hpassed := checks_passed h e op1 u
          unfold checkOpcode
          split
          · next hhalted => exact ⟨_, .inr (.inl ⟨_, rfl, .noExec hfetch hhalted⟩)⟩
          · next hgoes =>
            refine ⟨_, .inr (.inr ⟨_, op1, u, rfl, hfetch, ?_, hpassed⟩)⟩
            exact if_neg hgoes

section Halted

variable {h : Host} (hh : h.Respects StaysHalted)

include hh

/-- How an iteration ends that has started without a bit. -/
theorem runIter_end (e : RunEnv) (s : St) : ∃ t, runIter h e 0 s = (.prefixes, t) ∨
    (∃ rs, runIter h e 0 s = (.stop rs, t) ∧ RunEnd h e s rs t) ∨
    runIter h e 0 s = (.more 0, t) := by
  obtain ⟨t, hchecks | ⟨rs, hchecks, hend⟩ | ⟨rs, op1, u, hchecks, hfetch, hcheck, hpassed⟩⟩ :=
    runChecks_end h e s
  · unfold iterStart at hchecks
    unfold runIter
    rw [hchecks]
    exact ⟨t, .inl rfl⟩
  · unfold iterStart at hchecks
    unfold runIter
    rw [hchecks]
    exact ⟨t, .inr (.inl ⟨rs, rfl, hend⟩)⟩
  · have hstays := StaysHalted.execInstr hh e op1 t
    unfold iterStart at hchecks
    unfold runIter
    rw [hchecks]
    dsimp only
    split
    · next hhalted =>
      refine ⟨_, .inr (.inl ⟨rs, rfl, ?_⟩)⟩
      cases hpassed with
      | clean => exact .stopped hfetch hcheck hhalted
      | zeros hflag hop hmode hbyte =>
        subst hop
        exact .zeros ((has_iff e _).mp hflag) hfetch hmode hbyte hhalted
      | loop hflag hjump hback =>
        exact .loop ((has_iff e _).mp hflag) hfetch hjump hback hhalted
    · next hhalted =>
      cases hpassed with
      | clean => exact ⟨_, .inr (.inr rfl)⟩
      | zeros _ _ _ _ => exact absurd (hstays rfl) hhalted
      | loop _ _ _ => exact absurd (hstays rfl) hhalted

/-! ## Runs -/

theorem runLoop_end (e : RunEnv) (n : Nat) (s : St) {rs : U32} {t : St}
    (hres : runLoop h e n 0 s = (some rs, t)) : ∃ u, GoesOn h e s u ∧ RunEnd h e u rs t := by
  induction n generalizing s with
  | zero => cases hres
  | succ n ih =>
    unfold runLoop at hres
    obtain ⟨t', hiter | ⟨rs', hiter, hend⟩ | hiter⟩ := runIter_end hh e s
    · rw [hiter] at hres
      cases hres
    · rw [hiter] at hres
      cases hres
      exact ⟨s, .refl, hend⟩
    · rw [hiter] at hres
      obtain ⟨u, hiters, hend⟩ := ih t' hres
      exact ⟨u, .head hiter hiters, hend⟩

/-- A run returns one bit or none, and this is why it has ended, in an iteration that its iterations
before lead to. -/
theorem x86emuRun_end (flags : U32) (fuel : Nat) (s : St) {rs : U32}
    (hres : (x86emuRun h flags fuel s).1 = some rs) :
    ∃ u t, GoesOn h (beginRun h flags fuel s).1 (beginRun h flags fuel s).2 u ∧
      RunEnd h (beginRun h flags fuel s).1 u rs t ∧
      (x86emuRun h flags fuel s).2 = endRun h (beginRun h flags fuel s).1 rs t := by
  have hloop : ∀ {rs t}, _ → ∃ u, _ ∧ RunEnd h (beginRun h flags fuel s).1 u rs t :=
    runLoop_end hh (beginRun h flags fuel s).1 fuel (beginRun h flags fuel s).2
  unfold x86emuRun at hres ⊢
  dsimp only at hres ⊢
  generalize runLoop h (beginRun h flags fuel s).1 fuel 0 (beginRun h flags fuel s).2 = p
    at hloop hres ⊢
  obtain ⟨_ | rs', t⟩ := p
  · cases hres
  · cases hres
    obtain ⟨u, hiters, hend⟩ := hloop rfl
    exact ⟨u, t, hiters, hend, rfl⟩

end Halted

/-- A run of zeros. -/
theorem x86emuRun_end_zeros :
    let s : St := { mem := fullMem fun _ => 0 }
    let h := defaultHost fun _ _ _ => 0
    ∃ u t, GoesOn h (beginRun h runNoCode 10 s).1 (beginRun h runNoCode 10 s).2 u ∧
      RunEnd h (beginRun h runNoCode 10 s).1 u runNoCode t ∧
      (x86emuRun h runNoCode 10 s).2 = endRun h (beginRun h runNoCode 10 s).1 runNoCode t :=
  x86emuRun_end (defaultHost_stays _) runNoCode 10 { mem := fullMem fun _ => 0 }
    (by decide +kernel)

end X86Emu
