import X86Emu.Run.PortCalls
import X86Emu.Run.Raised
import X86Emu.Run.Slices

/-!
# Bytes that cannot be fetched

`fetch_byte`, `fetch_word` and `fetch_long` stop the emulator when `memio` reports an error, and go
on with the value it gives. The run loop looks at this once, after the prefixes and the opcode: then
the instruction is not executed and `X86EMU_RUN_NO_EXEC` is returned. When a later byte cannot be
fetched, the handler works with 0xff in its place, and the run ends after it without this bit.
-/

namespace X86Emu

open Lib

/-! ## Failed fetches -/

/-- No instruction byte has failed to be fetched. -/
abbrev Unfailed : St → St → Prop := Records fun ev => ∀ addr, ev ≠ .fetchError addr

namespace Unfailed

variable {s t : St}

theorem not_mem (hs : Unfailed s t) (addr : U32) : Event.fetchError addr ∉ newEvents s t :=
  fun hmem => hs.newEvents _ hmem addr rfl

variable {h : Host} (hh : h.Respects Unfailed)

include hh

theorem logBlind : LogBlind h Unfailed := Records.logBlind hh

theorem callMemio (kind : MemioKind) (bits : MemioBits) (addr val : U32) (s : St) :
    Unfailed s (callMemio kind bits addr val h s).2 :=
  Records.callMemio hh (fun _ _ _ _ _ _ hev => by cases hev) kind bits addr val s

theorem lookRule : LookRule h Unfailed :=
  Records.lookRule hh fun _ _ _ _ _ _ hev => by cases hev

end Unfailed

/-- The emulator stays stopped, and has been stopped if a fetch has failed. -/
structure StopsOnError (s t : St) : Prop where
  stays : StaysHalted s t
  stops : t.halted = true ∨ Unfailed s t

namespace StopsOnError

variable {s t u : St}

theorem of_unfailed (hstays : StaysHalted s t) (hnone : Unfailed s t) : StopsOnError s t :=
  ⟨hstays, .inr hnone⟩

theorem of_same (hcpu : t.halted = s.halted) (hhist : t.hist = s.hist) : StopsOnError s t :=
  of_unfailed (fun hs => hcpu.trans hs) (.of_same hhist)

theorem refl (s : St) : StopsOnError s s := of_same rfl rfl

theorem trans (hs : StopsOnError s t) (ht : StopsOnError t u) : StopsOnError s u := by
  refine ⟨hs.stays.trans ht.stays, ?_⟩
  rcases ht.stops with hhalted | hnone
  · exact .inl hhalted
  · rcases hs.stops with hhalted | hnone'
    · exact .inl (ht.stays hhalted)
    · exact .inr (hnone'.trans hnone)

variable {h : Host} (hstay : h.Respects StaysHalted) (hnone : h.Respects Unfailed)

include hstay hnone

theorem logBlind : LogBlind h StopsOnError where
  refl := refl
  trans := trans
  log _ _ := of_same rfl rfl
  flush hf s t := of_unfailed (hstay.flush hf s t) (hnone.flush hf s t)

theorem callMemio (kind : MemioKind) (bits : MemioBits) (addr val : U32) (s : St) :
    StopsOnError s (callMemio kind bits addr val h s).2 :=
  of_unfailed (hstay.memio s kind bits addr val) (Unfailed.callMemio hnone kind bits addr val s)

/-- Every program stops the emulator when a fetch fails. -/
theorem emu {α : Type} (x : Emu α) (s : St) : StopsOnError s (x.run h s).2 := by
  refine x.invariant refl trans ?_ s
  intro β y hy s
  cases hy with
  | putCpu hf => exact of_unfailed (StaysHalted.putCpu hf s) (.of_same rfl)
  | capture bytes =>
    dsimp only
    unfold captureBytes
    split <;> exact of_same rfl rfl
  | memio kind width addr val => exact callMemio hstay hnone kind width.bits addr val s
  | fetchStop addr => exact ⟨fun _ => rfl, .inl rfl⟩
  | log thr guard text _ => exact (logBlind hstay hnone).line thr guard text s
  | raise nr type err =>
    have hhist : (x86emuIntrRaise nr type err s).hist = .raise nr type err :: s.hist := by
      unfold x86emuIntrRaise
      dsimp only
      split <;> rfl
    exact of_unfailed (StaysHalted.emu hstay (intrRaise nr type err) s) (.of_event hhist nofun)
  | cpuid =>
    exact callHandler_keeps refl
      (fun hf s => of_unfailed (hstay.cpuid hf s) (hnone.cpuid hf s)) s
  | rdmsr =>
    exact callHandler_keeps refl
      (fun hf s => of_unfailed (hstay.rdmsr hf s) (hnone.rdmsr hf s)) s
  | wrmsr =>
    exact callHandler_keeps refl
      (fun hf s => of_unfailed (hstay.wrmsr hf s) (hnone.wrmsr hf s)) s
  | debugRecord start ofs =>
    dsimp only
    unfold setDebugRecord
    split <;> exact of_same rfl rfl
  | _ => exact of_same rfl rfl

theorem idleRule : IdleRule h StopsOnError where
  toLogBlind := logBlind hstay hnone
  peek addr s := callMemio hstay hnone .r .b8noperm addr 0xff s
  clock _ _ := of_same rfl rfl
  msr _ _ _ := of_same rfl rfl
  trace _ _ := of_same rfl rfl
  debugDone _ := of_same rfl rfl
  reset _ := of_same rfl rfl

theorem deliveryRule : DeliveryRule h StopsOnError where
  toLogBlind := logBlind hstay hnone
  delivery hst := by
    cases hst with
    | deliver nr type => exact of_unfailed id (.of_event rfl nofun)
    | intr hf nr type => exact of_unfailed (hstay.intr hf _ nr type) (hnone.intr hf _ nr type)
    | frame nr type err => exact emu hstay hnone (deliverInt nr type err) _
    | done => exact of_same rfl rfl

theorem execInstr (e : RunEnv) (op1 : U8) (s : St) : StopsOnError s (execInstr h e op1 s) := by
  have hstart : StopsOnError s { s with hist := .instr op1 :: s.hist } :=
    of_unfailed id (.of_event rfl nofun)
  have hrun := emu hstay hnone (handlerAt x86emuOptab op1 op1)
    { s with hist := .instr op1 :: s.hist }
  have hint := (deliveryRule hstay hnone).handleInterrupt
    (runHandler h op1 { s with hist := .instr op1 :: s.hist })
  have hidle := (idleRule hstay hnone).afterDelivery e (handleInterrupt h
    (runHandler h op1 { s with hist := .instr op1 :: s.hist }))
  exact (hstart.trans hrun).trans (hint.trans (hidle.trans (of_same rfl rfl)))

theorem fetchByte (s : St) : StopsOnError s (fetchByte.run h s).2 :=
  emu hstay hnone X86Emu.fetchByte s

omit hstay hnone in
theorem prefixEffect {b : U8} {f : St → St} (hf : prefixEffect b = some f) (s : St) :
    StopsOnError s (f s) := by
  unfold X86Emu.prefixEffect at hf
  split at hf <;> cases hf <;> exact of_same rfl rfl

theorem prefixLoop (fuel : Nat) (s : St) : StopsOnError s (prefixLoop h fuel s).2 := by
  induction fuel generalizing s with
  | zero => exact refl s
  | succ fuel ih =>
    have hfetch := fetchByte hstay hnone s
    unfold X86Emu.prefixLoop
    dsimp only
    split
    · next f hf => exact hfetch.trans ((prefixEffect hf _).trans (ih _))
    · exact hfetch

/-- The loop goes on from where it was out of fuel. -/
theorem prefixLoop_rest {n m : Nat} {s u : St} {op1 : U8}
    (hnot : (X86Emu.prefixLoop h n s).1 = none)
    (hend : X86Emu.prefixLoop h m s = (some op1, u)) :
    StopsOnError (X86Emu.prefixLoop h n s).2 u := by
  induction n generalizing m s with
  | zero =>
    have hloop := prefixLoop hstay hnone m s
    rw [hend] at hloop
    exact hloop
  | succ n ih =>
    cases m with
    | zero => cases hend
    | succ m =>
      unfold X86Emu.prefixLoop at hnot hend ⊢
      dsimp only at hnot hend ⊢
      cases hf : X86Emu.prefixEffect (X86Emu.fetchByte.run h s).1 with
      | none =>
        rw [hf] at hnot
        cases hnot
      | some f =>
        rw [hf] at hnot hend
        exact ih hnot hend

end StopsOnError

/-! ## The prefixes and the opcode -/

/-- A prefix or the opcode byte cannot be fetched. -/
def St.HeadFails (s : St) : Prop :=
  ∃ n, (∀ i < n, IsPrefix (s.codeByte i)) ∧ ¬IsPrefix (s.codeByte n) ∧
    ∃ i ≤ n, s.codeErr (s.cpu.byteAddr i) = true

theorem headFails_congr {s t : St} (hcpu : t.cpu = s.cpu) (hmem : t.mem = s.mem) :
    t.HeadFails ↔ s.HeadFails := by
  have hbyte : t.codeByte = s.codeByte := by
    funext n
    unfold St.codeByte St.code
    rw [hcpu, hmem]
  have herr : t.codeErr = s.codeErr := by
    funext a
    unfold St.codeErr
    rw [hmem]
  unfold St.HeadFails
  rw [hbyte, herr, hcpu]

/-- The opcode byte is the first one that is no prefix. -/
theorem headFails_iff {s : St} {n : Nat} (hbefore : ∀ i < n, IsPrefix (s.codeByte i))
    (hop : ¬IsPrefix (s.codeByte n)) :
    s.HeadFails ↔ (s.cpu.byteAddrs (n + 1)).any s.codeErr = true := by
  have hany : (s.cpu.byteAddrs (n + 1)).any s.codeErr = true ↔
      ∃ i ≤ n, s.codeErr (s.cpu.byteAddr i) = true := by
    simp only [Cpu.byteAddrs, List.any_map, List.any_eq_true, List.mem_range, Function.comp_apply,
      Nat.lt_succ_iff]
  rw [hany]
  constructor
  · rintro ⟨m, hbefore', hop', herr⟩
    have hsame : m = n := by
      rcases Nat.lt_trichotomy m n with hlt | heq | hgt
      · exact absurd (hbefore m hlt) hop'
      · exact heq
      · exact absurd (hbefore' n hgt) hop
    rwa [hsame] at herr
  · exact fun herr => ⟨n, hbefore, hop, herr⟩

section Head

variable {inp : PortInput} {h : Host} (hh : h.Blind inp)

include hh

/-- When the opcode is reached, the emulator has been stopped if and only if a byte up to it cannot
be fetched. -/
theorem prefixLoop_halted {fuel : Nat} {s u : St} {op1 : U8} (hgoes : s.halted = false)
    (hend : prefixLoop h fuel s = (some op1, u)) :
    (u.halted = true ↔ s.HeadFails) ∧ u.cpu.savedEip = s.cpu.savedEip := by
  have hreached : (prefixLoop h fuel s).1 ≠ none := by
    rw [hend]
    exact Option.some_ne_none op1
  obtain ⟨n, hop, hbefore⟩ : ∃ n, ¬IsPrefix (s.codeByte n) ∧ ∀ i < n, IsPrefix (s.codeByte i) :=
    ⟨_, Nat.find_spec (exists_opcode hh hreached),
      fun _ hi => not_not.mp (Nat.find_min (exists_opcode hh hreached) hi)⟩
  have hlength : ((List.range n).map s.codeByte).length = n := by
    rw [List.length_map, List.length_range]
  have hprefixes : ∀ p ∈ (List.range n).map s.codeByte, IsPrefix p := by
    intro p hp
    obtain ⟨i, hi, rfl⟩ := List.mem_map.mp hp
    exact hbefore i (List.mem_range.mp hi)
  obtain ⟨t, v, hrun, hfetched, -, hsaved, -⟩ := prefixLoop_fetched hh
    (l := (List.range n).map s.codeByte) hprefixes (by rw [hlength]) (by rw [hlength]; exact hop)
    (by rw [hlength]; omega : _ < max fuel (n + 1))
  rw [prefixLoop_more hend (Nat.le_max_left _ _)] at hrun
  obtain ⟨-, rfl⟩ := Prod.mk.inj hrun
  rw [hlength] at hfetched
  refine ⟨?_, hsaved⟩
  rw [headFails_iff hbefore hop]
  show u.cpu.mode.halted = true ↔ _
  rw [hfetched.halted, show s.cpu.mode.halted = false from hgoes, Bool.false_or]

end Head

/-! ## The state an instruction finds -/

/-- Registers, flags and data are as before. -/
structure KeepsState (s t : St) : Prop where
  gen : t.cpu.gen = s.cpu.gen
  seg : t.cpu.seg = s.cpu.seg
  eflg : t.cpu.eflg = s.cpu.eflg
  data : ∀ a, (t.mem.flat a).data = (s.mem.flat a).data

namespace KeepsState

variable {s t u : St}

theorem of_same (hcpu : t.cpu = s.cpu) (hmem : s.mem.Marked t.mem) : KeepsState s t where
  gen := by rw [hcpu]
  seg := by rw [hcpu]
  eflg := by rw [hcpu]
  data a := (hmem.cells a).data

theorem refl (s : St) : KeepsState s s := of_same rfl (.refl s.mem)

theorem trans (hs : KeepsState s t) (ht : KeepsState t u) : KeepsState s u where
  gen := ht.gen.trans hs.gen
  seg := ht.seg.trans hs.seg
  eflg := ht.eflg.trans hs.eflg
  data a := (ht.data a).trans (hs.data a)

theorem of_view (hview : t.view = s.view) : KeepsState s t := by
  obtain ⟨hcpu, hmem⟩ := same_of_view hview
  exact of_same hcpu (hmem ▸ .refl s.mem)

theorem stepRule {inp : PortInput} {h : Host} (hh : h.Blind inp) (hlook : h.OnlyLooks) :
    StepRule h KeepsState where
  refl := refl
  trans := trans
  cpu hf s := by
    obtain ⟨eip, mode, decodeSeg, defaultSeg, savedCs, savedEip, hcpu⟩ := hf s.cpu
    constructor
    · show (_ : Cpu).gen = _
      rw [hcpu]
    · show (_ : Cpu).seg = _
      rw [hcpu]
    · show (_ : Cpu).eflg = _
      rw [hcpu]
    · exact fun _ => rfl
  buffers _ _ s := ⟨rfl, rfl, rfl, fun _ => rfl⟩
  clock _ s := ⟨rfl, rfl, rfl, fun _ => rfl⟩
  fetch s := by
    obtain ⟨hcpu, hmem⟩ := fetchByte_state hh s
    constructor
    · rw [hcpu]
      rfl
    · rw [hcpu]
      rfl
    · rw [hcpu]
      rfl
    · intro a
      rw [hmem]
      exact ((fetched_marked s .b8).cells a).data
  peek addr s := by
    obtain ⟨-, hlooked⟩ := readByteNoperm_eq hh addr s
    obtain ⟨_, hcpu⟩ := hlooked.cpu
    have hgen := congrArg Cpu.gen hcpu
    have hseg := congrArg Cpu.seg hcpu
    have heflg := congrArg Cpu.eflg hcpu
    exact ⟨hgen, hseg, heflg, fun a => (hlooked.mem.cells a).data⟩
  codeCheck hf s := of_view (hlook hf s)

/-- The end of a run. -/
theorem endRun (h : Host) (e : RunEnv) (rs : U32) (s : St) : KeepsState s (endRun h e rs s) := by
  obtain ⟨_, _, hrun⟩ := endRun_frame h e rs s
  rw [hrun]
  exact ⟨rfl, rfl, rfl, fun _ => rfl⟩

/-- The start of an instruction. -/
theorem of_start (hcpu : t.cpu = (startInstr s).cpu) (hmem : t.mem = (startInstr s).mem) :
    KeepsState s t := by
  constructor
  · rw [hcpu]
    rfl
  · rw [hcpu]
    rfl
  · rw [hcpu]
    rfl
  · intro a
    rw [hmem]
    rfl

end KeepsState

/-! ## Iterations -/

/-- In the iteration from `s` a byte that the instruction needs cannot be fetched. -/
def FetchFails (h : Host) (e : RunEnv) (s : St) : Prop :=
  ∃ fuel addr, Event.fetchError addr ∈ newEvents s (runIter h { e with fuel := fuel } 0 s).2

/-- The run loop ends from `s` with `X86EMU_RUN_NO_EXEC` in the result, `EIP` at the instruction in
`s`, and the state that this instruction has found. -/
def StopsNoExec (h : Host) (e : RunEnv) (s : St) : Prop :=
  ∃ fuel rs t, runLoop h { e with fuel := fuel } fuel 0 s = (some rs, t) ∧
    rs &&& runNoExec ≠ 0 ∧ (endRun h e rs t).cpu.eip = s.cpu.eip ∧
    KeepsState s (endRun h e rs t)

section

variable {h : Host} (hnone : h.Respects Unfailed)

include hnone

/-- An instruction is not reached, or it is; no byte has been fetched till then. -/
theorem runChecks_reaches (e : RunEnv) (s : St) :
    (∃ rs t, Unfailed s t ∧
      ∀ fuel, runChecks h { e with fuel := fuel } 0 (iterStart h s) = (.stop rs, t)) ∨
    ∃ t, Unfailed s t ∧ Passes h e (iterStart h s) t := by
  have hstart : Unfailed s (iterStart h s) :=
    (Records.of_same rfl : Unfailed s (startInstr s)).trans
      ((Unfailed.logBlind hnone).line _ _ _ _)
  have htime : Unfailed s (timedOut h e (iterStart h s)).2 := by
    refine hstart.trans ?_
    unfold timedOut
    split <;> exact .of_same rfl
  have hcode : Unfailed s (codeCheck h (timedOut h e (iterStart h s)).2).2 := by
    refine htime.trans ?_
    unfold codeCheck
    split
    · next f hf => exact hnone.codeCheck hf _
    · exact .refl _
  unfold runChecks
  cases hmax : maxInstrReached e (iterStart h s) with
  | true => exact .inl ⟨0 ||| runMaxInstr, _, hstart, fun fuel => if_pos hmax⟩
  | false =>
    cases hlate : (timedOut h e (iterStart h s)).1 with
    | true =>
      refine .inl ⟨0 ||| runTimeout, _, htime, fun fuel => ?_⟩
      refine (if_neg (Bool.eq_false_iff.mp hmax)).trans ?_
      exact if_pos hlate
    | false =>
      cases hbad : (codeCheck h (timedOut h e (iterStart h s)).2).1 with
      | true =>
        refine .inl ⟨0 ||| runNoCode, _, hcode, fun fuel => ?_⟩
        refine (if_neg (Bool.eq_false_iff.mp hmax)).trans ?_
        refine (if_neg (Bool.eq_false_iff.mp hlate)).trans ?_
        exact if_pos hbad
      | false => exact .inr ⟨_, hcode, hmax, hlate, Prod.ext hbad rfl⟩

end

/-- When the emulator is stopped at the opcode, `EIP` is put back and the run ends. -/
theorem runIter_head {h : Host} {e : RunEnv} {s t u : St} {op1 : U8}
    (hp : Passes h e (iterStart h s) t)
    (hend : prefixLoop h e.fuel (startPrefixes t) = (some op1, u)) (hhalted : u.halted = true) :
    runIter h e 0 s =
      (.stop runNoExec, { u with cpu := { u.cpu with eip := u.cpu.savedEip } }) := by
  have hchecks : runChecks h e 0 (iterStart h s) =
      (.stop runNoExec, { u with cpu := { u.cpu with eip := u.cpu.savedEip } }) := by
    rw [runChecks_passes hp, readOpcode, hend]
    exact if_pos hhalted
  unfold runIter
  rw [show logRegs h (startInstr s) = iterStart h s from rfl, hchecks]

/-- While the loop has not ended, the iteration has not. -/
theorem runIter_never {h : Host} {e : RunEnv} {s t : St} (hp : Passes h e (iterStart h s) t)
    (hnot : (prefixLoop h e.fuel (startPrefixes t)).1 = none) :
    runIter h e 0 s = (.prefixes, (prefixLoop h e.fuel (startPrefixes t)).2) := by
  have hchecks : runChecks h e 0 (iterStart h s) =
      (.prefixes, (prefixLoop h e.fuel (startPrefixes t)).2) := by
    rw [runChecks_passes hp, readOpcode]
    generalize prefixLoop h e.fuel (startPrefixes t) = p at hnot ⊢
    obtain ⟨_, w⟩ := p
    obtain rfl := hnot
    rfl
  unfold runIter
  rw [show logRegs h (startInstr s) = iterStart h s from rfl, hchecks]

/-- The bits that the checks of the opcode set. -/
theorem Passed.noExec {h : Host} {e : RunEnv} {op1 : U8} {u v : St} {rs : U32}
    (hpassed : Passed h e op1 u rs v) : rs &&& runNoExec = 0 := by
  cases hpassed <;> decide

section

variable {h : Host} (hstay : h.Respects StaysHalted) (hnone : h.Respects Unfailed) {e : RunEnv}
  {s t : St}

include hstay hnone

/-- The instruction is executed; when a byte of it cannot be fetched, the run ends without the
bit. -/
theorem runIter_body (hstart : Unfailed s t) (hp : Passes h e (iterStart h s) t) {op1 : U8} {u : St}
    (hend : prefixLoop h e.fuel (startPrefixes t) = (some op1, u)) (hgoes : u.halted = false) :
    ∃ rs v, rs &&& runNoExec = 0 ∧ runIter h e 0 s = (if v.halted then .stop rs else .more rs, v) ∧
      (v.halted = true ∨ Unfailed s v) := by
  have hloop := StopsOnError.prefixLoop hstay hnone e.fuel (startPrefixes t)
  rw [hend] at hloop
  have hhead : Unfailed s u := by
    rcases hloop.stops with hhalted | hhead
    · exact absurd (hgoes.symm.trans hhalted) Bool.false_ne_true
    · exact hstart.trans ((Records.of_same rfl : Unfailed t (startPrefixes t)).trans hhead)
  have hlooks := Unfailed.lookRule hnone
  have hpassed := checks_passed h e op1 u
  have hchecked : Unfailed s (checkNoCode h e op1 (checkLoop h e op1 0 u).1
      (checkLoop h e op1 0 u).2).2 :=
    hhead.trans ((hlooks.checkLoop e op1 0 u).trans (hlooks.checkNoCode e op1 _ _))
  have hchecks : runChecks h e 0 (iterStart h s) =
      (.exec (checkNoCode h e op1 (checkLoop h e op1 0 u).1 (checkLoop h e op1 0 u).2).1 op1,
        (checkNoCode h e op1 (checkLoop h e op1 0 u).1 (checkLoop h e op1 0 u).2).2) := by
    rw [runChecks_passes hp, readOpcode, hend]
    exact if_neg (Bool.eq_false_iff.mp hgoes)
  generalize checkNoCode h e op1 (checkLoop h e op1 0 u).1 (checkLoop h e op1 0 u).2 = p
    at hpassed hchecked hchecks
  obtain ⟨rs, v⟩ := p
  refine ⟨rs, execInstr h e op1 v, hpassed.noExec, ?_, ?_⟩
  · unfold runIter
    rw [show logRegs h (startInstr s) = iterStart h s from rfl, hchecks]
  · rcases (StopsOnError.execInstr hstay hnone e op1 v).stops with hhalted | hexec
    · exact .inl hhalted
    · exact .inr (hchecked.trans hexec)

/-- Out of fuel, no byte has failed when none fails with more of it. -/
theorem runIter_prefixes (hstart : Unfailed s t) (hp : Passes h e (iterStart h s) t) {n : Nat}
    {op1 : U8} {u : St} (hend : prefixLoop h n (startPrefixes t) = (some op1, u))
    (hgoes : u.halted = false) (hnot : (prefixLoop h e.fuel (startPrefixes t)).1 = none) :
    Unfailed s (runIter h e 0 s).2 := by
  have hrest := StopsOnError.prefixLoop_rest hstay hnone hnot hend
  have hloop := StopsOnError.prefixLoop hstay hnone e.fuel (startPrefixes t)
  rw [runIter_never hp hnot]
  rcases hloop.stops with hhalted | hhead
  · exact absurd (hgoes.symm.trans (hrest.stays hhalted)) Bool.false_ne_true
  · exact hstart.trans ((Records.of_same rfl : Unfailed t (startPrefixes t)).trans hhead)

/-- With enough fuel the same fetch fails. -/
theorem fetchError_more (hstart : Unfailed s t) (hp : Passes h e (iterStart h s) t) {m n : Nat}
    {op1 : U8} {u : St} (hend : prefixLoop h m (startPrefixes t) = (some op1, u))
    (hgoes : u.halted = false) (hm : m ≤ e.fuel) (hn : n ≤ e.fuel) {addr : U32}
    (herr : .fetchError addr ∈ newEvents s (runIter h { e with fuel := n } 0 s).2) :
    .fetchError addr ∈ newEvents s (runIter h e 0 s).2 := by
  have hp' : Passes h { e with fuel := n } (iterStart h s) t := ⟨hp.more, hp.early, hp.code⟩
  rcases hloop : prefixLoop h n (startPrefixes t) with ⟨_ | op, w⟩
  · have hnot : (prefixLoop h n (startPrefixes t)).1 = none := congrArg Prod.fst hloop
    exact absurd herr ((runIter_prefixes hstay hnone hstart hp' hend hgoes hnot).not_mem addr)
  · obtain ⟨rfl, rfl⟩ : op = op1 ∧ w = u := by
      have hsame := (prefixLoop_more hloop hn).symm.trans (prefixLoop_more hend hm)
      injection hsame with hop hw
      exact ⟨Option.some.inj hop, hw⟩
    obtain ⟨rs, v, -, hiter, -⟩ := runIter_body hstay hnone hstart hp' hloop hgoes
    have hends : (runIter h { e with fuel := n } 0 s).1 ≠ .prefixes := by
      rw [hiter]
      dsimp only
      split <;> nofun
    rw [← runIter_more hn hends] at herr
    exact herr

end

/-- The instruction of which a byte fails is reached. -/
theorem FetchFails.reaches {h : Host} (hnone : h.Respects Unfailed) {e : RunEnv} {s : St}
    (hfail : FetchFails h e s) : ∃ t, Unfailed s t ∧ Passes h e (iterStart h s) t := by
  obtain ⟨n, addr, herr⟩ := hfail
  refine (runChecks_reaches hnone e s).resolve_left ?_
  rintro ⟨rs, t, hstart, hstop⟩
  have hiter : runIter h { e with fuel := n } 0 s = (.stop rs, t) := by
    unfold runIter
    rw [show logRegs h (startInstr s) = iterStart h s from rfl, hstop n]
  rw [hiter] at herr
  exact hstart.not_mem addr herr

section

variable {inp : PortInput} {h : Host} (hh : h.Blind inp) (hlook : h.OnlyLooks) {e : RunEnv}
  {s t : St}

include hh hlook

/-- The checks before the prefixes leave what they are read from. -/
theorem Passes.head (hp : Passes h e (iterStart h s) t) :
    (startPrefixes t).halted = false ∧
      ((startPrefixes t).HeadFails ↔ (instrStart s).HeadFails) := by
  obtain ⟨hcpu, hmem⟩ := hp.same hh hlook
  constructor
  · show t.cpu.mode.halted = false
    rw [hcpu]
    rfl
  · refine headFails_congr ?_ hmem
    show { t.cpu with decodeSeg := ['['] } = _
    rw [hcpu]
    rfl

/-- When the emulator is stopped at the opcode, the run ends as it should. -/
theorem Passes.stopsNoExec (hp : Passes h e (iterStart h s) t) {m : Nat} {op1 : U8} {u : St}
    (hend : prefixLoop h m (startPrefixes t) = (some op1, u)) (hhalted : u.halted = true) :
    StopsNoExec h e s := by
  obtain ⟨hcpu, hmem⟩ := hp.same hh hlook
  have hsaved := (prefixLoop_halted hh (hp.head hh hlook).1 hend).2
  have hend' := prefixLoop_more hend (Nat.le_succ m)
  have hpass : Passes h { e with fuel := m + 1 } (iterStart h s) t := ⟨hp.more, hp.early, hp.code⟩
  have hread : (readOpcode h { e with fuel := m + 1 } 0 t).2 =
      { u with cpu := { u.cpu with eip := u.cpu.savedEip } } := by
    rw [readOpcode, hend']
    exact congrArg Prod.snd (if_pos hhalted)
  have hkeeps := (KeepsState.stepRule hh hlook).readOpcode { e with fuel := m + 1 } 0 t
  rw [hread] at hkeeps
  refine ⟨m + 1, runNoExec, { u with cpu := { u.cpu with eip := u.cpu.savedEip } }, ?_,
    by decide, ?_, ?_⟩
  · unfold runLoop
    rw [runIter_head hpass hend' hhalted]
  · obtain ⟨_, _, hrun⟩ := endRun_frame h e runNoExec
      { u with cpu := { u.cpu with eip := u.cpu.savedEip } }
    rw [hrun]
    show u.cpu.savedEip = s.cpu.eip
    rw [hsaved]
    show t.cpu.savedEip = s.cpu.eip
    rw [hcpu]
    rfl
  · exact (KeepsState.of_start hcpu hmem).trans (hkeeps.trans (.endRun h e runNoExec _))

variable (hstay : h.Respects StaysHalted) (hnone : h.Respects Unfailed)

include hstay hnone

/-- A run that ends as it should has been stopped by the prefixes or the opcode. -/
theorem StopsNoExec.headFails (hfail : FetchFails h e s) (hstops : StopsNoExec h e s) :
    (instrStart s).HeadFails := by
  obtain ⟨t, hstart, hp⟩ := hfail.reaches hnone
  obtain ⟨hgoes, hhead⟩ := hp.head hh hlook
  obtain ⟨n, addr, herr⟩ := hfail
  obtain ⟨k, rs, v, hloop, hbit, -⟩ := hstops
  have hpass : ∀ k, Passes h { e with fuel := k } (iterStart h s) t := fun _ =>
    ⟨hp.more, hp.early, hp.code⟩
  cases k with
  | zero => cases hloop
  | succ k =>
    cases hread : prefixLoop h (k + 1) (startPrefixes t) with
    | mk op u =>
      cases op with
      | none =>
        unfold runLoop at hloop
        rw [runIter_never (hpass (k + 1)) (congrArg Prod.fst hread)] at hloop
        cases hloop
      | some op1 =>
        rw [← hhead, ← (prefixLoop_halted hh hgoes hread).1]
        by_contra hnot
        have hgo := Bool.eq_false_iff.mpr hnot
        -- with fuel for the fetch that fails and for the run
        have hk : k + 1 ≤ k + 1 + n := Nat.le_add_right ..
        have hn : n ≤ k + 1 + n := Nat.le_add_left ..
        have hloop' := runLoop_more hk hk hloop
        have herr' := fetchError_more hstay hnone hstart (hpass (k + 1 + n)) hread hgo hk hn herr
        obtain ⟨rs', w, hbit', hiter, hw⟩ := runIter_body hstay hnone hstart (hpass (k + 1 + n))
          (prefixLoop_more hread hk) hgo
        rw [hiter] at herr'
        have hhalted : w.halted = true := hw.resolve_right fun hquiet => hquiet.not_mem addr herr'
        rw [hhalted, if_pos rfl] at hiter
        rw [Nat.add_right_comm k 1 n] at hloop' hiter
        unfold runLoop at hloop'
        rw [hiter] at hloop'
        cases hloop'
        exact hbit hbit'

end

/-- When a byte of an instruction cannot be fetched, the run ends with `X86EMU_RUN_NO_EXEC` and the
state from before the instruction if and only if one of the prefixes or the opcode byte cannot. -/
theorem stopsNoExec_iff {inp : PortInput} {h : Host} (hh : h.Blind inp) (hlook : h.OnlyLooks)
    (hstay : h.Respects StaysHalted) (hnone : h.Respects Unfailed) {e : RunEnv} {s : St}
    (hfail : FetchFails h e s) : StopsNoExec h e s ↔ (instrStart s).HeadFails := by
  constructor
  · exact StopsNoExec.headFails hh hlook hstay hnone hfail
  · intro hfails
    obtain ⟨t, -, hp⟩ := hfail.reaches hnone
    obtain ⟨hgoes, hhead⟩ := hp.head hh hlook
    obtain ⟨_, _, hop, _⟩ := hhead.mpr hfails
    obtain ⟨m, hreached⟩ := prefixLoop_ends hh hop
    obtain ⟨op1, hop1⟩ := Option.ne_none_iff_exists'.mp hreached
    have hend : prefixLoop h m (startPrefixes t) = (some op1, _) := Prod.ext hop1 rfl
    exact hp.stopsNoExec hh hlook hend ((prefixLoop_halted hh hgoes hend).1.mpr (hhead.mpr hfails))

/-- The opcode of an instruction at the reset address, the only byte that has been written. -/
def opcodeOnly (op1 : U8) : St :=
  x86emuReset (x86emuWriteByte (defaultHost fun _ _ _ => 0) 0xffff0 (op1.setWidth 32)
    { mem := emuMemNew 7 })

theorem defaultHost_unfailed (inp : PortInput) : (defaultHost inp).Respects Unfailed :=
  defaultHost_respects inp (fun _ _ _ => .of_same rfl) (fun _ => .of_same rfl)
    fun _ => .of_same rfl

theorem stopsNoExec_iff_new :
    let h := defaultHost fun _ _ _ => 0
    StopsNoExec h { flags := 0, fuel := 2 } (x86emuReset { mem := emuMemNew 7 }) ↔
      (instrStart (x86emuReset { mem := emuMemNew 7 })).HeadFails :=
  stopsNoExec_iff (defaultHost_default _).blind (defaultHost_looks _) (defaultHost_stays _)
    (defaultHost_unfailed _) ⟨2, 0xffff0, by decide +kernel⟩

/-- After the opcode of `MOV AL,imm8` nothing has been written: `AL` is set to 0xff. -/
theorem stopsNoExec_fails :
    ¬∀ (inp : PortInput) (h : Host), h.Default inp → ∀ (e : RunEnv) (s : St),
      FetchFails h e s → StopsNoExec h e s := by
  intro hclaim
  have hh := (defaultHost_default fun _ _ _ => 0).blind
  have hfail : FetchFails (defaultHost fun _ _ _ => 0) { flags := 0, fuel := 2 }
      (opcodeOnly 0xb0) := ⟨2, 0xffff1, by decide +kernel⟩
  have hhead := (hclaim _ _ (defaultHost_default fun _ _ _ => 0) _ _ hfail).headFails hh
    (defaultHost_looks _) (defaultHost_stays _) (defaultHost_unfailed _) hfail
  rw [headFails_iff (fun i hi => absurd hi (Nat.not_lt_zero i)) (by decide +kernel)] at hhead
  revert hhead
  decide +kernel

end X86Emu
