import X86Emu.Run.Api
import X86Emu.Run.LogSpace

/-!
# The log buffer over whole runs

Three writers of the run loop do not make sure that their text fits: `log_regs` asks for 512 bytes,
which the registers with the SSE ones can need more than, `log_code` for 512 bytes whatever the
disassembly has, and the exit messages are put without a look at the free space. In every sequence
of calls in which their texts fit, nothing is written outside the buffer.
-/

namespace X86Emu

open Lib

/-! ## The host -/

/-- The callbacks do not write the log, and the ratio of two time stamps is formatted with less
than 2^30 characters. -/
structure Host.LeavesLog (h : Host) : Prop where
  callbacks : h.Respects KeepsBuf
  ratio : ∀ a b, (h.ratio a b).length < 2 ^ 30

theorem defaultHost_leavesLog (inp : PortInput) : (defaultHost inp).LeavesLog where
  callbacks := defaultHost_respects inp (fun _ _ _ => ⟨rfl, rfl⟩) (fun _ => ⟨rfl, rfl⟩)
    fun _ => ⟨rfl, rfl⟩
  ratio _ _ := (by decide : 0 < 2 ^ 30)

/-- When the log is in order, it stays so. -/
def KeepsLog (s t : St) : Prop := s.LogInv → t.LogInv

namespace KeepsLog

variable {s t u : St}

theorem of_keeps (hst : KeepsBuf s t) : KeepsLog s t := fun hs => hs.of_keeps hst

theorem refl (s : St) : KeepsLog s s := id

theorem trans (hs : KeepsLog s t) (ht : KeepsLog t u) : KeepsLog s u := fun hinv => ht (hs hinv)

variable {h : Host} (hh : h.LeavesLog)

include hh

theorem callMemio (kind : MemioKind) (bits : MemioBits) (addr val : U32) (s : St) :
    KeepsLog s (callMemio kind bits addr val h s).2 :=
  of_keeps ⟨(hh.callbacks.memio s kind bits addr val).buf,
    (hh.callbacks.memio s kind bits addr val).debug⟩

theorem line {thr : U32} (guard : Log → Bool) {text : St → List Char}
    (ht : ∀ s, (text s).length < thr.toNat) (s : St) : KeepsLog s (logLine thr guard text h s) :=
  logLine_inv hh.callbacks.flush (.of_lt (ht _))

/-- Every program leaves the log in order. -/
theorem emu {α : Type} (x : Emu α) (s : St) : KeepsLog s (x.run h s).2 := by
  refine x.invariant refl trans ?_ s
  intro β y hy s
  cases hy with
  | capture bytes =>
    refine of_keeps ?_
    unfold captureBytes
    dsimp only
    split <;> exact ⟨rfl, rfl⟩
  | memio kind width addr val => exact callMemio hh kind width.bits addr val s
  | log thr guard text ht => exact line hh guard ht s
  | raise nr type err =>
    refine of_keeps ?_
    unfold x86emuIntrRaise
    dsimp only
    split <;> exact ⟨rfl, rfl⟩
  | cpuid => exact callHandler_keeps refl (fun hf s => of_keeps (hh.callbacks.cpuid hf s)) s
  | rdmsr => exact callHandler_keeps refl (fun hf s => of_keeps (hh.callbacks.rdmsr hf s)) s
  | wrmsr => exact callHandler_keeps refl (fun hf s => of_keeps (hh.callbacks.wrmsr hf s)) s
  | debugRecord start ofs =>
    unfold setDebugRecord
    dsimp only
    split
    · next hofs =>
      -- the length is a positive signed byte
      refine fun hs => ⟨hs.ok, ?_⟩
      have hmsb : ofs.msb = false := by
        rw [BitVec.msb_eq_toInt, decide_eq_false_iff_not]
        omega
      rw [BitVec.signExtend_eq_setWidth_of_msb_false hmsb, BitVec.toNat_setWidth]
      have hlt := BitVec.msb_eq_false_iff_two_mul_lt.mp hmsb
      omega
    · exact refl s
  | _ => exact of_keeps ⟨rfl, rfl⟩

theorem stepRule : StepRule h KeepsLog where
  refl := refl
  trans := trans
  cpu _ _ := of_keeps ⟨rfl, rfl⟩
  buffers _ _ _ := of_keeps ⟨rfl, rfl⟩
  clock _ _ := of_keeps ⟨rfl, rfl⟩
  fetch := emu hh fetchByte
  peek addr s := callMemio hh _ _ addr _ s
  codeCheck hf s := of_keeps (hh.callbacks.codeCheck hf s)

theorem textRule : TextRule h KeepsLog where
  refl := refl
  trans := trans
  chars ht _ hs := x86emuLog_inv hh.callbacks.flush ht hs
  ratio a b s hs := by
    refine x86emuLog_inv hh.callbacks.flush ?_ hs
    have hratio := hh.ratio a b
    rw [List.length_append, show ", ratio=".toList.length = 8 from rfl]
    omega

theorem handleInterrupt (s : St) : KeepsLog s (handleInterrupt h s) := by
  have htext : ∀ i : Intr, (intText i).length < (128 : U32).toNat := by
    intro i
    unfold intText
    split <;> simp
  have hcall : ∀ nr type (s : St), KeepsLog s (callIntr nr type h s).2 := by
    intro nr type s
    unfold callIntr
    split
    · next f hf => exact of_keeps (hh.callbacks.intr hf s nr type)
    · exact refl s
  have hint : ∀ nr type err (s : St), KeepsLog s (generateInt nr type err h s) := by
    intro nr type err s
    have hstart : KeepsLog s { s with
        intrStats := Function.update s.intrStats nr (s.intrStats nr + 1)
        hist := .deliver nr type :: s.hist } := of_keeps ⟨rfl, rfl⟩
    unfold generateInt
    dsimp only
    split
    · exact hstart.trans (hcall nr type _)
    · exact hstart.trans ((hcall nr type _).trans (emu hh (deliverInt nr type err) _))
  unfold X86Emu.handleInterrupt
  dsimp only
  split
  · exact of_keeps ⟨rfl, rfl⟩
  · exact (line hh _ (fun s => htext s.intr) s).trans ((hint _ _ _ _).trans (of_keeps ⟨rfl, rfl⟩))

end KeepsLog

/-! ## The debug instruction -/

/-- More than `n` bytes are free. -/
def St.Space (n : Nat) (s : St) : Prop := ∀ b ∈ s.log.buf, n < b.free.toNat

theorem St.Space.of_keeps {s t : St} {n : Nat} (hs : s.Space n) (hst : KeepsBuf s t) : t.Space n :=
  fun b hb => hs b (hst.buf ▸ hb)

theorem putLog_space {t : List Char} {n : Nat} {s : St} (hs : s.LogInv)
    (hspace : s.Space (t.length + n)) : (putLog t s).LogInv ∧ (putLog t s).Space n := by
  unfold putLog
  cases hb : s.log.buf with
  | none => exact ⟨hs, fun b hb' => absurd (hb.symm.trans hb') nofun⟩
  | some b =>
    have hfree := hspace b hb
    have hput := (hs.ok b hb).put (Nat.lt_of_le_of_lt (Nat.le_add_right _ n) hfree)
    refine ⟨hs.setBuf hput, ?_⟩
    intro b' hb'
    obtain rfl : b.put t = b' := Option.some.inj hb'
    have hbefore := (hs.ok b hb).free
    have hafter := hput.free
    rw [LogBuf.put_ptr, LogBuf.put_size] at hafter
    omega

theorem nulLog_inv {s : St} (hs : s.LogInv) : (nulLog s).LogInv := by
  unfold nulLog
  cases hb : s.log.buf with
  | none => exact hs
  | some b => exact hs.setBuf (hs.ok b hb).nul

section

variable {h : Host} (hh : h.LeavesLog)

include hh

theorem readByteNoperm_keeps (addr : U32) (s : St) : KeepsBuf s (readByteNoperm h addr s).2 :=
  ⟨(hh.callbacks.memio s .r .b8noperm addr 0xff).buf,
    (hh.callbacks.memio s .r .b8noperm addr 0xff).debug⟩

/-- The text of a debug instruction is put byte by byte. -/
theorem debugChars_space (k n : Nat) (start : U32) {s : St} (hs : s.LogInv)
    (hspace : s.Space (k + n)) :
    (debugChars h k start s).LogInv ∧ (debugChars h k start s).Space n := by
  induction k generalizing start s with
  | zero => exact ⟨hs, by rwa [Nat.zero_add] at hspace⟩
  | succ k ih =>
    have hread := readByteNoperm_keeps hh start s
    obtain ⟨hput, hspace'⟩ := putLog_space (n := k + n)
      (t := [Char.ofNat ((readByteNoperm h start s).1.extractLsb' 0 8).toNat])
      (hs.of_keeps hread) (by
        rw [List.length_singleton]
        exact (show 1 + (k + n) = k + 1 + n by omega) ▸ hspace.of_keeps hread)
    exact ih (start + 1) hput hspace'

theorem debugCommand_inv (type start len : U32) {s : St} (hs : s.LogInv)
    (hspace : s.Space (len.toNat + 2)) : (debugCommand h type start len s).LogInv := by
  have hread := (KeepsLog.stepRule hh).looks.readBytesNoperm 4 start s hs
  unfold debugCommand
  generalize readBytesNoperm h 4 start s = p at hread ⊢
  split
  · obtain ⟨hline, hspace₁⟩ := putLog_space (t := "\n".toList) (n := len.toNat + 1) hs
      (by rwa [show "\n".toList.length = 1 from rfl, Nat.add_comm 1])
    obtain ⟨hchars, hspace₂⟩ := debugChars_space hh len.toNat 1 start hline hspace₁
    exact (putLog_space (t := "\n".toList) (n := 0) hchars hspace₂).1
  · exact hread.of_keeps ⟨rfl, rfl⟩
  · exact hread.of_keeps ⟨rfl, rfl⟩
  · exact (KeepsLog.textRule hh).dump _ _ hread
  · exact hs.of_keeps ⟨rfl, rfl⟩
  · exact hs

/-- The debug instruction asks for more space than its record can fill. -/
theorem emuProcessDebug_inv (start : U32) {len : U32} (hne : len ≠ 0) (hlen : len.toNat < 128)
    {s : St} (hs : s.LogInv) : (emuProcessDebug h start len s).LogInv := by
  cases hb : s.log.buf with
  | none =>
    unfold emuProcessDebug
    rwa [hb]
  | some b =>
    have hspace := withSpace_inv hh.callbacks.flush 1024 hs
    obtain ⟨b', hb', hstart⟩ := withSpace_eq hh.callbacks.flush 1024 hb
    unfold emuProcessDebug
    rw [hb]
    dsimp only
    rw [hstart]
    dsimp only
    split
    · exact hspace
    · next hfree =>
      have hread := readByteNoperm_keeps hh start (withSpace 1024 h s)
      refine nulLog_inv (debugCommand_inv hh _ _ _ (hspace.of_keeps hread) ?_)
      intro b hb
      obtain rfl : b' = b := Option.some.inj (hb'.symm.trans (hread.buf.symm.trans hb))
      have hfree' : 1024 ≤ b'.free.toNat := BitVec.le_def.mp (BitVec.not_lt.mp hfree)
      have hshort : (len - 1).toNat = len.toNat - 1 := by bv_omega
      omega

theorem processDebug_inv {s : St} (hs : s.LogInv) : (processDebug h s).LogInv := by
  unfold processDebug
  split
  · next hne =>
    have hdebug := emuProcessDebug_inv hh s.debugStart hne hs.debug hs
    exact ⟨hdebug.ok, (by decide : 0 < 128)⟩
  · exact hs

end

/-! ## Runs -/

/-- The writers of the run loop that do not make sure that their text fits. -/
inductive LogCall
  | regs
  | code
  | exit (rs : U32)

/-- The text of the writer fits. Without the SSE registers that of `log_regs` always does. -/
def LogCall.Fits (h : Host) : LogCall → St → Prop
  | .regs, s => (withSpace 512 h s).cpu.osfxsr = true →
    TextFits 512 (·.has traceRegs) (fun s => regsText s.cpu) h s
  | .code, s => TextFits 512 (·.has traceCode) codeText h s
  | .exit rs, s => s.Space (exitText rs).length

instance LogCall.decFits (h : Host) : (call : LogCall) → (s : St) → Decidable (call.Fits h s)
  | .regs, s => inferInstanceAs (Decidable ((withSpace 512 h s).cpu.osfxsr = true →
      TextFits 512 (·.has traceRegs) (fun s => regsText s.cpu) h s))
  | .code, s => inferInstanceAs (Decidable (TextFits 512 (·.has traceCode) codeText h s))
  | .exit rs, s =>
    inferInstanceAs (Decidable (∀ b ∈ s.log.buf, (exitText rs).length < b.free.toNat))

theorem length_regsText {c : Cpu} (hsse : c.osfxsr = false) : (regsText c).length ≤ 218 := by
  have hflags := length_flagsText c
  unfold regsText xmmText
  rw [hsse, if_neg Bool.false_ne_true]
  simp [genText, segText, field8, field4]
  omega

theorem regs_fits {h : Host} {s : St} (hfits : LogCall.regs.Fits h s) :
    TextFits 512 (·.has traceRegs) (fun s => regsText s.cpu) h s := by
  cases hsse : (withSpace 512 h s).cpu.osfxsr with
  | true => exact hfits hsse
  | false => exact .of_lt ((length_regsText hsse).trans_lt (by decide))

/-- The calls of these writers in a run, each with the state it is made in. -/
def logCalls (h : Host) (e : RunEnv) : Nat → U32 → St → List (LogCall × St)
  | 0, _, _ => []
  | n + 1, rs, s =>
    (.regs, startInstr s) ::
      match runChecks h e rs (logRegs h (startInstr s)) with
      | (.stop rs, s) => [(.exit rs, s)]
      | (.prefixes, _) => []
      | (.exec rs op1, s) =>
        (.code, updateRealTsc h e (handleInterrupt h (afterHandler h op1 s))) ::
          if (execInstr h e op1 s).halted then [(.exit rs, execInstr h e op1 s)]
          else logCalls h e n rs (execInstr h e op1 s)

/-- The writers of a run find space for their text. -/
def RunFits (h : Host) (flags : U32) (fuel : Nat) (s : St) : Prop :=
  ∀ p ∈ logCalls h (beginRun h flags fuel s).1 fuel 0 (beginRun h flags fuel s).2, p.1.Fits h p.2

theorem logExit_inv (rs : U32) {s : St} (hs : s.LogInv) (hfits : s.Space (exitText rs).length) :
    (logExit rs s).LogInv := by
  unfold logExit
  cases hb : s.log.buf with
  | none => exact hs
  | some b => exact hs.setBuf ((hs.ok b hb).put (hfits b hb)).nul

section

variable {h : Host} (hh : h.LeavesLog)

include hh

/-- From the checks of an iteration to the code trace. -/
theorem beforeCode_inv (e : RunEnv) (op1 : U8) {s : St} (hs : s.LogInv) :
    (updateRealTsc h e (handleInterrupt h (afterHandler h op1 s))).LogInv := by
  have hstart : KeepsBuf s { s with hist := .instr op1 :: s.hist } := ⟨rfl, rfl⟩
  have hrun := KeepsLog.emu hh (handlerAt x86emuOptab op1 op1) _ (hs.of_keeps hstart)
  have hint := KeepsLog.handleInterrupt hh _ hrun
  have htsc : KeepsBuf (handleInterrupt h (afterHandler h op1 s))
      (updateRealTsc h e (handleInterrupt h (afterHandler h op1 s))) := ⟨rfl, rfl⟩
  exact hint.of_keeps htsc

theorem execInstr_inv (e : RunEnv) (op1 : U8) {s : St} (hs : s.LogInv)
    (hfits : TextFits 512 (·.has traceCode) codeText h
      (updateRealTsc h e (handleInterrupt h (afterHandler h op1 s)))) :
    (execInstr h e op1 s).LogInv := by
  have hcode := logLine_inv hh.callbacks.flush hfits (beforeCode_inv hh e op1 hs)
  exact (processDebug_inv hh hcode).of_keeps ⟨rfl, rfl⟩

/-- In the iterations of a run the log stays in order, also where the writers are called, and the
exit messages fit. -/
theorem runLoop_inv (e : RunEnv) (n : Nat) (rs : U32) {s : St} (hs : s.LogInv)
    (hfits : ∀ p ∈ logCalls h e n rs s, p.1.Fits h p.2) :
    (∀ p ∈ logCalls h e n rs s, p.2.LogInv) ∧ (runLoop h e n rs s).2.LogInv ∧
      ∀ rs', (runLoop h e n rs s).1 = some rs' →
        (runLoop h e n rs s).2.Space (exitText rs').length := by
  induction n generalizing rs s with
  | zero =>
    refine ⟨fun p hp => absurd hp List.not_mem_nil, hs, fun rs' hrs => ?_⟩
    cases hrs
  | succ n ih =>
    have hsteps := KeepsLog.stepRule hh
    have hstart := hsteps.startInstr s hs
    unfold logCalls at hfits ⊢
    rw [List.forall_mem_cons] at hfits ⊢
    obtain ⟨hregs, hfits⟩ := hfits
    have hlog : (logRegs h (startInstr s)).LogInv :=
      logLine_inv hh.callbacks.flush (regs_fits hregs) hstart
    have hchecks := hsteps.runChecks e rs _ hlog
    unfold runLoop runIter
    generalize runChecks h e rs (logRegs h (startInstr s)) = c at hchecks hfits ⊢
    obtain ⟨_ | _ | ⟨rs', op1⟩, u⟩ := c
    · -- the run ends with the checks
      dsimp only at hfits ⊢
      rw [List.forall_mem_singleton] at hfits ⊢
      refine ⟨⟨hstart, hchecks⟩, hchecks, fun rs' hrs => ?_⟩
      cases hrs
      exact hfits
    · refine ⟨⟨hstart, fun p hp => absurd hp List.not_mem_nil⟩, hchecks, fun rs' hrs => ?_⟩
      cases hrs
    · dsimp only at hfits ⊢
      rw [List.forall_mem_cons] at hfits ⊢
      obtain ⟨hcode, hfits⟩ := hfits
      have hbefore := beforeCode_inv hh e op1 hchecks
      have hexec := execInstr_inv hh e op1 hchecks hcode
      by_cases hhalted : (execInstr h e op1 u).halted = true
      · rw [if_pos hhalted] at hfits ⊢
        rw [if_pos hhalted]
        rw [List.forall_mem_singleton] at hfits ⊢
        refine ⟨⟨hstart, hbefore, hexec⟩, hexec, fun rs'' hrs => ?_⟩
        cases hrs
        exact hfits
      · rw [if_neg hhalted] at hfits ⊢
        rw [if_neg hhalted]
        obtain ⟨hcalls, hloop, hexit⟩ := ih rs' hexec hfits
        exact ⟨⟨hstart, hbefore, hcalls⟩, hloop, hexit⟩

theorem x86emuRun_inv (flags : U32) (fuel : Nat) {s : St} (hs : s.LogInv)
    (hfits : RunFits h flags fuel s) :
    (∀ p ∈ logCalls h (beginRun h flags fuel s).1 fuel 0 (beginRun h flags fuel s).2, p.2.LogInv) ∧
      (x86emuRun h flags fuel s).2.LogInv := by
  obtain ⟨hcalls, hloop, hexit⟩ := runLoop_inv hh (beginRun h flags fuel s).1 fuel 0
    (hs.of_keeps ⟨rfl, rfl⟩ : (beginRun h flags fuel s).2.LogInv) hfits
  refine ⟨hcalls, ?_⟩
  unfold x86emuRun
  generalize beginRun h flags fuel s = p at hloop hexit ⊢
  dsimp only
  generalize runLoop h p.1 fuel 0 p.2 = q at hloop hexit ⊢
  obtain ⟨_ | rs, t⟩ := q
  · exact hloop
  · exact (logExit_inv rs hloop (hexit rs rfl)).of_keeps ⟨rfl, rfl⟩

end

/-! ## Calls -/

/-- `x86emu_log` gets a text that can be formatted, and the writers of a run find space. -/
def ApiCall.Fits (h : Host) : ApiCall → St → Prop
  | .run flags fuel, s => RunFits h flags fuel s
  | .log text, _ => text.isSome ∧ ∀ t ∈ text, t.length < 2 ^ 31
  | .clearLog _, _ => True
  | .dump _, _ => True
  | .setTrace _, _ => True

/-- Each of the calls, in the state it is made in. -/
def CallsFit (h : Host) : List ApiCall → St → Prop
  | [], _ => True
  | call :: calls, s => call.Fits h s ∧ CallsFit h calls (call.exec h s)

instance ApiCall.decFits (h : Host) : (call : ApiCall) → (s : St) → Decidable (call.Fits h s)
  | .run flags fuel, s => inferInstanceAs (Decidable
      (∀ p ∈ logCalls h (beginRun h flags fuel s).1 fuel 0 (beginRun h flags fuel s).2,
        p.1.Fits h p.2))
  | .log text, _ => inferInstanceAs (Decidable (text.isSome ∧ ∀ t ∈ text, t.length < 2 ^ 31))
  | .clearLog _, _ => isTrue trivial
  | .dump _, _ => isTrue trivial
  | .setTrace _, _ => isTrue trivial

instance CallsFit.dec (h : Host) :
    (calls : List ApiCall) → (s : St) → Decidable (CallsFit h calls s)
  | [], _ => isTrue trivial
  | call :: calls, s =>
    have := CallsFit.dec h calls (call.exec h s)
    inferInstanceAs (Decidable (call.Fits h s ∧ CallsFit h calls (call.exec h s)))

/-- The states of a run in which its writers are called. -/
def ApiCall.states (h : Host) : ApiCall → St → List St
  | .run flags fuel, s =>
    (logCalls h (beginRun h flags fuel s).1 fuel 0 (beginRun h flags fuel s).2).map Prod.snd
  | _, _ => []

/-- The states before, in and after a sequence of calls. -/
def callStates (h : Host) : List ApiCall → St → List St
  | [], s => [s]
  | call :: calls, s => s :: call.states h s ++ callStates h calls (call.exec h s)

theorem execCalls_mem (h : Host) (calls : List ApiCall) (s : St) :
    execCalls h calls s ∈ callStates h calls s := by
  induction calls generalizing s with
  | nil => exact List.mem_singleton_self s
  | cons call calls ih => exact List.mem_append_right _ (ih (call.exec h s))

theorem ApiCall.exec_inv {h : Host} (hh : h.LeavesLog) {call : ApiCall} {s : St} (hs : s.LogInv)
    (hfits : call.Fits h s) :
    (∀ t ∈ call.states h s, t.LogInv) ∧ (call.exec h s).LogInv := by
  have hnone : ∀ t ∈ ([] : List St), t.LogInv := fun t ht => absurd ht List.not_mem_nil
  cases call with
  | run flags fuel =>
    obtain ⟨hcalls, hrun⟩ := x86emuRun_inv hh flags fuel hs hfits
    exact ⟨List.forall_mem_map.mpr hcalls, hrun⟩
  | log text =>
    obtain ⟨hsome, hshort⟩ := hfits
    obtain ⟨t, rfl⟩ := Option.isSome_iff_exists.mp hsome
    exact ⟨hnone, x86emuLog_inv hh.callbacks.flush (hshort t rfl) hs⟩
  | clearLog flush => exact ⟨hnone, clearLog_inv hh.callbacks.flush flush hs⟩
  | dump flags => exact ⟨hnone, (KeepsLog.textRule hh).dump flags s hs⟩
  | setTrace flags => exact ⟨hnone, hs.of_keeps ⟨rfl, rfl⟩⟩

theorem callStates_inv {h : Host} (hh : h.LeavesLog) (calls : List ApiCall) {s : St}
    (hs : s.LogInv) (hfits : CallsFit h calls s) : ∀ t ∈ callStates h calls s, t.LogInv := by
  induction calls generalizing s with
  | nil => exact List.forall_mem_singleton.mpr hs
  | cons call calls ih =>
    obtain ⟨hcall, hcalls⟩ := hfits
    obtain ⟨hstates, hexec⟩ := call.exec_inv hh hs hcall
    exact List.forall_mem_append.mpr ⟨List.forall_mem_cons.mpr ⟨hs, hstates⟩, ih hexec hcalls⟩

/-- The log buffer is in order. -/
def St.LogOk (s : St) : Prop := ∀ b, s.log.buf = some b → b.Ok

theorem setLog_inv (size : U32) {s : St} (hdebug : s.debugLen = 0) :
    (x86emuSetLog size s).LogInv := by
  have hbuf : ∀ b, (x86emuSetLog size s).log.buf = some b → size ≠ 0 ∧ b = { size := size } := by
    intro b hb
    change (if size = 0 then none else some { size := size }) = some b at hb
    split at hb
    · cases hb
    · next hne => exact ⟨hne, (Option.some.inj hb).symm⟩
  constructor
  · intro b hb
    obtain ⟨hne, rfl⟩ := hbuf b hb
    have hpos : 0 < size.toNat := by bv_omega
    exact ⟨Int.le_refl 0, Int.natCast_pos.mpr hpos, Int.le_refl 0, Int.natCast_nonneg _⟩
  · show s.debugLen.toNat < 128
    rw [hdebug]
    decide

end X86Emu
