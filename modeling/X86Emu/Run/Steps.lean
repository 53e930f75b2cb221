import Mathlib.Logic.Relation
import X86Emu.Run.DumpTexts
import X86Emu.Run.Loop

/-!
# The steps of the run loop

What the run loop does besides executing opcode handlers and writing the log is a chain of the
elementary steps of `Quiet`. A relation that these steps, the log writers and the opcode handlers
keep is kept by all runs, `RunRule.x86emuRun`.
-/

namespace X86Emu

open Lib Relation

/-- Only `EIP`, the mode and the decoder's own fields are written. -/
def DecodeWrite (f : Cpu → Cpu) : Prop :=
  ∀ c, ∃ eip mode decodeSeg defaultSeg savedCs savedEip, f c =
    { c with
      eip := eip
      mode := mode
      decodeSeg := decodeSeg
      defaultSeg := defaultSeg
      savedCs := savedCs
      savedEip := savedEip }

/-- The elementary steps of the run loop outside opcode handlers, log writers and the delivery of
interrupts. -/
inductive Quiet (h : Host) : St → St → Prop
  | cpu {f : Cpu → Cpu} (hf : DecodeWrite f) (s : St) : Quiet h s { s with cpu := f s.cpu }
  | buffers (bytes : List U8) (text : List Char) (s : St) :
      Quiet h s { s with instrBuf := bytes, disasm := text }
  | clock (n : Nat) (s : St) : Quiet h s { s with clock := n }
  | msr {u : Nat} (hu : u ≠ 0x10) (v : U64) (s : St) : Quiet h s (s.setMsr u v)
  | iopl (ok : Bool) (s : St) : Quiet h s { s with io := { s.io with ioplOk := ok } }
  | trace (f : U32 → U32) (s : St) : Quiet h s (s.setTrace f)
  | debugDone (s : St) : Quiet h s { s with debugStart := 0, debugLen := 0 }
  | fetch (s : St) : Quiet h s (fetchByte.run h s).2
  | peek (addr : U32) (s : St) : Quiet h s (callMemio .r .b8noperm addr 0xff h s).2
  | codeCheck {f : St → Bool × St} (hf : h.codeCheck = some f) (s : St) : Quiet h s (f s).2

/-- The steps of the delivery of an interrupt. -/
inductive Delivery (h : Host) : St → St → Prop
  | deliver (nr : U8) (type : U32) (s : St) :
      Delivery h s { s with
        intrStats := Function.update s.intrStats nr (s.intrStats nr + 1)
        hist := .deliver nr type :: s.hist }
  | intr {f : St → U8 → U32 → Bool × St} (hf : h.intr = some f) (nr : U8) (type : U32) (s : St) :
      Delivery h s (f s nr type).2
  | frame (nr : U8) (type err : U32) (s : St) : Delivery h s ((deliverInt nr type err).run h s).2
  | done (s : St) : Delivery h s { s with intr := { s.intr with type := 0 } }

/-! ## Looking at the code -/

theorem readBytesNoperm_keeps {h : Host} {R : St → St → Prop} (refl : ∀ s, R s s)
    (trans : ∀ {s t u}, R s t → R t u → R s u)
    (peek : ∀ addr s, R s (callMemio .r .b8noperm addr 0xff h s).2) (n : Nat) (addr : U32)
    (s : St) : R s (readBytesNoperm h n addr s).2 := by
  induction n generalizing addr s with
  | zero => exact refl s
  | succ n ih => exact trans (peek addr s) (ih (addr + 1) _)

/-- What a relation has to keep for the checks of an opcode to keep it: they read without marks, and
they may halt. -/
structure LookRule (h : Host) (R : St → St → Prop) : Prop where
  refl : ∀ s, R s s
  trans : ∀ {s t u}, R s t → R t u → R s u
  peek : ∀ addr s, R s (callMemio .r .b8noperm addr 0xff h s).2
  halt : ∀ s, R s s.halt

namespace LookRule

variable {h : Host} {R : St → St → Prop} (hR : LookRule h R)

include hR

theorem readByteNoperm (addr : U32) (s : St) : R s (readByteNoperm h addr s).2 := hR.peek addr s

theorem readBytesNoperm (n : Nat) (addr : U32) (s : St) : R s (readBytesNoperm h n addr s).2 :=
  readBytesNoperm_keeps hR.refl hR.trans hR.peek n addr s

theorem haltIf (rs : U32) (s : St) : R s (haltIf rs s) := by
  unfold X86Emu.haltIf
  split
  · exact hR.halt s
  · exact hR.refl s

theorem loopOfs (op1 : U8) (s : St) : R s (loopOfs h op1 s).2 := by
  have hlong := hR.readBytesNoperm 4 s.codeAddr s
  have hword := hR.readBytesNoperm 2 s.codeAddr s
  unfold X86Emu.loopOfs
  generalize X86Emu.readBytesNoperm h 4 s.codeAddr s = long at hlong ⊢
  generalize X86Emu.readBytesNoperm h 2 s.codeAddr s = word at hword ⊢
  split
  · exact hR.readByteNoperm _ s
  · split
    · split
      · exact hlong
      · exact hword
    · exact hR.refl s

theorem loopFound (ofs : U32) (s : St) : R s (loopFound h ofs s).2 := by
  unfold X86Emu.loopFound
  dsimp only
  split
  · exact hR.refl s
  · split
    · exact hR.readByteNoperm _ s
    · exact hR.refl s

theorem checkLoop (e : RunEnv) (op1 : U8) (rs : U32) (s : St) :
    R s (checkLoop h e op1 rs s).2 := by
  unfold X86Emu.checkLoop
  split
  · dsimp only
    split
    · exact hR.trans (hR.loopOfs op1 s) (hR.trans (hR.loopFound _ _) (hR.haltIf _ _))
    · exact hR.loopOfs op1 s
  · exact hR.refl s

theorem checkNoCode (e : RunEnv) (op1 : U8) (rs : U32) (s : St) :
    R s (checkNoCode h e op1 rs s).2 := by
  unfold X86Emu.checkNoCode
  split
  · split
    · exact hR.trans (hR.readByteNoperm _ s) (hR.haltIf _ _)
    · exact hR.haltIf rs s
  · exact hR.refl s

end LookRule

/-- What a relation has to keep for the checks of an iteration to keep it. -/
structure StepRule (h : Host) (R : St → St → Prop) : Prop where
  refl : ∀ s, R s s
  trans : ∀ {s t u}, R s t → R t u → R s u
  cpu : ∀ {f}, DecodeWrite f → ∀ s, R s { s with cpu := f s.cpu }
  buffers : ∀ bytes text s, R s { s with instrBuf := bytes, disasm := text }
  clock : ∀ n s, R s { s with clock := n }
  fetch : ∀ s, R s (fetchByte.run h s).2
  peek : ∀ addr s, R s (callMemio .r .b8noperm addr 0xff h s).2
  codeCheck : ∀ {f}, h.codeCheck = some f → ∀ s, R s (f s).2

namespace StepRule

variable {h : Host} {R : St → St → Prop} (hR : StepRule h R)

include hR

/-! ## Clocks -/

theorem hostTsc (s : St) : R s (hostTsc h s).2 := hR.clock _ s

theorem hostTime (s : St) : R s (hostTime h s).2 := hR.clock _ s

theorem looks : LookRule h R where
  refl := hR.refl
  trans := hR.trans
  peek := hR.peek
  halt s := hR.cpu (f := fun c => { c with mode := { c.mode with halted := true } })
    (fun _ => ⟨_, _, _, _, _, _, rfl⟩) s

/-! ## Prefixes -/

theorem opDecode (t : String) (s : St) : R s (s.opDecode t) := hR.buffers s.instrBuf _ s

theorem setMode (f : Mode → Mode) (s : St) : R s (s.setMode f) :=
  hR.cpu (f := fun c => { c with mode := f c.mode }) (fun _ => ⟨_, _, _, _, _, _, rfl⟩) s

theorem setOverride (r : SegReg) (s : St) : R s (setOverride r s) :=
  hR.cpu (f := fun c =>
    { c with decodeSeg := [r.letter, 's', ':', '['], defaultSeg := some r })
    (fun _ => ⟨_, _, _, _, _, _, rfl⟩) s

theorem prefixEffect {op1 : U8} {f : St → St} (hf : prefixEffect op1 = some f) (s : St) :
    R s (f s) := by
  unfold X86Emu.prefixEffect at hf
  split at hf
  iterate 6
    cases hf
    exact hR.setOverride _ s
  iterate 2
    cases hf
    exact hR.setMode _ s
  · cases hf
    exact hR.opDecode _ s
  iterate 2
    cases hf
    exact hR.trans (hR.opDecode _ s) (hR.setMode _ _)
  · cases hf

theorem prefixLoop (n : Nat) (s : St) : R s (prefixLoop h n s).2 := by
  induction n generalizing s with
  | zero => exact hR.refl s
  | succ n ih =>
    have hfetch : R s (fetchByte.run h s).2 := hR.fetch s
    unfold X86Emu.prefixLoop
    dsimp only
    split
    · next f hf => exact hR.trans hfetch (hR.trans (hR.prefixEffect hf _) (ih _))
    · exact hfetch

/-! ## Checks -/

theorem timedOut (e : RunEnv) (s : St) : R s (timedOut h e s).2 := by
  unfold X86Emu.timedOut
  split
  · exact hR.hostTime s
  · exact hR.refl s

theorem callCodeCheck (s : St) : R s (X86Emu.codeCheck h s).2 := by
  unfold X86Emu.codeCheck
  split
  · next f hf => exact hR.codeCheck hf s
  · exact hR.refl s

/-! ## Starts -/

theorem startInstr (s : St) : R s (startInstr s) :=
  hR.trans (hR.buffers [] [] s)
    (hR.cpu (f := Cpu.startInstr) (fun _ => ⟨_, _, _, _, _, _, rfl⟩) _)

theorem startPrefixes (s : St) : R s (startPrefixes s) :=
  hR.cpu (f := fun c => { c with decodeSeg := ['['] }) (fun _ => ⟨_, _, _, _, _, _, rfl⟩) s

/-! ## Iterations -/

theorem checkOpcode (e : RunEnv) (rs : U32) (op1 : U8) (s : St) :
    R s (checkOpcode h e rs op1 s).2 := by
  unfold X86Emu.checkOpcode
  split
  · exact hR.cpu (f := fun c => { c with eip := c.savedEip })
      (fun _ => ⟨_, _, _, _, _, _, rfl⟩) s
  · exact hR.trans (hR.looks.checkLoop e op1 rs s) (hR.looks.checkNoCode e op1 _ _)

theorem readOpcode (e : RunEnv) (rs : U32) (s : St) : R s (readOpcode h e rs s).2 := by
  have hprefix := hR.trans (hR.startPrefixes s) (hR.prefixLoop e.fuel _)
  unfold X86Emu.readOpcode
  generalize X86Emu.prefixLoop h e.fuel (X86Emu.startPrefixes s) = p at hprefix ⊢
  split
  · exact hprefix
  · exact hR.trans hprefix (hR.checkOpcode e rs _ _)

theorem runChecks (e : RunEnv) (rs : U32) (s : St) : R s (runChecks h e rs s).2 := by
  unfold X86Emu.runChecks
  split
  · exact hR.refl s
  · dsimp only
    split
    · exact hR.timedOut e s
    · split
      · exact hR.trans (hR.timedOut e s) (hR.callCodeCheck _)
      · exact hR.trans (hR.timedOut e s) (hR.trans (hR.callCodeCheck _) (hR.readOpcode e rs _))

end StepRule

/-! ## Quiet steps -/

/-- Any number of quiet steps. -/
abbrev Steps (h : Host) : St → St → Prop := ReflTransGen (Quiet h)

namespace Steps

variable {h : Host}

/-- What each quiet step keeps, a chain of them keeps. -/
theorem keeps {R : St → St → Prop} (refl : ∀ s, R s s)
    (trans : ∀ {s t u}, R s t → R t u → R s u) (quiet : ∀ {s t}, Quiet h s t → R s t) {s t : St}
    (hst : Steps h s t) : R s t := by
  induction hst with
  | refl => exact refl s
  | tail _ hlast ih => exact trans ih (quiet hlast)

theorem rule : StepRule h (Steps h) where
  refl _ := .refl
  trans := ReflTransGen.trans
  cpu hf s := .single (.cpu hf s)
  buffers bytes text s := .single (.buffers bytes text s)
  clock n s := .single (.clock n s)
  fetch s := .single (.fetch s)
  peek addr s := .single (.peek addr s)
  codeCheck hf s := .single (.codeCheck hf s)

theorem hostTsc (s : St) : Steps h s (hostTsc h s).2 := rule.hostTsc s

theorem startInstr (s : St) : Steps h s (startInstr s) := rule.startInstr s

theorem beginRun (flags : U32) (fuel : Nat) (s : St) : Steps h s (beginRun h flags fuel s).2 :=
  ((rule.hostTime s).trans (hostTsc _)).tail (.iopl _ _)

/-- The checks of an iteration are quiet. -/
theorem runChecks (e : RunEnv) (rs : U32) (s : St) : Steps h s (runChecks h e rs s).2 :=
  rule.runChecks e rs s

end Steps

/-- An instruction is executed only while the instruction limit is not reached. -/
theorem maxInstrReached_of_exec {h : Host} {e : RunEnv} {rs rs' : U32} {op1 : U8} {s s₁ : St}
    (hexec : runChecks h e rs s = (.exec rs' op1, s₁)) : maxInstrReached e s = false := by
  by_contra hmax
  rw [Bool.not_eq_false] at hmax
  unfold runChecks at hexec
  rw [if_pos hmax] at hexec
  cases hexec

/-! ## The host's handlers -/

/-- All handlers of the host keep the relation. -/
structure Host.Respects (h : Host) (R : St → St → Prop) : Prop where
  memio : ∀ s kind bits addr val, R s (h.memio s kind bits addr val).2
  codeCheck : ∀ {f}, h.codeCheck = some f → ∀ s, R s (f s).2
  cpuid : ∀ {f}, h.cpuid = some f → ∀ s, R s (f s)
  intr : ∀ {f}, h.intr = some f → ∀ s nr type, R s (f s nr type).2
  rdmsr : ∀ {f}, h.rdmsr = some f → ∀ s, R s (f s)
  wrmsr : ∀ {f}, h.wrmsr = some f → ∀ s, R s (f s)
  flush : ∀ {f}, h.flush = some f → ∀ s t, R s (f s t)

theorem Host.Respects.mono {h : Host} {R R' : St → St → Prop} (hh : h.Respects R)
    (hR : ∀ s t, R s t → R' s t) : h.Respects R' where
  memio s kind bits addr val := hR _ _ (hh.memio s kind bits addr val)
  codeCheck hf s := hR _ _ (hh.codeCheck hf s)
  cpuid hf s := hR _ _ (hh.cpuid hf s)
  intr hf s nr type := hR _ _ (hh.intr hf s nr type)
  rdmsr hf s := hR _ _ (hh.rdmsr hf s)
  wrmsr hf s := hR _ _ (hh.wrmsr hf s)
  flush hf s t := hR _ _ (hh.flush hf s t)

theorem callHandler_keeps {R : St → St → Prop} (hrefl : ∀ s, R s s) {f : Option (St → St)}
    (hf : ∀ {g}, f = some g → ∀ s, R s (g s)) (s : St) : R s (callHandler f s).2 := by
  cases f with
  | none => exact hrefl s
  | some g => exact hf rfl s

/-! ## Log writers -/

/-- A relation that does not see the log, and that the host's flush function keeps. -/
structure LogBlind (h : Host) (R : St → St → Prop) : Prop where
  refl : ∀ s, R s s
  trans : ∀ {s t u}, R s t → R t u → R s u
  log : ∀ s buf, R s { s with log := { s.log with buf := buf } }
  flush : ∀ {f}, h.flush = some f → ∀ s t, R s (f s t)

namespace LogBlind

variable {h : Host} {R : St → St → Prop} (hR : LogBlind h R)

include hR

theorem clearLog (flush : Bool) (s : St) : R s (x86emuClearLog h flush s).2 := by
  have hflush : R s (runFlush h s) := by
    unfold runFlush
    split
    · next f b hf _ =>
      split
      · exact hR.refl s
      · exact hR.flush hf s b.text
    · exact hR.refl s
  have hstart : R s (if flush then runFlush h s else s) := by
    split
    · exact hflush
    · exact hR.refl s
  unfold x86emuClearLog
  dsimp only
  split
  · exact hstart
  · exact hR.trans hstart (hR.log _ _)

theorem setBuf (b : LogBuf) (s : St) : R s (s.setBuf b) := hR.log s _

theorem exit (rs : U32) (s : St) : R s (logExit rs s) := by
  unfold logExit
  split
  · exact hR.refl s
  · exact hR.setBuf _ s

theorem line (thr : U32) (guard : Log → Bool) (text : St → List Char) (s : St) :
    R s (logLine thr guard text h s) := by
  unfold logLine
  split
  · exact hR.refl s
  · next b _ =>
    split
    · exact hR.refl s
    · have hstart : R s (if b.free < thr then x86emuClearLog h true s else (b.free, s)).2 := by
        split
        · exact hR.clearLog true s
        · exact hR.refl s
      generalize (if b.free < thr then x86emuClearLog h true s else (b.free, s)) = p at hstart ⊢
      dsimp only
      split
      · exact hstart
      · split
        · exact hstart
        · exact hR.trans hstart (hR.setBuf _ _)

theorem done (s : St) (b : LogBuf) (size logFree : Int) (t : Option (List Char)) :
    R s (logDone s b size logFree t) := by
  unfold logDone
  split
  · exact hR.setBuf _ s
  · exact hR.setBuf _ s

theorem text (t : Option (List Char)) (s : St) : R s (x86emuLog h t s) := by
  unfold x86emuLog
  split
  · exact hR.refl s
  · next b _ =>
    dsimp only
    split
    · have hstart := hR.trans (hR.setBuf (b.vsnprintf (sizeT b.free.toInt) t).2 s)
        (hR.clearLog true _)
      split
      · exact hstart
      · exact hR.trans hstart (hR.done _ _ _ _ _)
    · exact hR.done _ _ _ _ _

theorem texts : TextRule h R where
  refl := hR.refl
  trans := hR.trans
  chars _ := hR.text (some _)
  ratio _ _ := hR.text (some _)

theorem dump (flags : U32) (s : St) : R s (x86emuDump h flags s) := hR.texts.dump flags s

end LogBlind

/-- From the start of an iteration to the dispatch. -/
theorem StepRule.checks {h : Host} {R : St → St → Prop} (hR : StepRule h R) (hlog : LogBlind h R)
    (e : RunEnv) (rs : U32) (s : St) :
    R s (X86Emu.runChecks h e rs (logRegs h (X86Emu.startInstr s))).2 :=
  hR.trans (hR.startInstr s) (hR.trans (hlog.line _ _ _ _) (hR.runChecks e rs _))

/-! ## Whole runs -/

/-- What a relation has to keep to be kept after the delivery of an interrupt. -/
structure IdleRule (h : Host) (R : St → St → Prop) : Prop extends LogBlind h R where
  peek : ∀ addr s, R s (callMemio .r .b8noperm addr 0xff h s).2
  clock : ∀ n s, R s { s with clock := n }
  msr : ∀ {u}, u ≠ 0x10 → ∀ v s, R s (s.setMsr u v)
  trace : ∀ f s, R s (s.setTrace f)
  debugDone : ∀ s, R s { s with debugStart := 0, debugLen := 0 }
  reset : ∀ s, R s { s with mem := s.mem.resetAccessStats }

namespace IdleRule

variable {h : Host} {R : St → St → Prop} (hR : IdleRule h R)

include hR

theorem readByteNoperm (addr : U32) (s : St) : R s (readByteNoperm h addr s).2 := hR.peek addr s

theorem readBytesNoperm (n : Nat) (addr : U32) (s : St) : R s (readBytesNoperm h n addr s).2 :=
  readBytesNoperm_keeps hR.refl hR.trans hR.peek n addr s

theorem hostTsc (s : St) : R s (hostTsc h s).2 := hR.clock _ s

theorem updateRealTsc (e : RunEnv) (s : St) : R s (updateRealTsc h e s) :=
  hR.trans (hR.msr (by decide) _ s) (hR.trans (hR.hostTsc _) (hR.msr (by decide) _ _))

theorem putLog (t : List Char) (s : St) : R s (putLog t s) := by
  unfold X86Emu.putLog
  split
  · exact hR.refl s
  · exact hR.setBuf _ s

theorem nulLog (s : St) : R s (nulLog s) := by
  unfold X86Emu.nulLog
  split
  · exact hR.refl s
  · exact hR.setBuf _ s

theorem debugChars (n : Nat) (start : U32) (s : St) : R s (debugChars h n start s) := by
  induction n generalizing start s with
  | zero => exact hR.refl s
  | succ n ih =>
    exact hR.trans (hR.readByteNoperm start s) (hR.trans (hR.putLog _ _) (ih _ _))

theorem debugCommand (type start len : U32) (s : St) :
    R s (debugCommand h type start len s) := by
  have hread := hR.readBytesNoperm 4 start s
  unfold X86Emu.debugCommand
  generalize X86Emu.readBytesNoperm h 4 start s = p at hread ⊢
  split
  · exact hR.trans (hR.putLog _ s) (hR.trans (hR.debugChars _ _ _) (hR.putLog _ _))
  · exact hR.trans hread (hR.trace _ _)
  · exact hR.trans hread (hR.trace _ _)
  · exact hR.trans hread (hR.dump _ _)
  · exact hR.reset s
  · exact hR.refl s

theorem emuProcessDebug (start len : U32) (s : St) : R s (emuProcessDebug h start len s) := by
  unfold X86Emu.emuProcessDebug
  split
  · exact hR.refl s
  · next b _ =>
    have hstart : R s (if b.free < 1024 then x86emuClearLog h true s else (b.free, s)).2 := by
      split
      · exact hR.clearLog true s
      · exact hR.refl s
    generalize (if b.free < 1024 then x86emuClearLog h true s else (b.free, s)) = p at hstart ⊢
    dsimp only
    split
    · exact hstart
    · exact hR.trans hstart (hR.trans (hR.readByteNoperm start _)
        (hR.trans (hR.debugCommand _ _ _ _) (hR.nulLog _)))

theorem processDebug (s : St) : R s (processDebug h s) := by
  unfold X86Emu.processDebug
  split
  · exact hR.trans (hR.emuProcessDebug _ _ s) (hR.debugDone _)
  · exact hR.refl s

/-- From the delivery of an interrupt to the increment of the time stamp counter. -/
theorem afterDelivery (e : RunEnv) (s : St) :
    R s (X86Emu.processDebug h (logCode h (X86Emu.updateRealTsc h e s))) :=
  hR.trans (hR.updateRealTsc e s) (hR.trans (hR.line _ _ _ _) (hR.processDebug _))

end IdleRule

/-- What a relation has to keep for the run loop to keep it outside the opcode handlers and the
delivery of interrupts. -/
structure CheckRule (h : Host) (R : St → St → Prop) : Prop extends LogBlind h R where
  quiet : ∀ {s t}, Quiet h s t → R s t
  reset : ∀ s, R s { s with mem := s.mem.resetAccessStats }

/-- What a relation has to keep for the delivery of an interrupt to keep it. -/
structure DeliveryRule (h : Host) (R : St → St → Prop) : Prop extends LogBlind h R where
  delivery : ∀ {s t}, Delivery h s t → R s t

namespace DeliveryRule

variable {h : Host} {R : St → St → Prop} (hR : DeliveryRule h R)

include hR

theorem generateInt (nr : U8) (type err : U32) (s : St) : R s (generateInt nr type err h s) := by
  have hcall : ∀ s, R s (callIntr nr type h s).2 := by
    intro s
    unfold callIntr
    split
    · next f hf => exact hR.delivery (.intr hf nr type s)
    · exact hR.refl s
  have hstart := hR.trans (hR.delivery (.deliver nr type s)) (hcall _)
  unfold X86Emu.generateInt
  dsimp only
  split
  · exact hstart
  · exact hR.trans hstart (hR.delivery (.frame nr type err _))

theorem handleInterrupt (s : St) : R s (handleInterrupt h s) := by
  unfold X86Emu.handleInterrupt
  dsimp only
  split
  · exact hR.delivery (.done s)
  · exact hR.trans (hR.line _ _ _ s) (hR.trans (hR.generateInt _ _ _ _) (hR.delivery (.done _)))

end DeliveryRule

/-- What a relation has to keep to be kept outside the opcode handlers. -/
structure QuietRule (h : Host) (R : St → St → Prop) : Prop extends CheckRule h R where
  delivery : ∀ {s t}, Delivery h s t → R s t

namespace CheckRule

variable {h : Host} {R : St → St → Prop} (hR : CheckRule h R)

include hR

theorem idle : IdleRule h R where
  toLogBlind := hR.toLogBlind
  peek addr s := hR.quiet (.peek addr s)
  clock n s := hR.quiet (.clock n s)
  msr hu v s := hR.quiet (.msr hu v s)
  trace f s := hR.quiet (.trace f s)
  debugDone s := hR.quiet (.debugDone s)
  reset := hR.reset

theorem steps {s t : St} (hst : Steps h s t) : R s t := hst.keeps hR.refl hR.trans hR.quiet

theorem afterDelivery (e : RunEnv) (s : St) :
    R s (processDebug h (logCode h (updateRealTsc h e s))) := hR.idle.afterDelivery e s

/-- From the start of an iteration to the dispatch. -/
theorem checks (e : RunEnv) (rs : U32) (s : St) :
    R s (runChecks h e rs (logRegs h (startInstr s))).2 :=
  hR.trans (hR.steps (.startInstr s)) (hR.trans (hR.line _ _ _ _) (hR.steps (.runChecks e rs _)))

theorem endRun (e : RunEnv) (rs : U32) (s : St) : R s (endRun h e rs s) :=
  hR.trans (hR.exit rs s) (hR.trans (hR.steps (.hostTsc _)) (hR.quiet (.msr (by decide) _ _)))

end CheckRule

namespace QuietRule

variable {h : Host} {R : St → St → Prop} (hR : QuietRule h R)

include hR

/-- From the opcode handler to the increment of the time stamp counter. -/
theorem finish (e : RunEnv) (s : St) :
    R s (X86Emu.processDebug h (logCode h (updateRealTsc h e (X86Emu.handleInterrupt h s)))) :=
  hR.trans (DeliveryRule.mk hR.toLogBlind hR.delivery |>.handleInterrupt s) (hR.afterDelivery e _)

end QuietRule

/-- The state with `io.iopl_ok` as `x86emu_run` sets it. -/
def St.withIopl (h : Host) (s : St) : St :=
  { s with io := { s.io with ioplOk := !(s.io.ioplNeeded && !h.iopl3) } }

/-! ## The instructions of a run -/

/-- The opcodes of the instructions that the run loop executes, each with the state it is
dispatched in. -/
def executed (h : Host) (e : RunEnv) : Nat → U32 → St → List (U8 × St)
  | 0, _, _ => []
  | n + 1, rs, s =>
    match runChecks h e rs (logRegs h (startInstr s)) with
    | (.exec rs op1, s) =>
      (op1, s) ::
        if (execInstr h e op1 s).halted then [] else executed h e n rs (execInstr h e op1 s)
    | (.stop _, _) => []
    | (.prefixes, _) => []

/-- The state in which `handle_interrupt` is called for an instruction. -/
def afterHandler (h : Host) (op1 : U8) (s : St) : St :=
  runHandler h op1 { s with hist := .instr op1 :: s.hist }

/-- A relation that is kept outside the instructions and by each instruction of the run holds up to
each dispatch of the run. -/
theorem CheckRule.dispatched {h : Host} {R : St → St → Prop} (hR : CheckRule h R)
    (e : RunEnv) (n : Nat) (rs : U32) (s : St)
    (hexec : ∀ p ∈ executed h e n rs s, R p.2 (execInstr h e p.1 p.2)) :
    ∀ p ∈ executed h e n rs s, R s p.2 := by
  induction n generalizing rs s with
  | zero => exact fun p hp => absurd hp List.not_mem_nil
  | succ n ih =>
    have hchecks := hR.checks e rs s
    unfold X86Emu.executed at hexec ⊢
    rcases hrun : runChecks h e rs (logRegs h (startInstr s)) with ⟨checked, s₁⟩
    rw [hrun] at hchecks hexec
    intro p hp
    cases checked with
    | stop rs' => exact absurd hp List.not_mem_nil
    | prefixes => exact absurd hp List.not_mem_nil
    | exec rs' op1 =>
      dsimp only at hchecks hexec hp
      rcases List.mem_cons.mp hp with rfl | hrest
      · exact hchecks
      · have hstep := hR.trans hchecks (hexec (op1, s₁) (List.mem_cons_self ..))
        by_cases hhalt : (execInstr h e op1 s₁).halted = true
        · rw [if_pos hhalt] at hrest
          exact absurd hrest List.not_mem_nil
        · rw [if_neg hhalt] at hexec hrest
          exact hR.trans hstep
            (ih _ _ (fun p hp => hexec p (List.mem_cons_of_mem _ hp)) p hrest)

/-- A relation that is kept outside the instructions and by each instruction of the run is kept by
the run. -/
theorem CheckRule.runLoop_executed {h : Host} {R : St → St → Prop} (hR : CheckRule h R)
    (e : RunEnv) (n : Nat) (rs : U32) (s : St)
    (hexec : ∀ p ∈ executed h e n rs s,
      (∃ rs rs' s₀, runChecks h e rs s₀ = (.exec rs' p.1, p.2)) → R p.2 (execInstr h e p.1 p.2)) :
    R s (runLoop h e n rs s).2 := by
  induction n generalizing rs s with
  | zero => exact hR.refl s
  | succ n ih =>
    have hchecks := hR.checks e rs s
    unfold executed at hexec
    unfold X86Emu.runLoop runIter
    rcases hrun : runChecks h e rs (logRegs h (startInstr s)) with ⟨checked, s₁⟩
    rw [hrun] at hchecks hexec
    cases checked with
    | stop rs' => exact hchecks
    | prefixes => exact hchecks
    | exec rs' op1 =>
      dsimp only at hchecks hexec ⊢
      have hstep := hR.trans hchecks (hexec (op1, s₁) (List.mem_cons_self ..) ⟨_, _, _, hrun⟩)
      by_cases hhalt : (execInstr h e op1 s₁).halted = true
      · rw [if_pos hhalt]
        exact hstep
      · rw [if_neg hhalt] at hexec ⊢
        exact hR.trans hstep (ih _ _ fun p hp => hexec p (List.mem_cons_of_mem _ hp))

/-- What a relation has to keep for the run loop to keep it. -/
structure LoopRule (h : Host) (R : St → St → Prop) : Prop extends
    StepRule h R, DeliveryRule h R where
  msr : ∀ {u}, u ≠ 0x10 → ∀ v s, R s (s.setMsr u v)
  debug : ∀ s, R s (processDebug h s)
  exec : ∀ op1 s, R s (runHandler h op1 { s with hist := .instr op1 :: s.hist })
  tick : ∀ s, R s (s.setMsr 0x10 (s.tsc + 1))

namespace LoopRule

variable {h : Host} {R : St → St → Prop} (hR : LoopRule h R)

include hR

theorem realTsc (e : RunEnv) (s : St) : R s (updateRealTsc h e s) :=
  hR.trans (hR.msr (by decide) _ s) (hR.trans (hR.toStepRule.hostTsc _) (hR.msr (by decide) _ _))

theorem execInstr (e : RunEnv) (op1 : U8) (s : St) : R s (execInstr h e op1 s) :=
  hR.trans (hR.exec op1 s) (hR.trans (hR.toDeliveryRule.handleInterrupt _)
    (hR.trans (hR.realTsc e _) (hR.trans (hR.toLogBlind.line _ _ _ _)
      (hR.trans (hR.debug _) (hR.tick _)))))

theorem runIter (e : RunEnv) (rs : U32) (s : St) : R s (runIter h e rs s).2 := by
  have hchecks := hR.toStepRule.checks hR.toLogBlind e rs s
  unfold X86Emu.runIter
  generalize runChecks h e rs (logRegs h (startInstr s)) = p at hchecks ⊢
  split
  · exact hchecks
  · exact hchecks
  · exact hR.trans hchecks (hR.execInstr e _ _)

theorem runLoop (e : RunEnv) (n : Nat) (rs : U32) (s : St) : R s (runLoop h e n rs s).2 := by
  induction n generalizing rs s with
  | zero => exact hR.refl s
  | succ n ih =>
    have hiter := hR.runIter e rs s
    unfold X86Emu.runLoop
    generalize X86Emu.runIter h e rs s = p at hiter ⊢
    split
    · exact hR.trans hiter (ih _ _)
    · exact hiter
    · exact hiter

theorem endRun (e : RunEnv) (rs : U32) (s : St) : R s (endRun h e rs s) :=
  hR.trans (hR.toLogBlind.exit rs s) (hR.trans (hR.toStepRule.hostTsc _) (hR.msr (by decide) _ _))

/-- A run keeps the relation from its first iteration on. -/
theorem x86emuRun (flags : U32) (fuel : Nat) (s : St) :
    R (beginRun h flags fuel s).2 (x86emuRun h flags fuel s).2 := by
  unfold X86Emu.x86emuRun
  generalize beginRun h flags fuel s = p
  have hloop := hR.runLoop p.1 fuel 0 p.2
  dsimp only
  generalize X86Emu.runLoop h p.1 fuel 0 p.2 = q at hloop ⊢
  split
  · exact hR.trans hloop (hR.endRun _ _ _)
  · exact hloop

end LoopRule

/-- What a relation has to keep for every run to keep it. -/
structure RunRule (h : Host) (R : St → St → Prop) : Prop extends QuietRule h R where
  exec : ∀ op1 s, R s (runHandler h op1 { s with hist := .instr op1 :: s.hist })
  tick : ∀ s, R s (s.setMsr 0x10 (s.tsc + 1))

namespace RunRule

variable {h : Host} {R : St → St → Prop} (hR : RunRule h R)

include hR

theorem loopRule : LoopRule h R where
  toLogBlind := hR.toLogBlind
  clock n s := hR.quiet (.clock n s)
  peek addr s := hR.quiet (.peek addr s)
  msr hu v s := hR.quiet (.msr hu v s)
  debug := hR.idle.processDebug
  cpu hf s := hR.quiet (.cpu hf s)
  buffers bytes text s := hR.quiet (.buffers bytes text s)
  fetch s := hR.quiet (.fetch s)
  codeCheck hf s := hR.quiet (.codeCheck hf s)
  delivery := hR.delivery
  exec := hR.exec
  tick := hR.tick

/-- Every run keeps the relation. -/
theorem x86emuRun (flags : U32) (fuel : Nat) (s : St) : R s (x86emuRun h flags fuel s).2 :=
  hR.trans (hR.steps (.beginRun flags fuel s)) (hR.loopRule.x86emuRun flags fuel s)

end RunRule

end X86Emu
