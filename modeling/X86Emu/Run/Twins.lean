import X86Emu.Effects.Frame

/-!
# Two runs

A relation between two states that agree on what the run loop reads, and that the primitive
operations keep for both: two runs from related states take the same decisions, return the same and
end in related states.
-/

namespace X86Emu

open Lib

set_option synthInstance.maxSize 1024

/-- The results are the same and the states are related. -/
def Both {α : Type} (E : St → St → Prop) (p q : α × St) : Prop := p.1 = q.1 ∧ E p.2 q.2

/-- What a relation between two states has to keep for two runs in the environments `e` and `e'` to
keep it. Only one of the two may change the log and the texts; `debug_len` is 0 in both. -/
structure TwinRule (h : Host) (e e' : RunEnv) (E : St → St → Prop) : Prop where
  flags : e'.flags = e.flags
  fuel : e'.fuel = e.fuel
  cpu : ∀ {s t}, E s t → t.cpu = s.cpu
  intr : ∀ {s t}, E s t → t.intr = s.intr
  tsc : ∀ {s t}, E s t → t.tsc = s.tsc
  quiet : ∀ {s t}, E s t → s.debugLen = 0 ∧ t.debugLen = 0
  putCpu : ∀ {s t} c, E s t → E { s with cpu := c } { t with cpu := c }
  putIntr : ∀ {s t} i, E s t → E { s with intr := i } { t with intr := i }
  putTsc : ∀ {s t} v, E s t → E (s.setMsr 0x10 v) (t.setMsr 0x10 v)
  event : ∀ {s t} ev, E s t → E { s with hist := ev :: s.hist } { t with hist := ev :: t.hist }
  left : LogBlind h fun s s' => ∀ t, E s t → E s' t
  right : LogBlind h fun t t' => ∀ s, E s t → E s t'
  texts : ∀ {s t} bytes text bytes' text', E s t →
    E { s with instrBuf := bytes, disasm := text } { t with instrBuf := bytes', disasm := text' }
  intrStats : ∀ {s t} stats stats', E s t →
    E { s with intrStats := stats } { t with intrStats := stats' }
  prim : ∀ {β : Type} {n : Nat} {f : Effects} {x : Trans Host St β}, EmuGrade β n f x →
    ¬maySeg ≤ f → ∀ {s t}, E s t → Both E (x h s) (x h t)
  peek : ∀ {s t} addr, E s t → Both E (callMemio .r .b8noperm addr 0xff h s)
    (callMemio .r .b8noperm addr 0xff h t)
  codeCheck : ∀ {f}, h.codeCheck = some f → ∀ {s t}, E s t → Both E (f s) (f t)
  callIntr : ∀ {f}, h.intr = some f → ∀ {s t} nr type, E s t → Both E (f s nr type) (f t nr type)
  timedOut : ∀ {s t}, E s t → Both E (timedOut h e s) (timedOut h e' t)
  realTsc : ∀ {s t}, E s t → E (updateRealTsc h e s) (updateRealTsc h e' t)

namespace TwinRule

variable {h : Host} {e e' : RunEnv} {E : St → St → Prop} (hE : TwinRule h e e' E)

include hE

/-! ## Programs -/

/-- A load of a segment register is made of the other primitive operations. -/
theorem setSegRegister (ref : SelRef) (val : U16) {s t : St} (hst : E s t) :
    Both E ((x86emuSetSegRegister ref val).run h s) ((x86emuSetSegRegister ref val).run h t) := by
  have hquiet : ∀ {α : Type} {x : Emu α}, Does x 0 ⊥ → Twins h E x := by
    intro α x hx
    refine ⟨fun hst => hx.grade.related (g := ⊥) (R := E) ?_ le_rfl hst⟩
    intro β n f y hy hf s t hst
    exact hE.prim hy (fun hseg => absurd (hseg.trans hf) (by decide)) hst
  have hcpu : Twins h E getCpu := hquiet inferInstance
  have hread : ∀ addr, Twins h E (emuMemio .r .b32 addr 0) := fun addr => hquiet inferInstance
  have hdescr : ∀ dl dh, Twins h E (decodeDescriptor dl dh) := fun dl dh => hquiet inferInstance
  have hgp : ∀ err, Twins h E (intrRaiseGp err) := fun err => hquiet inferInstance
  have hsel : ∀ ref v, Twins h E (setSel ref v) := by
    refine fun ref v => ⟨fun {s t} hst => ⟨rfl, ?_⟩⟩
    show E { s with cpu := s.cpu.setSel ref v } { t with cpu := t.cpu.setSel ref v }
    rw [hE.cpu hst]
    exact hE.putCpu _ hst
  have hload : Twins h E (loadDescriptor ref val) := by
    unfold loadDescriptor
    dsimp only
    infer_instance
  have hall : Twins h E (x86emuSetSegRegister ref val) := by
    unfold x86emuSetSegRegister
    infer_instance
  exact hall.twins hst

theorem graded {x : Emu α} {n : Nat} {f : Effects} (hx : Does x n f) {s t : St} (hst : E s t) :
    Both E (x.run h s) (x.run h t) := by
  refine hx.grade.related (g := f) (R := E) ?_ le_rfl hst
  intro β m g y hy _ s t hst
  by_cases hseg : maySeg ≤ g
  · cases hy with
    | seg ref val => exact hE.setSegRegister ref val hst
    | _ => exact absurd hseg (by decide)
  · exact hE.prim hy hseg hst

theorem does (x : Emu α) {n : Nat} {f : Effects} [hx : Does x n f] {s t : St} (hst : E s t) :
    Both E (x.run h s) (x.run h t) := hE.graded hx hst

theorem handler (op1 : U8) {s t : St} (hst : E s t) :
    E (runHandler h op1 s) (runHandler h op1 t) :=
  (hE.graded (handler_does op1) hst).2

/-! ## Reading -/

theorem readByteNoperm (addr : U32) {s t : St} (hst : E s t) :
    Both E (readByteNoperm h addr s) (readByteNoperm h addr t) := by
  obtain ⟨hres, hnext⟩ := hE.peek addr hst
  exact ⟨congrArg (fun res : U32 × Bool => res.1) hres, hnext⟩

theorem readBytesNoperm (n : Nat) (addr : U32) {s t : St} (hst : E s t) :
    Both E (readBytesNoperm h n addr s) (readBytesNoperm h n addr t) := by
  induction n generalizing addr s t with
  | zero => exact ⟨rfl, hst⟩
  | succ n ih =>
    obtain ⟨hlow, hnext⟩ := hE.readByteNoperm addr hst
    obtain ⟨hhigh, hend⟩ := ih (addr + 1) hnext
    exact ⟨congrArg₂ (fun lo hi : U32 => lo + (hi <<< 8)) hlow hhigh, hend⟩

/-! ## Writing -/

/-- Both write a function of their own register file, which is the same. -/
theorem mapCpu (f : Cpu → Cpu) {s t : St} (hst : E s t) :
    E { s with cpu := f s.cpu } { t with cpu := f t.cpu } := by
  rw [hE.cpu hst]
  exact hE.putCpu _ hst

theorem halt {s t : St} (hst : E s t) : E s.halt t.halt :=
  hE.mapCpu (fun c => { c with mode := { c.mode with halted := true } }) hst

theorem line (thr : U32) (guard : Log → Bool) (text : St → List Char) {s t : St} (hst : E s t) :
    E (logLine thr guard text h s) (logLine thr guard text h t) :=
  hE.right.line thr guard text t _ (hE.left.line thr guard text s _ hst)

theorem opDecode (text : String) {s t : St} (hst : E s t) : E (s.opDecode text) (t.opDecode text) :=
  hE.texts s.instrBuf _ t.instrBuf _ hst

theorem codeAddr {s t : St} (hst : E s t) : t.codeAddr = s.codeAddr := by
  unfold St.codeAddr
  rw [hE.cpu hst]

theorem halted {s t : St} (hst : E s t) : t.halted = s.halted := by
  unfold St.halted
  rw [hE.cpu hst]

/-! ## Prefixes -/

theorem setMode (f : Mode → Mode) {s t : St} (hst : E s t) : E (s.setMode f) (t.setMode f) :=
  hE.mapCpu (fun c => { c with mode := f c.mode }) hst

theorem setOverride (r : SegReg) {s t : St} (hst : E s t) :
    E (X86Emu.setOverride r s) (X86Emu.setOverride r t) :=
  hE.mapCpu (fun c => { c with decodeSeg := [r.letter, 's', ':', '['], defaultSeg := some r }) hst

theorem prefixEffect {op1 : U8} {f : St → St} (hf : prefixEffect op1 = some f) {s t : St}
    (hst : E s t) : E (f s) (f t) := by
  unfold X86Emu.prefixEffect at hf
  split at hf
  iterate 6
    cases hf
    exact hE.setOverride _ hst
  iterate 2
    cases hf
    exact hE.setMode _ hst
  · cases hf
    exact hE.opDecode _ hst
  iterate 2
    cases hf
    exact hE.setMode _ (hE.opDecode _ hst)
  · cases hf

theorem prefixLoop (n : Nat) {s t : St} (hst : E s t) :
    Both E (prefixLoop h n s) (prefixLoop h n t) := by
  induction n generalizing s t with
  | zero => exact ⟨rfl, hst⟩
  | succ n ih =>
    obtain ⟨hop, hnext⟩ := hE.does fetchByte hst
    unfold X86Emu.prefixLoop
    dsimp only
    rw [hop]
    cases hf : X86Emu.prefixEffect (fetchByte.run h t).1 with
    | some f => exact ih (hE.prefixEffect hf hnext)
    | none => exact ⟨rfl, hnext⟩

/-! ## Checks -/

theorem has (flag : U32) : e'.has flag = e.has flag := by
  unfold RunEnv.has
  rw [hE.flags]

theorem runCodeCheck {s t : St} (hst : E s t) :
    Both E (X86Emu.codeCheck h s) (X86Emu.codeCheck h t) := by
  unfold X86Emu.codeCheck
  split
  · next f hf =>
    obtain ⟨hbad, hnext⟩ := hE.codeCheck hf hst
    refine ⟨?_, hnext⟩
    show (_ || _) = (_ || _)
    rw [hbad, hE.halted hnext]
  · exact ⟨rfl, hst⟩

theorem loopOfs (op1 : U8) {s t : St} (hst : E s t) :
    Both E (loopOfs h op1 s) (loopOfs h op1 t) := by
  have hbyte := hE.readByteNoperm s.codeAddr hst
  have hlong := hE.readBytesNoperm 4 s.codeAddr hst
  have hword := hE.readBytesNoperm 2 s.codeAddr hst
  unfold X86Emu.loopOfs
  rw [hE.codeAddr hst, hE.cpu hst]
  split
  · exact ⟨by dsimp only; rw [hbyte.1], hbyte.2⟩
  · split
    · split
      · exact ⟨by dsimp only; rw [hlong.1], hlong.2⟩
      · exact ⟨by dsimp only; rw [hword.1], hword.2⟩
    · exact ⟨rfl, hst⟩

theorem loopFound (ofs : U32) {s t : St} (hst : E s t) :
    Both E (loopFound h ofs s) (loopFound h ofs t) := by
  have hbyte := hE.readByteNoperm ((s.cpu.seg .cs).base + s.cpu.savedEip - 1) hst
  unfold X86Emu.loopFound
  dsimp only
  rw [hE.cpu hst]
  split
  · exact ⟨rfl, hst⟩
  · split
    · exact ⟨by dsimp only; rw [hbyte.1], hbyte.2⟩
    · exact ⟨rfl, hst⟩

theorem haltIf (rs : U32) {s t : St} (hst : E s t) : E (haltIf rs s) (haltIf rs t) := by
  unfold X86Emu.haltIf
  split
  · exact hE.halt hst
  · exact hst

theorem checkLoop (op1 : U8) (rs : U32) {s t : St} (hst : E s t) :
    Both E (checkLoop h e op1 rs s) (checkLoop h e' op1 rs t) := by
  obtain ⟨hofs, hnext⟩ := hE.loopOfs op1 hst
  unfold X86Emu.checkLoop
  rw [hE.has]
  split
  · dsimp only
    rw [hofs]
    split
    · obtain ⟨hfound, hend⟩ := hE.loopFound (X86Emu.loopOfs h op1 t).1 hnext
      rw [hfound]
      exact ⟨rfl, hE.haltIf _ hend⟩
    · exact ⟨rfl, hnext⟩
  · exact ⟨rfl, hst⟩

theorem checkNoCode (op1 : U8) (rs : U32) {s t : St} (hst : E s t) :
    Both E (checkNoCode h e op1 rs s) (checkNoCode h e' op1 rs t) := by
  obtain ⟨hbyte, hnext⟩ := hE.readByteNoperm s.codeAddr hst
  unfold X86Emu.checkNoCode
  rw [hE.cpu hst, hE.codeAddr hst, hE.has]
  split
  · split
    · dsimp only
      rw [hbyte]
      exact ⟨rfl, hE.haltIf _ hnext⟩
    · exact ⟨rfl, hE.haltIf _ hst⟩
  · exact ⟨rfl, hst⟩

theorem checkOpcode (rs : U32) (op1 : U8) {s t : St} (hst : E s t) :
    Both E (checkOpcode h e rs op1 s) (checkOpcode h e' rs op1 t) := by
  unfold X86Emu.checkOpcode
  rw [hE.halted hst]
  split
  · exact ⟨rfl, hE.mapCpu (fun c => { c with eip := c.savedEip }) hst⟩
  · obtain ⟨hloop, hnext⟩ := hE.checkLoop op1 rs hst
    dsimp only
    rw [hloop]
    obtain ⟨hcode, hend⟩ := hE.checkNoCode op1 (X86Emu.checkLoop h e' op1 rs t).1 hnext
    exact ⟨by rw [hcode], hend⟩

theorem readOpcode (rs : U32) {s t : St} (hst : E s t) :
    Both E (readOpcode h e rs s) (readOpcode h e' rs t) := by
  have hstart : E (startPrefixes s) (startPrefixes t) :=
    hE.mapCpu (fun c => { c with decodeSeg := ['['] }) hst
  obtain ⟨hop, hnext⟩ := hE.prefixLoop e.fuel hstart
  unfold X86Emu.readOpcode
  rw [hE.fuel]
  generalize X86Emu.prefixLoop h e.fuel (startPrefixes s) = p at hop hnext ⊢
  generalize X86Emu.prefixLoop h e.fuel (startPrefixes t) = q at hop hnext ⊢
  obtain ⟨op1, s⟩ := p
  obtain ⟨op1', t⟩ := q
  obtain rfl : op1 = op1' := hop
  cases op1 with
  | none => exact ⟨rfl, hnext⟩
  | some op1 => exact hE.checkOpcode rs op1 hnext

/-- The checks end alike when both have reached the instruction limit or neither has. -/
theorem runChecks (rs : U32) {s t : St} (hst : E s t)
    (hmax : maxInstrReached e s = maxInstrReached e' t) :
    Both E (runChecks h e rs s) (runChecks h e' rs t) := by
  unfold X86Emu.runChecks
  rw [hmax]
  split
  · exact ⟨rfl, hst⟩
  · obtain ⟨hlate, hnext⟩ := hE.timedOut hst
    dsimp only
    rw [hlate]
    split
    · exact ⟨rfl, hnext⟩
    · obtain ⟨hbad, hend⟩ := hE.runCodeCheck hnext
      rw [hbad]
      split
      · exact ⟨rfl, hend⟩
      · exact hE.readOpcode rs hend

/-! ## Interrupts -/

theorem generateInt (nr : U8) (type err : U32) {s t : St} (hst : E s t) :
    E (generateInt nr type err h s) (generateInt nr type err h t) := by
  have hstart := hE.event (.deliver nr type) (hE.intrStats
    (Function.update s.intrStats nr (s.intrStats nr + 1))
    (Function.update t.intrStats nr (t.intrStats nr + 1)) hst)
  have hcall : ∀ {s t}, E s t →
      Both E (X86Emu.callIntr nr type h s) (X86Emu.callIntr nr type h t) := by
    intro s t hst
    unfold X86Emu.callIntr
    split
    · next f hf => exact hE.callIntr hf nr type hst
    · exact ⟨rfl, hst⟩
  obtain ⟨hhandled, hnext⟩ := hcall hstart
  unfold X86Emu.generateInt
  dsimp only at hhandled hnext ⊢
  rw [hhandled]
  split
  · exact hnext
  · exact (hE.does (deliverInt nr type err) hnext).2

theorem handleInterrupt {s t : St} (hst : E s t) :
    E (handleInterrupt h s) (handleInterrupt h t) := by
  have hdone : ∀ {s t}, E s t → E { s with intr := { s.intr with type := 0 } }
      { t with intr := { t.intr with type := 0 } } := by
    intro s t hst
    rw [hE.intr hst]
    exact hE.putIntr _ hst
  unfold X86Emu.handleInterrupt
  dsimp only
  rw [hE.intr hst]
  split
  · exact hdone hst
  · have hline := hE.line 128 (·.has traceInts) (fun s => intText s.intr) hst
    rw [hE.intr hline]
    exact hdone (hE.generateInt _ _ _ hline)

/-! ## Whole runs -/

theorem execInstr (op1 : U8) {s t : St} (hst : E s t) :
    E (execInstr h e op1 s) (execInstr h e' op1 t) := by
  have hcode := hE.line 512 (·.has traceCode) codeText (hE.realTsc
    (hE.handleInterrupt (hE.handler op1 (hE.event (.instr op1) hst))))
  obtain ⟨hlen, hlen'⟩ := hE.quiet hcode
  unfold X86Emu.execInstr processDebug logCode
  dsimp only
  rw [if_neg (by rw [hlen]; exact fun hne => hne rfl),
    if_neg (by rw [hlen']; exact fun hne => hne rfl), hE.tsc hcode]
  exact hE.putTsc _ hcode

theorem startInstr {s t : St} (hst : E s t) :
    E (logRegs h (startInstr s)) (logRegs h (startInstr t)) :=
  hE.line _ _ _ (hE.mapCpu Cpu.startInstr (hE.texts [] [] [] [] hst))

/-- An iteration ends alike when both have reached the instruction limit or neither has. -/
theorem runIter (rs : U32) {s t : St}
    (hst : E (logRegs h (X86Emu.startInstr s)) (logRegs h (X86Emu.startInstr t)))
    (hmax : maxInstrReached e (logRegs h (X86Emu.startInstr s)) =
      maxInstrReached e' (logRegs h (X86Emu.startInstr t))) :
    Both E (runIter h e rs s) (runIter h e' rs t) := by
  obtain ⟨hchecked, hnext⟩ := hE.runChecks rs hst hmax
  unfold X86Emu.runIter
  generalize X86Emu.runChecks h e rs (logRegs h (X86Emu.startInstr s)) = p at hchecked hnext ⊢
  generalize X86Emu.runChecks h e' rs (logRegs h (X86Emu.startInstr t)) = q at hchecked hnext ⊢
  obtain ⟨checked, s⟩ := p
  obtain ⟨checked', t⟩ := q
  obtain rfl : checked = checked' := hchecked
  cases checked with
  | stop rs' => exact ⟨rfl, hnext⟩
  | prefixes => exact ⟨rfl, hnext⟩
  | exec rs' op1 =>
    have hexec := hE.execInstr op1 hnext
    refine ⟨?_, hexec⟩
    dsimp only
    rw [hE.halted hexec]

omit hE in
/-- A loop goes on as its first iteration ends. -/
theorem runLoop_succ {n : Nat} {rs : U32} {s t : St}
    (hiter : Both E (X86Emu.runIter h e rs s) (X86Emu.runIter h e' rs t))
    (hloop : ∀ {s t} rs, E s t → Both E (runLoop h e n rs s) (runLoop h e' n rs t)) :
    Both E (runLoop h e (n + 1) rs s) (runLoop h e' (n + 1) rs t) := by
  obtain ⟨hres, hnext⟩ := hiter
  unfold X86Emu.runLoop
  generalize X86Emu.runIter h e rs s = p at hres hnext ⊢
  generalize X86Emu.runIter h e' rs t = q at hres hnext ⊢
  obtain ⟨next, s⟩ := p
  obtain ⟨next', t⟩ := q
  obtain rfl : next = next' := hres
  cases next with
  | more rs' => exact hloop rs' hnext
  | stop rs' => exact ⟨rfl, hnext⟩
  | prefixes => exact ⟨rfl, hnext⟩

section Limit

variable (hlimit : ∀ {s t}, E s t → maxInstrReached e s = maxInstrReached e' t)

include hlimit

theorem runLoop (n : Nat) (rs : U32) {s t : St} (hst : E s t) :
    Both E (runLoop h e n rs s) (runLoop h e' n rs t) := by
  induction n generalizing rs s t with
  | zero => exact ⟨rfl, hst⟩
  | succ n ih =>
    have hstart := hE.startInstr hst
    exact runLoop_succ (hE.runIter rs hstart (hlimit hstart)) fun rs hst => ih rs hst

/-- The first iteration only looks at the state it has prepared. -/
theorem runLoop_start (n : Nat) (rs : U32) {s t : St}
    (hst : E (logRegs h (X86Emu.startInstr s)) (logRegs h (X86Emu.startInstr t))) :
    Both E (X86Emu.runLoop h e (n + 1) rs s) (X86Emu.runLoop h e' (n + 1) rs t) :=
  runLoop_succ (hE.runIter rs hst (hlimit hst)) fun rs hst => hE.runLoop hlimit n rs hst

end Limit

theorem logExit (rs : U32) {s t : St} (hst : E s t) : E (logExit rs s) (logExit rs t) :=
  hE.right.exit rs t _ (hE.left.exit rs s _ hst)

end TwinRule

end X86Emu
