import X86Emu.Memory.Alike
import X86Emu.Run.Api
import X86Emu.Run.Twins

/-!
# What a run does not look at

The log and its trace flags, the texts and captured bytes, the counters, the access marks and the
allocation of pages do not influence a run, as long as `X86EMU_TRACE_DEBUG` is off: from states that
differ in these only, a run returns the same and ends in states that differ in these only.
-/

namespace X86Emu

open Lib

/-- No debug instruction is looked for, and none is left over. -/
def St.Plain (s : St) : Prop := s.log.has traceDebug = false ∧ s.debugLen = 0

/-- The MSRs that hold readings of the host's time stamp counter. -/
def hostMsr (u : Nat) : Bool := u = 0x11 || u = 0x12

/-- The two states only differ in what a run does not look at, and `limits` holds of the instruction
limits. With `clocks`, the host's clocks show the same from here on; else what they have shown is
not compared. -/
structure Alike (h : Host) (clocks : Bool) (limits : U64 → U64 → Prop) (s t : St) : Prop where
  cpu : t.cpu = s.cpu
  msr : ∀ u, clocks = true ∨ hostMsr u = false → t.msr u = s.msr u
  intr : t.intr = s.intr
  mem : s.mem.Alike t.mem
  io : s.io.Alike t.io
  timeout : t.timeout = s.timeout
  limit : limits s.maxInstr t.maxInstr
  clock : clocks = true → ∀ n, h.tsc (t.clock + n) = h.tsc (s.clock + n) ∧
    h.time (t.clock + n) = h.time (s.clock + n)
  hist : t.hist = s.hist
  divisions : t.divisions = s.divisions
  plain : s.Plain
  plain' : t.Plain

/-- A host that uses `vm_memio`, and whose own functions neither look at what a run does not look
at nor change what it looks at when they flush the log. -/
structure Host.Inert (inp : PortInput) (clocks : Bool) (h : Host) : Prop where
  memio : h.memio = vmMemio inp
  codeCheck : ∀ {f}, h.codeCheck = some f → ∀ {limits s t}, Alike h clocks limits s t →
    Both (Alike h clocks limits) (f s) (f t)
  intr : ∀ {f}, h.intr = some f → ∀ {limits s t} nr type, Alike h clocks limits s t →
    Both (Alike h clocks limits) (f s nr type) (f t nr type)
  cpuid : ∀ {f}, h.cpuid = some f → ∀ {limits s t}, Alike h clocks limits s t →
    Alike h clocks limits (f s) (f t)
  rdmsr : ∀ {f}, h.rdmsr = some f → ∀ {limits s t}, Alike h clocks limits s t →
    Alike h clocks limits (f s) (f t)
  wrmsr : ∀ {f}, h.wrmsr = some f → ∀ {limits s t}, Alike h clocks limits s t →
    Alike h clocks limits (f s) (f t)
  flush : ∀ {f}, h.flush = some f → ∀ {limits s t} text, Alike h clocks limits s t →
    Alike h clocks limits (f s text) t

/-- The environments of two runs: with `clocks` they are the same, else the runs do not look at the
time. -/
structure SameEnv (clocks : Bool) (e e' : RunEnv) : Prop where
  flags : e'.flags = e.flags
  fuel : e'.fuel = e.fuel
  same : clocks = true → e' = e
  timeless : clocks = true ∨ e.has runTimeout = false

namespace Alike

variable {h : Host} {clocks : Bool} {limits : U64 → U64 → Prop} {s t : St}

theorem refl (hrefl : ∀ m, limits m m) (hsep : s.mem.Sep) (hplain : s.Plain) :
    Alike h clocks limits s s where
  cpu := rfl
  msr _ _ := rfl
  intr := rfl
  mem := .refl hsep
  io := .refl s.io
  timeout := rfl
  limit := hrefl s.maxInstr
  clock _ _ := ⟨rfl, rfl⟩
  hist := rfl
  divisions := rfl
  plain := hplain
  plain' := hplain

theorem symm (hst : Alike h clocks limits s t) : Alike h clocks (fun m n => limits n m) t s where
  cpu := hst.cpu.symm
  msr u hu := (hst.msr u hu).symm
  intr := hst.intr.symm
  mem := hst.mem.symm
  io := hst.io.symm
  timeout := hst.timeout.symm
  limit := hst.limit
  clock hc n := ⟨(hst.clock hc n).1.symm, (hst.clock hc n).2.symm⟩
  hist := hst.hist.symm
  divisions := hst.divisions.symm
  plain := hst.plain'
  plain' := hst.plain

theorem swap (hst : Alike h clocks Eq s t) : Alike h clocks Eq t s :=
  { hst.symm with limit := hst.limit.symm }

theorem trans {u : St} (h₁ : Alike h clocks Eq s t) (h₂ : Alike h clocks Eq t u) :
    Alike h clocks Eq s u where
  cpu := h₂.cpu.trans h₁.cpu
  msr i hi := (h₂.msr i hi).trans (h₁.msr i hi)
  intr := h₂.intr.trans h₁.intr
  mem := h₁.mem.trans h₂.mem
  io := h₁.io.trans h₂.io
  timeout := h₂.timeout.trans h₁.timeout
  limit := h₁.limit.trans h₂.limit
  clock hc n := ⟨(h₂.clock hc n).1.trans (h₁.clock hc n).1,
    (h₂.clock hc n).2.trans (h₁.clock hc n).2⟩
  hist := h₂.hist.trans h₁.hist
  divisions := h₂.divisions.trans h₁.divisions
  plain := h₁.plain
  plain' := h₂.plain'

/-- The left state may change its log and what else is not looked at. -/
theorem left {buf : Option LogBuf} {bytes : List U8} {text : List Char} {stats : U8 → U32}
    {perm : Nat → U8} (hst : Alike h clocks limits s t) :
    Alike h clocks limits
      { s with
        log := { s.log with buf := buf }
        instrBuf := bytes
        disasm := text
        intrStats := stats
        msrPerm := perm } t := { hst with }

theorem right {buf : Option LogBuf} {bytes : List U8} {text : List Char} {stats : U8 → U32}
    {perm : Nat → U8} (hst : Alike h clocks limits s t) :
    Alike h clocks limits s
      { t with
        log := { t.log with buf := buf }
        instrBuf := bytes
        disasm := text
        intrStats := stats
        msrPerm := perm } := { hst with }

/-- Both write a function of their own register file, which is the same. -/
theorem mapCpu (hst : Alike h clocks limits s t) (f : Cpu → Cpu) :
    Alike h clocks limits { s with cpu := f s.cpu } { t with cpu := f t.cpu } :=
  { hst with cpu := congrArg f hst.cpu }

theorem startInstr (hst : Alike h clocks limits s t) :
    Alike h clocks limits (startInstr s) (startInstr t) :=
  (hst.mapCpu Cpu.startInstr).left.right

theorem event (hst : Alike h clocks limits s t) (ev : Event) :
    Alike h clocks limits { s with hist := ev :: s.hist } { t with hist := ev :: t.hist } :=
  { hst with hist := congrArg (List.cons ev) hst.hist }

theorem division (hst : Alike h clocks limits s t) (d : CDivision) :
    Alike h clocks limits (recordDivision d s) (recordDivision d t) :=
  { hst with divisions := congrArg (List.cons d) hst.divisions }

theorem capture (hst : Alike h clocks limits s t) (bytes : List U8) :
    Alike h clocks limits (captureBytes bytes s) (captureBytes bytes t) := by
  have hbuf : ∀ s, ∃ buf, captureBytes bytes s = { s with instrBuf := buf } := by
    intro s
    unfold captureBytes
    split
    · exact ⟨_, rfl⟩
    · exact ⟨s.instrBuf, rfl⟩
  obtain ⟨buf, hs⟩ := hbuf s
  obtain ⟨buf', ht⟩ := hbuf t
  rw [hs, ht]
  exact hst.left.right

theorem raise (hst : Alike h clocks limits s t) (nr : U8) (type err : U32) :
    Alike h clocks limits (x86emuIntrRaise nr type err s) (x86emuIntrRaise nr type err t) := by
  have hnext := hst.event (.raise nr type err)
  unfold x86emuIntrRaise
  dsimp only
  rw [hst.intr]
  split
  · exact { hnext with intr := rfl }
  · exact { hnext with intr := rfl }

theorem debugJump (hst : Alike h clocks limits s t) (c : Bool) (start : U32) (ofs : U8) :
    Alike h clocks limits (if s.log.has traceDebug && c then setDebugRecord start ofs s else s)
      (if t.log.has traceDebug && c then setDebugRecord start ofs t else t) := by
  rw [hst.plain.1, hst.plain'.1]
  exact hst

theorem tsc (hst : Alike h clocks limits s t) : t.tsc = s.tsc := hst.msr 0x10 (.inr rfl)

theorem tick (hst : Alike h clocks limits s t) :
    Alike h clocks limits { s with clock := s.clock + 1 } { t with clock := t.clock + 1 } :=
  { hst with
    clock := fun hc n => by
      rw [Nat.add_assoc, Nat.add_assoc]
      exact hst.clock hc (1 + n) }

theorem maxInstr {e e' : RunEnv} (hflags : e'.flags = e.flags) (hst : Alike h clocks Eq s t) :
    maxInstrReached e s = maxInstrReached e' t := by
  unfold maxInstrReached RunEnv.has
  rw [hflags, hst.limit, hst.tsc]

theorem setMsr (hst : Alike h clocks limits s t) (u : Nat) {v v' : U64}
    (hv : clocks = true ∨ hostMsr u = false → v' = v) :
    Alike h clocks limits (s.setMsr u v) (t.setMsr u v') :=
  { hst with
    msr := fun i hi => by
      show Function.update t.msr u v' i = Function.update s.msr u v i
      by_cases hiu : i = u
      · subst hiu
        rw [Function.update_self, Function.update_self, hv hi]
      · rw [Function.update_of_ne hiu, Function.update_of_ne hiu, hst.msr i hi] }

theorem timedOut {e e' : RunEnv} (he : SameEnv clocks e e') (hst : Alike h clocks limits s t) :
    Both (Alike h clocks limits) (timedOut h e s) (timedOut h e' t) := by
  unfold X86Emu.timedOut hostTime
  rcases he.timeless with hc | htime
  · rw [he.same hc, hst.timeout, hst.tsc]
    split
    · have hnow := (hst.clock hc 0).2
      rw [Nat.add_zero, Nat.add_zero] at hnow
      dsimp only
      rw [hnow]
      exact ⟨rfl, { hst.tick with timeout := rfl }⟩
    · exact ⟨rfl, hst⟩
  · have htime' : e'.has runTimeout = false := by rw [← htime, RunEnv.has, RunEnv.has, he.flags]
    rw [htime, htime']
    exact ⟨rfl, hst⟩

/-- The MSRs that hold readings of the host's time stamp counter are compared with `clocks`. -/
theorem setHostMsr {e e' : RunEnv} (he : SameEnv clocks e e') (hst : Alike h clocks limits s t) :
    Alike h clocks limits ((hostTsc h s).2.setMsr 0x12 ((hostTsc h s).1 - e.tscOfs))
      ((hostTsc h t).2.setMsr 0x12 ((hostTsc h t).1 - e'.tscOfs)) := by
  refine hst.tick.setMsr 0x12 fun hcase => ?_
  have hc : clocks = true := hcase.resolve_right (by decide)
  have hnow := (hst.clock hc 0).1
  rw [Nat.add_zero, Nat.add_zero] at hnow
  unfold hostTsc
  rw [he.same hc, hnow]

theorem realTsc {e e' : RunEnv} (he : SameEnv clocks e e') (hst : Alike h clocks limits s t) :
    Alike h clocks limits (updateRealTsc h e s) (updateRealTsc h e' t) := by
  have hset : Alike h clocks limits (s.setMsr 0x11 s.realTsc) (t.setMsr 0x11 t.realTsc) :=
    hst.setMsr 0x11 fun hcase => hst.msr 0x12 (.inl (hcase.resolve_right (by decide)))
  exact hset.setHostMsr he

theorem beginRun (flags : U32) (fuel : Nat) (htime : clocks = true ∨ flags &&& runTimeout = 0)
    (hst : Alike h clocks limits s t) :
    SameEnv clocks (beginRun h flags fuel s).1 (beginRun h flags fuel t).1 ∧
      Alike h clocks limits (beginRun h flags fuel s).2 (beginRun h flags fuel t).2 := by
  refine ⟨⟨rfl, rfl, fun hc => ?_, htime.imp id fun hzero => ?_⟩, ?_⟩
  · have htime := (hst.clock hc 0).2
    have htsc := (hst.clock hc 1).1
    rw [Nat.add_zero, Nat.add_zero] at htime
    unfold X86Emu.beginRun hostTime hostTsc St.realTsc
    dsimp only
    rw [htime, htsc, hst.msr 0x12 (.inl hc)]
  · show (flags &&& runTimeout != 0) = false
    rw [hzero]
    rfl
  · have hiopl : (s.withIopl h).io.Alike (t.withIopl h).io := by
      refine ⟨hst.io.perm, ?_, hst.io.needed, hst.io.events⟩
      show (!(t.io.ioplNeeded && !h.iopl3)) = (!(s.io.ioplNeeded && !h.iopl3))
      rw [hst.io.needed]
    exact { hst.tick.tick with io := hiopl }

end Alike

/-! ## Steps -/

theorem callHandler_alike {h : Host} {clocks : Bool} {limits : U64 → U64 → Prop}
    {s t : St} {f : Option (St → St)}
    (hf : ∀ {g}, f = some g → Alike h clocks limits (g s) (g t)) (hst : Alike h clocks limits s t) :
    Both (Alike h clocks limits) (callHandler f s) (callHandler f t) := by
  cases f with
  | none => exact ⟨rfl, hst⟩
  | some g => exact ⟨rfl, hf rfl⟩

section Steps

variable {inp : PortInput} {h : Host} {clocks : Bool} (hh : h.Inert inp clocks)
  {limits : U64 → U64 → Prop} {s t : St}

include hh

theorem callMemio_alike (kind : MemioKind) (bits : MemioBits) (addr val : U32)
    (hst : Alike h clocks limits s t) :
    Both (Alike h clocks limits) (callMemio kind bits addr val h s)
      (callMemio kind bits addr val h t) := by
  obtain ⟨hres, hmem, hio⟩ := vmMemio_alike inp hst.mem hst.io kind bits addr val
  obtain ⟨m, io, hs⟩ := vmMemio_frame inp s kind bits addr val
  obtain ⟨m', io', ht⟩ := vmMemio_frame inp t kind bits addr val
  unfold callMemio
  rw [hh.memio]
  refine ⟨hres, ?_⟩
  dsimp only
  rw [hres]
  rw [hs, ht] at hmem hio ⊢
  have hnext : Alike h clocks limits { s with mem := m, io := io }
      { t with mem := m', io := io' } :=
    { hst with mem := hmem, io := hio }
  exact hnext.event _

/-- The log writers write what is not looked at, in the left state. -/
theorem logBlind_left : LogBlind h fun s s' =>
    ∀ t, Alike h clocks limits s t → Alike h clocks limits s' t where
  refl _ _ hst := hst
  trans h₁ h₂ t hst := h₂ t (h₁ t hst)
  log _ _ _ hst := hst.left
  flush hf _ text _ hst := hh.flush hf text hst

theorem logBlind_right : LogBlind h fun t t' =>
    ∀ s, Alike h clocks limits s t → Alike h clocks limits s t' where
  refl _ _ hst := hst
  trans h₁ h₂ s hst := h₂ s (h₁ s hst)
  log _ _ _ hst := hst.right
  flush hf _ text _ hst := (hh.flush hf text hst.symm).symm

theorem line_alike (thr : U32) (guard : Log → Bool) (text : St → List Char)
    (hst : Alike h clocks limits s t) :
    Alike h clocks limits (logLine thr guard text h s) (logLine thr guard text h t) :=
  (logBlind_right hh).line thr guard text t _ ((logBlind_left hh).line thr guard text s _ hst)

/-- The primitive operations. -/
theorem prim_alike {β : Type} {n : Nat} {f : Effects} {x : Trans Host St β}
    (hx : EmuGrade β n f x) (hseg : ¬maySeg ≤ f) (hst : Alike h clocks limits s t) :
    Both (Alike h clocks limits) (x h s) (x h t) := by
  cases hx with
  | getCpu => exact ⟨hst.cpu.symm, hst⟩
  | ctrl _ => exact ⟨rfl, hst.mapCpu _⟩
  | data _ => exact ⟨rfl, hst.mapCpu _⟩
  | eflg v => exact ⟨rfl, hst.mapCpu fun c => { c with eflg := v }⟩
  | seg ref val => exact absurd le_rfl hseg
  | crx i v => exact ⟨rfl, hst.mapCpu fun c => { c with crx := Function.update c.crx i v }⟩
  | flags y =>
    refine ⟨?_, hst.mapCpu fun c => { c with eflg := (y.run () c.eflg).2 }⟩
    show (y.run () s.cpu.eflg).1 = (y.run () t.cpu.eflg).1
    rw [hst.cpu]
  | disasm text => exact ⟨rfl, hst.left.right⟩
  | capture bytes => exact ⟨rfl, hst.capture bytes⟩
  | read _ width addr val => exact callMemio_alike hh _ _ addr val hst
  | write width addr val => exact callMemio_alike hh _ _ addr val hst
  | fetchStop addr =>
    exact ⟨rfl, (hst.mapCpu fun c => { c with mode := { c.mode with halted := true } }).event
      (.fetchError addr)⟩
  | division d => exact ⟨rfl, hst.division d⟩
  | log thr guard text _ => exact ⟨rfl, line_alike hh thr guard text hst⟩
  | raise _ err => exact ⟨rfl, hst.raise _ _ err⟩
  | raiseUd nr type err => exact ⟨rfl, hst.raise nr type err⟩
  | cpuid => exact callHandler_alike (fun hf => hh.cpuid hf hst) hst
  | hasCpuid => exact ⟨rfl, hst⟩
  | rdmsr => exact callHandler_alike (fun hf => hh.rdmsr hf hst) hst
  | wrmsr => exact callHandler_alike (fun hf => hh.wrmsr hf hst) hst
  | rdtsc => exact ⟨hst.tsc.symm, hst.left.right⟩
  | debugJump c start ofs => exact ⟨rfl, hst.debugJump c start ofs⟩

/-! ## Runs -/

/-- Two runs keep the relation. -/
theorem alike_twins {e e' : RunEnv} (he : SameEnv clocks e e') :
    TwinRule h e e' (Alike h clocks limits) where
  flags := he.flags
  fuel := he.fuel
  cpu := Alike.cpu
  intr := Alike.intr
  tsc := Alike.tsc
  quiet hst := ⟨hst.plain.2, hst.plain'.2⟩
  putCpu _ hst := { hst with cpu := rfl }
  putIntr _ hst := { hst with intr := rfl }
  putTsc _ hst := hst.setMsr 0x10 fun _ => rfl
  event ev hst := hst.event ev
  left := logBlind_left hh
  right := logBlind_right hh
  texts _ _ _ _ hst := hst.left.right
  intrStats _ _ hst := hst.left.right
  prim hx hseg _ _ hst := prim_alike hh hx hseg hst
  peek addr hst := callMemio_alike hh _ _ addr _ hst
  codeCheck hf _ _ hst := hh.codeCheck hf hst
  callIntr hf _ _ nr type hst := hh.intr hf nr type hst
  timedOut := Alike.timedOut he
  realTsc := Alike.realTsc he

theorem endRun_alike {e e' : RunEnv} (he : SameEnv clocks e e') (rs : U32)
    (hst : Alike h clocks limits s t) :
    Alike h clocks limits (endRun h e rs s) (endRun h e' rs t) :=
  ((alike_twins hh he).logExit rs hst).setHostMsr he

/-- Two runs with the same instruction limit. -/
theorem run_alike (flags : U32) (fuel : Nat) (htime : clocks = true ∨ flags &&& runTimeout = 0)
    (hst : Alike h clocks Eq s t) :
    Both (Alike h clocks Eq) (x86emuRun h flags fuel s) (x86emuRun h flags fuel t) := by
  obtain ⟨he, hbegin⟩ := hst.beginRun flags fuel htime
  obtain ⟨hres, hnext⟩ := (alike_twins hh he).runLoop (Alike.maxInstr he.flags) fuel 0 hbegin
  unfold x86emuRun
  generalize beginRun h flags fuel s = p at he hres hnext ⊢
  generalize beginRun h flags fuel t = q at he hres hnext ⊢
  obtain ⟨e, s⟩ := p
  obtain ⟨e', t⟩ := q
  dsimp only at he hres hnext ⊢
  generalize runLoop h e fuel 0 s = p at hres hnext ⊢
  generalize runLoop h e' fuel 0 t = q at hres hnext ⊢
  obtain ⟨rs, s⟩ := p
  obtain ⟨rs', t⟩ := q
  obtain rfl : rs = rs' := hres
  cases rs with
  | none => exact ⟨rfl, hnext⟩
  | some rs => exact ⟨rfl, endRun_alike hh he rs hnext⟩

end Steps

theorem wrmsr_alike {h : Host} {clocks : Bool} {limits : U64 → U64 → Prop} {s t : St}
    (hst : Alike h clocks limits s t) :
    Alike h clocks limits (x86emuWrmsr s) (x86emuWrmsr t) := by
  have hnext : Alike h clocks limits
      (s.setMsr s.msrIndex ((s.cpu.gen .dx) ++ (s.cpu.gen .ax)))
      (t.setMsr t.msrIndex ((t.cpu.gen .dx) ++ (t.cpu.gen .ax))) := by
    unfold St.msrIndex
    rw [hst.cpu]
    exact hst.setMsr _ fun _ => rfl
  exact hnext.left.right

theorem rdmsr_alike {h : Host} {clocks : Bool} {limits : U64 → U64 → Prop} {s t : St}
    (hread : clocks = true ∨ hostMsr s.msrIndex = false) (hst : Alike h clocks limits s t) :
    Alike h clocks limits (x86emuRdmsr s) (x86emuRdmsr t) := by
  have hnext := hst.mapCpu fun c =>
    let v := s.msr (c.gen .cx).toNat
    (c.setGen .dx (v.extractLsb' 32 32)).setGen .ax (v.extractLsb' 0 32)
  have hindex : t.msrIndex = s.msrIndex := by
    unfold St.msrIndex
    rw [hst.cpu]
  have hmsr : x86emuRdmsr t = { t with
      cpu := (t.cpu.setGen .dx ((s.msr (t.cpu.gen .cx).toNat).extractLsb' 32 32)).setGen .ax
        ((s.msr (t.cpu.gen .cx).toNat).extractLsb' 0 32) }.markMsr t.msrIndex accRead := by
    have hval : t.msr t.msrIndex = s.msr t.msrIndex := hst.msr _ (by rwa [hindex])
    unfold x86emuRdmsr
    rw [hval]
    rfl
  rw [hmsr]
  exact hnext.left.right

theorem defaultHost_inert (inp : PortInput) : (defaultHost inp).Inert inp true where
  memio := rfl
  codeCheck hf := by cases hf
  intr hf := by cases hf
  cpuid hf := by cases hf
  rdmsr hf limits s t hst := by
    cases hf
    exact rdmsr_alike (.inl rfl) hst
  wrmsr hf limits s t hst := by
    cases hf
    exact wrmsr_alike hst
  flush hf := by cases hf

/-- A host on which the guest cannot read the MSRs that hold readings of the host's time stamp
counter. -/
def maskedHost (inp : PortInput) : Host :=
  { defaultHost inp with rdmsr := some fun s => if hostMsr s.msrIndex then s else x86emuRdmsr s }

theorem maskedHost_inert (inp : PortInput) (clocks : Bool) :
    (maskedHost inp).Inert inp clocks where
  memio := rfl
  codeCheck hf := by cases hf
  intr hf := by cases hf
  cpuid hf := by cases hf
  rdmsr hf limits s t hst := by
    cases hf
    have hindex : t.msrIndex = s.msrIndex := by
      unfold St.msrIndex
      rw [hst.cpu]
    dsimp only
    rw [hindex]
    split
    · exact hst
    · next hread => exact rdmsr_alike (.inr (Bool.eq_false_of_not_eq_true hread)) hst
  wrmsr hf limits s t hst := by
    cases hf
    exact wrmsr_alike hst
  flush hf := by cases hf

/-! ## Calls -/

/-- The runs among the calls. -/
def ApiCall.run? : ApiCall → Option (U32 × Nat)
  | .run flags fuel => some (flags, fuel)
  | _ => none

/-- A call that does not turn the debug instruction on. -/
def ApiCall.Plain : ApiCall → Prop
  | .setTrace flags => (flags &&& traceDebug != 0) = false
  | _ => True

/-- Runs one after the other. -/
def execRuns (h : Host) (runs : List (U32 × Nat)) (s : St) : St :=
  runs.foldl (fun s r => (x86emuRun h r.1 r.2 s).2) s

section Calls

variable {inp : PortInput} {h : Host} (hh : h.Inert inp true) {s t : St}

include hh

/-- Calls that are no runs change what a run does not look at. -/
theorem call_alike {call : ApiCall} (hplain : call.Plain) (hnone : call.run? = none)
    (hst : Alike h true Eq s t) : Alike h true Eq (call.exec h s) t := by
  cases call with
  | run flags fuel => cases hnone
  | log text => exact (logBlind_left hh).text text s t hst
  | clearLog flush => exact (logBlind_left hh).clearLog flush s t hst
  | dump flags => exact (logBlind_left hh).dump flags s t hst
  | setTrace flags => exact { hst with plain := ⟨hplain, hst.plain.2⟩ }

/-- The log, the dump and the trace flags do not matter: whatever is called between the runs, these
go as if they were made one after the other from any state that only differs in what is not
looked at. -/
theorem execCalls_inert {calls : List ApiCall} (hplain : ∀ call ∈ calls, call.Plain)
    (hst : Alike h true Eq s t) (flags : U32) (fuel : Nat) :
    Both (Alike h true Eq) (x86emuRun h flags fuel (execCalls h calls s))
      (x86emuRun h flags fuel (execRuns h (calls.filterMap ApiCall.run?) t)) := by
  refine run_alike hh flags fuel (.inl rfl) ?_
  induction calls generalizing s t with
  | nil => exact hst
  | cons call calls ih =>
    have hrest : ∀ call ∈ calls, call.Plain := fun c hc => hplain c (List.mem_cons_of_mem _ hc)
    cases hrun : call.run? with
    | none =>
      rw [List.filterMap_cons_none hrun]
      exact ih hrest (call_alike hh (hplain call List.mem_cons_self) hrun hst)
    | some r =>
      rw [List.filterMap_cons_some hrun]
      cases call with
      | run f n =>
        cases hrun
        exact ih hrest (run_alike hh f n (.inl rfl) hst).2
      | _ => cases hrun

end Calls

/-- An emulator that executes `PUSH ES` and `HLT` in each run, traced, with a log and dumped after
its first run, and the same without a log. -/
theorem execCalls_inert_traced :
    let s : St := x86emuReset { mem := fullMem fun i => if i.getLsbD 0 then 0xf4 else 0x06 }
    let h := defaultHost fun _ _ _ => 0
    Both (Alike h true Eq)
      (x86emuRun h 0 10 (execCalls h
        [.setTrace (traceRegs ||| traceCode), .run 0 10, .dump 0xff] (x86emuSetLog 4096 s)))
      (x86emuRun h 0 10 (execRuns h [(0, 10)] s)) := by
  intro s h
  have hsame : Alike h true Eq s s :=
    .refl (fun _ => rfl) (fun a b n ha => by cases ha) ⟨by decide, rfl⟩
  refine execCalls_inert (defaultHost_inert _) ?_ hsame.left 0 10
  intro call hcall
  simp only [List.mem_cons, List.not_mem_nil, or_false] at hcall
  rcases hcall with rfl | rfl | rfl
  · exact (by decide : ((traceRegs ||| traceCode) &&& traceDebug != 0) = false)
  · exact True.intro
  · exact True.intro

end X86Emu
