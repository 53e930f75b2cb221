import X86Emu.Effects.Unchanged
import X86Emu.Run.Prefixes

/-!
# The disassembly text

`OP_DECODE` and the other macros append to `disasm_buf` without looking at its size. An opcode
handler appends at most 43 characters, and always the same ones, whatever stands before them; a
prefix byte appends its name, and there may be any number of these.
-/

namespace X86Emu

open Lib

/-- `sizeof x86.disasm_buf` -/
def disasmBufSize : Nat := 256

/-- The text and its terminating zero fit into the buffer. -/
def St.DisasmFits (s : St) : Prop := s.disasm.length + 1 ≤ disasmBufSize

/-! ## Lengths -/

/-- At most `n` characters are appended. -/
def Appends (n : Nat) (s t : St) : Prop := ∃ text, t.disasm = s.disasm ++ text ∧ text.length ≤ n

namespace Appends

theorem of_same {s t : St} (hst : t.disasm = s.disasm) : Appends 0 s t :=
  ⟨[], by rw [hst, List.append_nil], Nat.le_refl 0⟩

theorem mono {n m : Nat} {s t : St} (h : Appends n s t) (hn : n ≤ m) : Appends m s t := by
  obtain ⟨text, hdisasm, hlength⟩ := h
  exact ⟨text, hdisasm, hlength.trans hn⟩

theorem trans {n m : Nat} {s t u : St} (h₁ : Appends n s t) (h₂ : Appends m t u) :
    Appends (n + m) s u := by
  obtain ⟨text₁, hdisasm₁, hlength₁⟩ := h₁
  obtain ⟨text₂, hdisasm₂, hlength₂⟩ := h₂
  refine ⟨text₁ ++ text₂, ?_, ?_⟩
  · rw [hdisasm₂, hdisasm₁, List.append_assoc]
  · rw [List.length_append]
    omega

theorem same {s t : St} (h : Appends 0 s t) : t.disasm = s.disasm := by
  obtain ⟨text, hdisasm, hlength⟩ := h
  rw [hdisasm, List.length_eq_zero_iff.mp (Nat.le_zero.mp hlength), List.append_nil]

end Appends

section

variable {inp : PortInput} {h : Host} (hh : h.Default inp)

theorem disasm_intrRaise (nr : U8) (type err : U32) (s : St) :
    (x86emuIntrRaise nr type err s).disasm = s.disasm := by
  unfold x86emuIntrRaise
  dsimp only
  split <;> rfl

theorem disasm_capture (bytes : List U8) (s : St) : (captureBytes bytes s).disasm = s.disasm := by
  unfold captureBytes
  split <;> rfl

theorem disasm_debugRecord (start : U32) (ofs : U8) (s : St) :
    (setDebugRecord start ofs s).disasm = s.disasm := by
  unfold setDebugRecord
  split <;> rfl

theorem disasm_callHandler {f : Option (St → St)}
    (hf : f = none ∨ f = some x86emuRdmsr ∨ f = some x86emuWrmsr) (s : St) :
    (callHandler f s).2.disasm = s.disasm := by
  rcases hf with rfl | rfl | rfl <;> rfl

include hh

theorem disasm_callMemio (kind : MemioKind) (bits : MemioBits) (addr val : U32) (s : St) :
    (callMemio kind bits addr val h s).2.disasm = s.disasm := by
  obtain ⟨mem, io, hframe⟩ := vmMemio_frame inp s kind bits addr val
  unfold callMemio
  rw [hh.memio]
  dsimp only
  rw [hframe]

theorem disasm_logBlind : LogBlind h fun s t => t.disasm = s.disasm where
  refl _ := rfl
  trans h₁ h₂ := h₂.trans h₁
  log _ _ := rfl
  flush hf := by
    rw [hh.flush] at hf
    cases hf

/-- Besides the load of a segment register. -/
theorem appends_prim {β : Type} {n : Nat} {f : Effects} {x : Trans Host St β}
    (hx : EmuGrade β n f x) (hf : ¬maySeg ≤ f) (s : St) : Appends n s (x h s).2 := by
  cases hx with
  | disasm t => exact ⟨t, rfl, Nat.le_refl _⟩
  | seg ref val => exact absurd le_rfl hf
  | capture bytes => exact .of_same (disasm_capture bytes s)
  | read _ width addr val => exact .of_same (disasm_callMemio hh _ _ addr val s)
  | write width addr val => exact .of_same (disasm_callMemio hh _ _ addr val s)
  | log thr guard text _ => exact .of_same ((disasm_logBlind hh).line thr guard text s)
  | raise _ err => exact .of_same (disasm_intrRaise _ _ err s)
  | raiseUd nr type err => exact .of_same (disasm_intrRaise nr type err s)
  | cpuid => exact .of_same (disasm_callHandler (Or.inl hh.cpuid) s)
  | rdmsr => exact .of_same (disasm_callHandler (Or.inr (Or.inl hh.rdmsr)) s)
  | wrmsr => exact .of_same (disasm_callHandler (Or.inr (Or.inr hh.wrmsr)) s)
  | debugJump c start ofs =>
    refine .of_same ?_
    dsimp only
    split
    · exact disasm_debugRecord start ofs s
    · rfl
  | _ => exact .of_same rfl

theorem appends_quiet {α : Type} {x : Emu α} {n : Nat} (hx : Does x n ⊥) (s : St) :
    Appends n s (x.run h s).2 :=
  Graded.keeps (R := Appends) (fun _ => .of_same rfl) Appends.mono Appends.trans
    (fun hy hf => appends_prim hh hy fun hseg => absurd (hseg.trans hf) (by decide)) hx.grade le_rfl
    s

/-- A program appends at most as many characters as its grade says. -/
theorem appends_does {α : Type} {x : Emu α} {n : Nat} {f : Effects} (hx : Does x n f) (s : St) :
    Appends n s (x.run h s).2 := by
  refine Graded.keeps (R := Appends) (g := f) (fun _ => .of_same rfl) Appends.mono Appends.trans ?_
    hx.grade le_rfl s
  intro β m g y hy _ s
  by_cases hseg : maySeg ≤ g
  · cases hy with
    | seg ref val =>
      exact setSegRegister_keeps (R := Appends 0) (fun _ => .of_same rfl) Appends.trans
        (appends_quiet hh) (fun _ _ => .of_same rfl) val s
    | _ => exact absurd hseg (by decide)
  · exact appends_prim hh hy hseg s

/-- A primitive operation appends the same text to every other. -/
theorem disasm_prim {β : Type} {x : Trans Host St β} (hx : EmuPrim x) :
    ∃ text, ∀ s, (x h s).2.disasm = s.disasm ++ text := by
  have hsame : (∀ s, (x h s).2.disasm = s.disasm) →
      ∃ text, ∀ s, (x h s).2.disasm = s.disasm ++ text :=
    fun hx => ⟨[], fun s => by rw [hx, List.append_nil]⟩
  cases hx with
  | disasm t => exact ⟨t, fun _ => rfl⟩
  | capture bytes => exact hsame (disasm_capture bytes)
  | memio kind width addr val => exact hsame (disasm_callMemio hh _ _ addr val)
  | log thr guard text _ => exact hsame ((disasm_logBlind hh).line thr guard text)
  | raise nr type err => exact hsame (disasm_intrRaise nr type err)
  | cpuid => exact hsame (disasm_callHandler (Or.inl hh.cpuid))
  | rdmsr => exact hsame (disasm_callHandler (Or.inr (Or.inl hh.rdmsr)))
  | wrmsr => exact hsame (disasm_callHandler (Or.inr (Or.inr hh.wrmsr)))
  | debugRecord start ofs => exact hsame (disasm_debugRecord start ofs)
  | _ => exact hsame fun _ => rfl

/-- A program appends the same text to every other. -/
theorem disasm_run {α : Type} (x : Emu α) {s t : St} (hview : s.view = t.view)
    (hempty : t.disasm = []) : (x.run h s).2.disasm = s.disasm ++ (x.run h t).2.disasm := by
  let R : St → St → Prop := fun u v =>
    u.view = v.view ∧ ∃ text, u.disasm = s.disasm ++ text ∧ v.disasm = text
  have hrun := x.related (R := R) (r := h) ?_
    ⟨hview, [], (List.append_nil s.disasm).symm, hempty⟩
  · obtain ⟨-, -, text, hs, ht⟩ := hrun
    rw [hs, ht]
  · rintro β y hy u v ⟨huv, text, hu, hv⟩
    obtain ⟨hres, hst⟩ := prim_view hh.blind hy u
    obtain ⟨hres', hst'⟩ := prim_view hh.blind hy v
    obtain ⟨text', happend⟩ := disasm_prim hh hy
    rw [huv] at hres hst
    refine ⟨hres.symm.trans hres', hst.symm.trans hst', text ++ text', ?_, ?_⟩
    · rw [happend, hu, List.append_assoc]
    · rw [happend, hv]

end

/-! ## Prefixes -/

/-- What a prefix byte appends. -/
def prefixName (b : U8) : String :=
  match b.toNat with
  | 0xf0 => "lock: "
  | 0xf2 => "repne "
  | 0xf3 => "repe "
  | _ => ""

/-- The prefixes among the next `n` bytes. -/
def St.prefixes (s : St) (n : Nat) : List U8 :=
  ((List.range n).map s.codeByte).takeWhile fun b => decide (IsPrefix b)

/-- The text that the prefixes append. -/
def St.prefixText (s : St) (n : Nat) : List Char :=
  (s.prefixes n).flatMap fun b => (prefixName b).toList

theorem prefixEffect_disasm {b : U8} {f : St → St} (hf : prefixEffect b = some f) (s : St) :
    (f s).disasm = s.disasm ++ (prefixName b).toList := by
  unfold prefixEffect at hf
  unfold prefixName
  split at hf <;> cases hf
  all_goals
    next hb =>
      rw [hb]
      simp [St.setMode, setOverride, St.opDecode]

theorem codeByte_congr {s t : St} (hcpu : t.cpu = s.cpu) (hmem : t.mem = s.mem) :
    t.codeByte = s.codeByte := by
  funext n
  unfold St.codeByte St.code
  rw [hcpu, hmem]

theorem prefixText_stop {s : St} (hop : ¬IsPrefix (s.codeByte 0)) (n : Nat) :
    s.prefixText n = [] := by
  cases n with
  | zero => rfl
  | succ n =>
    unfold St.prefixText St.prefixes
    rw [List.range_succ_eq_map, List.map_cons, List.takeWhile_cons,
      if_neg fun h => hop (of_decide_eq_true h)]
    rfl

theorem prefixText_next {s t : St} (hp : IsPrefix (s.codeByte 0))
    (hnext : ∀ n, t.codeByte n = s.codeByte (n + 1)) (n : Nat) :
    s.prefixText (n + 1) = (prefixName (s.codeByte 0)).toList ++ t.prefixText n := by
  have htail : (List.range n).map (s.codeByte ∘ Nat.succ) = (List.range n).map t.codeByte :=
    List.map_congr_left fun i _ => (hnext i).symm
  unfold St.prefixText St.prefixes
  rw [List.range_succ_eq_map, List.map_cons, List.map_map, htail, List.takeWhile_cons,
    if_pos (decide_eq_true hp), List.flatMap_cons]

section

variable {inp : PortInput} {h : Host} (hh : h.Default inp)

include hh

/-- The loop appends the names of the prefixes it goes over. -/
theorem prefixLoop_disasm (n : Nat) (s : St) :
    (prefixLoop h n s).2.disasm = s.disasm ++ s.prefixText n := by
  induction n generalizing s with
  | zero => exact (List.append_nil s.disasm).symm
  | succ n ih =>
    have hfetch : (fetchByte.run h s).2.disasm = s.disasm :=
      (appends_does hh inferInstance s).same
    rw [prefixLoop_succ hh.blind]
    cases hf : prefixEffect (s.codeByte 0) with
    | none =>
      rw [prefixText_stop (Option.not_isSome_iff_eq_none.mpr hf), List.append_nil]
      exact hfetch
    | some f =>
      have hp : IsPrefix (s.codeByte 0) := Option.isSome_iff_exists.mpr ⟨f, hf⟩
      rw [prefixText_next hp (codeByte_next hh.blind hf s), ← List.append_assoc, ← hfetch,
        ← prefixEffect_disasm hf]
      exact ih _

/-! ## Iterations -/

theorem disasm_looks : LookRule h fun s t => t.disasm = s.disasm where
  refl _ := rfl
  trans h₁ h₂ := h₂.trans h₁
  peek addr s := disasm_callMemio hh _ _ addr _ s
  halt _ := rfl

theorem disasm_idle : IdleRule h fun s t => t.disasm = s.disasm where
  toLogBlind := disasm_logBlind hh
  peek addr s := disasm_callMemio hh _ _ addr _ s
  clock _ _ := rfl
  msr _ _ _ := rfl
  trace _ _ := rfl
  debugDone _ := rfl
  reset _ := rfl

theorem disasm_delivery : DeliveryRule h fun s t => t.disasm = s.disasm where
  toLogBlind := disasm_logBlind hh
  delivery hst := by
    cases hst with
    | intr hf nr type =>
      rw [hh.intr] at hf
      cases hf
    | frame nr type err => exact (appends_does hh inferInstance _).same
    | _ => rfl

/-- Nothing is appended after the opcode handler. -/
theorem execInstr_disasm (e : RunEnv) (op1 : U8) (s : St) :
    (execInstr h e op1 s).disasm =
      (runHandler h op1 { s with hist := .instr op1 :: s.hist }).disasm :=
  ((disasm_idle hh).afterDelivery e _).trans ((disasm_delivery hh).handleInterrupt _)

theorem checkOpcode_disasm (e : RunEnv) (rs : U32) (op1 : U8) (s : St) :
    (checkOpcode h e rs op1 s).2.disasm = s.disasm := by
  unfold checkOpcode
  split
  · rfl
  · exact (disasm_looks hh).trans ((disasm_looks hh).checkLoop e op1 rs s)
      ((disasm_looks hh).checkNoCode e op1 _ _)

theorem readOpcode_disasm (e : RunEnv) (rs : U32) (s : St) :
    (readOpcode h e rs s).2.disasm = s.disasm ++ (startPrefixes s).prefixText e.fuel := by
  have hloop := prefixLoop_disasm hh e.fuel (startPrefixes s)
  unfold readOpcode
  generalize prefixLoop h e.fuel (startPrefixes s) = p at hloop ⊢
  rcases p with ⟨op1 | op1, t⟩
  · exact hloop
  · exact (checkOpcode_disasm hh e rs op1 t).trans hloop

end

/-- The iteration gets to the bytes of the instruction. -/
def ReadsInstr (h : Host) (e : RunEnv) (s : St) : Prop :=
  maxInstrReached e s = false ∧ (timedOut h e s).1 = false

instance (h : Host) (e : RunEnv) (s : St) : Decidable (ReadsInstr h e s) :=
  inferInstanceAs (Decidable (_ ∧ _))

/-- The text of the instruction alone: what its handler appends to an empty buffer. -/
def ownText (h : Host) (e : RunEnv) (rs : U32) (s : St) : List Char :=
  match runChecks h e rs (logRegs h (startInstr s)) with
  | (.exec _ op1, t) => (runHandler h op1 { t with disasm := [] }).disasm
  | _ => []

theorem timedOut_state (h : Host) (e : RunEnv) (s : St) :
    ∃ clock, (timedOut h e s).2 = { s with clock := clock } := by
  unfold timedOut
  split
  · exact ⟨_, rfl⟩
  · exact ⟨s.clock, rfl⟩

/-- What the checks before the instruction depend on. -/
theorem readsInstr_congr (h : Host) (e : RunEnv) {s t : St} (hmax : t.maxInstr = s.maxInstr)
    (htimeout : t.timeout = s.timeout) (htsc : t.tsc = s.tsc) (hclock : t.clock = s.clock) :
    ReadsInstr h e t ↔ ReadsInstr h e s := by
  have htime : (timedOut h e t).1 = (timedOut h e s).1 := by
    unfold timedOut hostTime
    rw [htimeout, htsc, hclock]
    split <;> rfl
  unfold ReadsInstr maxInstrReached
  rw [hmax, htsc, htime]

theorem runChecks_stops {h : Host} {e : RunEnv} (rs : U32) {s : St} (hreads : ¬ReadsInstr h e s) :
    ∃ rs' clock, runChecks h e rs s = (.stop rs', { s with clock := clock }) := by
  obtain ⟨clock, hclock⟩ := timedOut_state h e s
  unfold ReadsInstr at hreads
  unfold runChecks
  by_cases hmax : maxInstrReached e s = true
  · rw [if_pos hmax]
    exact ⟨_, s.clock, rfl⟩
  · have htime : (timedOut h e s).1 = true := by
      rw [← Bool.not_eq_false]
      exact fun htime => hreads ⟨Bool.eq_false_of_not_eq_true hmax, htime⟩
    rw [if_neg hmax]
    dsimp only
    rw [if_pos htime, hclock]
    exact ⟨_, clock, rfl⟩

section

variable {inp : PortInput} {h : Host} (hh : h.Default inp)

include hh

theorem readsInstr_logged (e : RunEnv) (s : St) :
    ReadsInstr h e (logRegs h (startInstr s)) ↔ ReadsInstr h e s := by
  have hview : (logRegs h (startInstr s)).view = (startInstr s).view :=
    (hh.blind.logBlind).line _ _ _ _
  have hmax := congrArg St.maxInstr hview
  have htimeout := congrArg St.timeout hview
  have htsc := congrArg St.tsc hview
  have hclock := congrArg St.clock hview
  exact readsInstr_congr h e hmax htimeout htsc hclock

/-- The checks before an instruction. -/
theorem runChecks_reads {e : RunEnv} (rs : U32) {s : St} (hreads : ReadsInstr h e s) :
    runChecks h e rs s = readOpcode h e rs (timedOut h e s).2 := by
  obtain ⟨hmax, htime⟩ := hreads
  unfold runChecks codeCheck
  rw [hmax, hh.codeCheck]
  dsimp only
  rw [htime]
  rfl

theorem runChecks_disasm (e : RunEnv) (rs : U32) (s : St) :
    (runChecks h e rs (logRegs h (startInstr s))).2.disasm =
      if ReadsInstr h e s then (instrStart s).prefixText e.fuel else [] := by
  have hview : (logRegs h (startInstr s)).view = (startInstr s).view :=
    (hh.blind.logBlind).line _ _ _ _
  obtain ⟨hcpu, hmem⟩ := same_of_view hview
  have hempty : (logRegs h (startInstr s)).disasm = [] := (disasm_logBlind hh).line _ _ _ _
  have hreads := readsInstr_logged hh e s
  generalize logRegs h (startInstr s) = t at *
  split
  · next hyes =>
    obtain ⟨clock, hclock⟩ := timedOut_state h e t
    have hbyte : (startPrefixes { t with clock := clock }).codeByte = (instrStart s).codeByte := by
      refine codeByte_congr ?_ hmem
      unfold instrStart startPrefixes
      dsimp only
      rw [hcpu]
    have htext : (startPrefixes { t with clock := clock }).prefixText e.fuel =
        (instrStart s).prefixText e.fuel := by
      unfold St.prefixText St.prefixes
      rw [hbyte]
    rw [runChecks_reads hh rs (hreads.mpr hyes), hclock, readOpcode_disasm hh, htext]
    dsimp only
    rw [hempty, List.nil_append]
  · next hno =>
    obtain ⟨rs', clock, hstop⟩ := runChecks_stops rs (mt hreads.mp hno)
    rw [hstop]
    exact hempty

/-- The text of an iteration: the names of the prefixes and the text of the instruction. -/
theorem runIter_disasm (e : RunEnv) (rs : U32) (s : St) : (runIter h e rs s).2.disasm =
    (if ReadsInstr h e s then (instrStart s).prefixText e.fuel else []) ++ ownText h e rs s := by
  have hchecks := runChecks_disasm hh e rs s
  unfold runIter ownText
  rcases hrun : runChecks h e rs (logRegs h (startInstr s)) with ⟨rs' | _ | ⟨rs', op1⟩, t⟩
  all_goals rw [hrun] at hchecks
  · rw [List.append_nil]
    exact hchecks
  · rw [List.append_nil]
    exact hchecks
  · have happend := disasm_run hh (handlerAt x86emuOptab op1 op1)
      (s := { t with hist := .instr op1 :: t.hist }) (t := { t with disasm := [] }) rfl rfl
    rw [← hchecks]
    exact (execInstr_disasm hh e op1 t).trans happend

theorem ownText_length (e : RunEnv) (rs : U32) (s : St) : (ownText h e rs s).length ≤ 43 := by
  unfold ownText
  split
  · next op1 t _ =>
    obtain ⟨text, hdisasm, hlength⟩ :=
      appends_does hh (handler_does op1) { t with disasm := [] }
    unfold runHandler
    rw [hdisasm]
    exact hlength
  · exact Nat.zero_le 43

/-- The text of an instruction fits into the buffer exactly when the prefixes leave enough room for
the text of the instruction alone, which is short. -/
theorem disasm_fits_iff (e : RunEnv) (rs : U32) (s : St) :
    ((runIter h e rs s).2.DisasmFits ↔ (ReadsInstr h e s →
      ((instrStart s).prefixText e.fuel).length + (ownText h e rs s).length < disasmBufSize)) ∧
    (ownText h e rs s).length ≤ 43 := by
  have hlength := ownText_length hh e rs s
  refine ⟨?_, hlength⟩
  unfold St.DisasmFits
  rw [runIter_disasm hh, List.length_append]
  by_cases hreads : ReadsInstr h e s
  · rw [if_pos hreads]
    exact ⟨fun hfits _ => hfits, fun hfits => hfits hreads⟩
  · rw [if_neg hreads]
    refine iff_of_true ?_ fun h => absurd h hreads
    have hsize : disasmBufSize = 256 := rfl
    rw [List.length_nil]
    omega

end

/-- A `NOP` with three prefixes. -/
theorem disasm_fits_iff_nop :
    (runIter (defaultHost fun _ _ _ => 0) { flags := 0, fuel := 5 } 0
      (prefixedNop [0x66, 0x26, 0xf2])).2.DisasmFits := by
  have hlength : ((instrStart (prefixedNop [0x66, 0x26, 0xf2])).prefixText 5).length = 6 := by
    decide
  obtain ⟨hiff, hown⟩ := disasm_fits_iff (defaultHost_default fun _ _ _ => 0)
    { flags := 0, fuel := 5 } 0 (prefixedNop [0x66, 0x26, 0xf2])
  refine hiff.mpr fun _ => ?_
  have hsize : disasmBufSize = 256 := rfl
  rw [hlength]
  omega

/-- 43 LOCK prefixes. -/
theorem disasm_fits_fails :
    ¬∀ (inp : PortInput) (h : Host), h.Default inp → ∀ (e : RunEnv) (rs : U32) (s : St),
      (runIter h e rs s).2.DisasmFits := by
  intro hclaim
  let e : RunEnv := { flags := 0, fuel := 50 }
  let s := prefixedNop (List.replicate 43 0xf0)
  have hreads : ReadsInstr (defaultHost fun _ _ _ => 0) e s := by decide +kernel
  have hlength : ((instrStart s).prefixText e.fuel).length = 258 := by decide +kernel
  have hsize : disasmBufSize = 256 := rfl
  have hfits := hclaim _ _ (defaultHost_default fun _ _ _ => 0) e 0 s
  unfold St.DisasmFits at hfits
  rw [runIter_disasm (defaultHost_default _), if_pos hreads, List.length_append, hlength] at hfits
  omega

end X86Emu
