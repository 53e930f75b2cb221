import X86Emu.Memory.Protection
import X86Emu.Run.Api
import X86Emu.Run.Steps

/-!
# Memory protection over whole runs

With `vm_memio` as the memory handler, and a host that does not touch the memory itself, a run of
any guest program respects the permissions: each of its elementary steps does.
-/

namespace X86Emu

open Lib

/-! ## The host -/

/-- Memory and events are the same. -/
def Untouched (s t : St) : Prop := t.mem = s.mem ∧ t.hist = s.hist

/-- A host that uses `vm_memio` and whose own functions do not touch the memory. -/
structure Host.Detached (inp : PortInput) (h : Host) : Prop where
  memio : h.memio = vmMemio inp
  codeCheck : ∀ f, h.codeCheck = some f → ∀ s, Untouched s (f s).2
  intr : ∀ f, h.intr = some f → ∀ s nr type, Untouched s (f s nr type).2
  cpuid : ∀ f, h.cpuid = some f → ∀ s, Untouched s (f s)
  rdmsr : ∀ f, h.rdmsr = some f → ∀ s, Untouched s (f s)
  wrmsr : ∀ f, h.wrmsr = some f → ∀ s, Untouched s (f s)
  flush : ∀ f, h.flush = some f → ∀ s t, Untouched s (f s t)

theorem callHandler_untouched {f : Option (St → St)}
    (hf : ∀ g, f = some g → ∀ s, Untouched s (g s)) (s : St) :
    Untouched s (callHandler f s).2 := by
  cases f with
  | none => exact ⟨rfl, rfl⟩
  | some g => exact hf g rfl s

theorem defaultHost_detached (inp : PortInput) : (defaultHost inp).Detached inp where
  memio := rfl
  codeCheck f hf := by cases hf
  intr f hf := by cases hf
  cpuid f hf := by cases hf
  rdmsr f hf s := by
    cases hf
    exact ⟨rfl, rfl⟩
  wrmsr f hf s := by
    cases hf
    exact ⟨rfl, rfl⟩
  flush f hf := by cases hf

/-! ## Protected states -/

/-- A guest's read returns 0xff for the bytes without `PERM_R`. -/
def Event.Masked (f : Flat) : Event → Prop
  | .memio .r bits addr val _ => bits ≠ .b8noperm →
    ∀ p ∈ addrBytes (accessWidth .r bits) addr val, (f p.1).attr.has permR = false → p.2 = 0xff
  | _ => True

/-- Between two states the memory is protected, and so are the reads made. -/
structure Protected (s t : St) : Prop where
  mem : s.mem.Guarded t.mem
  reads : ∃ new, t.hist = new ++ s.hist ∧ ∀ ev ∈ new, ev.Masked s.mem.flat

namespace Protected

theorem of_untouched {s t : St} (h : Untouched s t) : Protected s t := by
  refine ⟨?_, [], h.2, fun ev hev => by cases hev⟩
  rw [h.1]
  exact Mem.Guarded.refl s.mem

/-- One event more. -/
theorem of_event {s t : St} (ev : Event) (hmem : s.mem.Guarded t.mem)
    (hhist : t.hist = ev :: s.hist) (hev : ev.Masked s.mem.flat) : Protected s t := by
  refine ⟨hmem, [ev], hhist, fun ev' hmem' => ?_⟩
  rw [List.mem_singleton.mp hmem']
  exact hev

/-- The permissions the masks depend on stay. -/
theorem masked_congr {mem mem' : Mem} (h : mem.Guarded mem') {ev : Event}
    (hev : ev.Masked mem'.flat) : ev.Masked mem.flat := by
  cases ev with
  | memio kind bits addr val err =>
    cases kind with
    | r =>
      intro hbits p hp hperm
      refine hev hbits p hp ?_
      rw [(h.cells p.1).has_eq (Or.inl rfl)]
      exact hperm
    | _ => exact True.intro
  | _ => exact True.intro

theorem trans {s t u : St} (h₁ : Protected s t) (h₂ : Protected t u) : Protected s u := by
  obtain ⟨hmem₁, new₁, hhist₁, hreads₁⟩ := h₁
  obtain ⟨hmem₂, new₂, hhist₂, hreads₂⟩ := h₂
  refine ⟨hmem₁.trans hmem₂, new₂ ++ new₁, by rw [hhist₂, hhist₁, List.append_assoc], ?_⟩
  intro ev hev
  rcases List.mem_append.mp hev with hev | hev
  · exact masked_congr hmem₁ (hreads₂ ev hev)
  · exact hreads₁ ev hev

end Protected

/-- The relation for states whose pages lie apart. -/
def Protects (s t : St) : Prop := s.mem.Sep → Protected s t

theorem Protects.refl (s : St) : Protects s s := fun _ => Protected.of_untouched ⟨rfl, rfl⟩

theorem Protects.trans {s t u : St} (h₁ : Protects s t) (h₂ : Protects t u) : Protects s u :=
  fun hsep => (h₁ hsep).trans (h₂ ((h₁ hsep).mem.sep hsep))

theorem Protects.of_untouched {s t : St} (h : Untouched s t) : Protects s t :=
  fun _ => Protected.of_untouched h

/-! ## Steps -/

section Steps

variable {inp : PortInput} {h : Host} (hh : h.Detached inp)

include hh

theorem callMemio_protects {kind : MemioKind} {bits : MemioBits}
    (hbits : ¬ (kind = .w ∧ bits = .b8noperm)) (addr val : U32) (s : St) :
    Protects s (callMemio kind bits addr val h s).2 := by
  intro hsep
  obtain ⟨mem, io, hframe⟩ := vmMemio_frame inp s kind bits addr val
  unfold callMemio
  rw [hh.memio]
  have hhist : (vmMemio inp s kind bits addr val).2.hist = s.hist := by rw [hframe]
  refine Protected.of_event (.memio kind bits addr (vmMemio inp s kind bits addr val).1.1
    (vmMemio inp s kind bits addr val).1.2) (vmMemio_guarded inp hsep hbits addr val)
    (congrArg (List.cons _) hhist) ?_
  cases kind with
  | r =>
    intro hnoperm
    rw [vmMemio_result inp s (Or.inl rfl)]
    exact access_read_masked hsep hnoperm addr val
  | _ => exact True.intro

/-- The log writers protect the memory. -/
theorem logBlind_protects : LogBlind h Protects where
  refl := Protects.refl
  trans := Protects.trans
  log _ _ := Protects.of_untouched ⟨rfl, rfl⟩
  flush hf s t := Protects.of_untouched (hh.flush _ hf s t)

/-- Every primitive operation of the handlers protects the memory. -/
theorem prim_protects {α : Type} {x : Trans Host St α} (hx : EmuPrim x) (s : St) :
    Protects s (x h s).2 := by
  cases hx with
  | getCpu => exact Protects.refl s
  | putCpu hf => exact Protects.of_untouched ⟨rfl, rfl⟩
  | flags y => exact Protects.of_untouched ⟨rfl, rfl⟩
  | disasm _ | division _ => exact Protects.of_untouched ⟨rfl, rfl⟩
  | capture bytes =>
    show Protects s (captureBytes bytes s)
    unfold captureBytes
    split
    · exact Protects.of_untouched ⟨rfl, rfl⟩
    · exact Protects.refl s
  | memio kind width addr val =>
    refine callMemio_protects hh ?_ addr val s
    rintro ⟨_, hnoperm⟩
    cases width <;> cases hnoperm
  | fetchStop addr => exact fun _ => Protected.of_event _ (Mem.Guarded.refl s.mem) rfl True.intro
  | log thr guard text ht => exact (logBlind_protects hh).line thr guard text s
  | raise nr type err =>
    show Protects s (x86emuIntrRaise nr type err s)
    unfold x86emuIntrRaise
    dsimp only
    split <;> exact fun _ => Protected.of_event _ (Mem.Guarded.refl s.mem) rfl True.intro
  | cpuid => exact Protects.of_untouched (callHandler_untouched hh.cpuid s)
  | hasCpuid => exact Protects.refl s
  | rdmsr => exact Protects.of_untouched (callHandler_untouched hh.rdmsr s)
  | wrmsr => exact Protects.of_untouched (callHandler_untouched hh.wrmsr s)
  | rdtsc => exact Protects.of_untouched ⟨rfl, rfl⟩
  | tracing flag => exact Protects.refl s
  | debugRecord start ofs =>
    show Protects s (setDebugRecord start ofs s)
    unfold setDebugRecord
    split
    · exact Protects.of_untouched ⟨rfl, rfl⟩
    · exact Protects.refl s

/-- So does every program of primitive operations, and with them every opcode handler. -/
theorem emu_protects {α : Type} (x : Emu α) (s : St) : Protects s (x.run h s).2 :=
  x.invariant Protects.refl Protects.trans (prim_protects hh) s

theorem quiet_protects {s t : St} (hst : Quiet h s t) : Protects s t := by
  cases hst with
  | cpu f => exact Protects.of_untouched ⟨rfl, rfl⟩
  | buffers bytes text => exact Protects.of_untouched ⟨rfl, rfl⟩
  | clock n => exact Protects.of_untouched ⟨rfl, rfl⟩
  | msr hu v => exact Protects.of_untouched ⟨rfl, rfl⟩
  | iopl ok => exact Protects.of_untouched ⟨rfl, rfl⟩
  | trace f => exact Protects.of_untouched ⟨rfl, rfl⟩
  | debugDone => exact Protects.of_untouched ⟨rfl, rfl⟩
  | fetch => exact emu_protects hh fetchByte s
  | peek addr =>
    exact callMemio_protects hh (fun hno => MemioKind.noConfusion hno.1) addr 0xff s
  | codeCheck hf => exact Protects.of_untouched (hh.codeCheck _ hf s)

theorem delivery_protects {s t : St} (hst : Delivery h s t) : Protects s t := by
  cases hst with
  | deliver nr type => exact fun _ => Protected.of_event _ (Mem.Guarded.refl s.mem) rfl True.intro
  | intr hf nr type => exact Protects.of_untouched (hh.intr _ hf s nr type)
  | frame nr type err => exact emu_protects hh (deliverInt nr type err) s
  | done => exact Protects.of_untouched ⟨rfl, rfl⟩

/-- All that a run does protects the memory. -/
theorem run_protects : RunRule h Protects where
  toLogBlind := logBlind_protects hh
  quiet := quiet_protects hh
  delivery := delivery_protects hh
  reset s := fun _ => ⟨resetAccessStats_guarded s.mem, [], rfl, fun ev hev => by cases hev⟩
  exec op1 s := by
    have hstart : Protects s { s with hist := .instr op1 :: s.hist } :=
      fun _ => Protected.of_event _ (Mem.Guarded.refl s.mem) rfl True.intro
    exact hstart.trans (emu_protects hh (handlerAt x86emuOptab op1 op1) _)
  tick s := Protects.of_untouched ⟨rfl, rfl⟩

/-- From any state whose pages lie apart, a run of any length of any guest program keeps the
permissions at every address, keeps the data where `PERM_W` is not set, never clears `VALID`, and
reads 0xff where `PERM_R` is not set. -/
theorem x86emuRun_protected {s : St} (hsep : s.mem.Sep) (flags : U32) (fuel : Nat) :
    Protected s (x86emuRun h flags fuel s).2 :=
  (run_protects hh).x86emuRun flags fuel s hsep

end Steps

/-- A run over a memory of `PUSH ES`. -/
theorem x86emuRun_protected_pushes :
    Protected (x86emuReset { mem := fullMem fun _ => 0x06, maxInstr := 3 })
      (x86emuRun (defaultHost fun _ _ _ => 0) runMaxInstr 10
        (x86emuReset { mem := fullMem fun _ => 0x06, maxInstr := 3 })).2 :=
  x86emuRun_protected (defaultHost_detached _) (fun a b n ha => by cases ha) runMaxInstr 10

end X86Emu
