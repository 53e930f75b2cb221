import X86Emu.Memory.PortAccess
import X86Emu.Run.Api

/-!
# Port protection over whole runs

With `vm_memio` as the memory handler, what the host's ports see of a run is what the permissions
of the ports grant of the accesses the guest makes; counters and marks say exactly that, and what is
refused is reported. So it is over any sequence of calls of `x86emu_set_io_perm` and `x86emu_run`.
-/

namespace X86Emu

open Lib

/-! ## Events -/

/-- The port access an event is. -/
def Event.portAccess : Event → Option PortAccess
  | .memio kind bits addr val _ => kind.portAccess bits addr val
  | _ => none

/-- What the host sees of the port accesses among the events, the last one first. -/
def Io.grantsOf (io : Io) (events : List Event) : List PortEvent :=
  (events.reverse.filterMap Event.portAccess).flatMap io.grants

def Io.refusalsOf (io : Io) (events : List Event) : List U16 :=
  (events.reverse.filterMap Event.portAccess).flatMap io.refusals

/-- A port access has failed when a port of it is refused, and the bytes of refused ports are
0xff. -/
def Event.Answered (io : Io) : Event → Prop
  | .memio kind bits addr val err => ∀ a, kind.portAccess bits addr val = some a →
    (err = true ↔ io.refusals a ≠ []) ∧ (a.write = false →
      ∀ i < a.width.count, io.allows a.perm (portAt a.port i) = false → byteOf val i = 0xff)
  | _ => True

/-- Between two states the host has seen what is granted of the port accesses made. -/
def PortsGuarded (s t : St) : Prop :=
  ∃ new, t.hist = new ++ s.hist ∧
    s.io.Served t.io (s.io.grantsOf new) (s.io.refusalsOf new) ∧ ∀ ev ∈ new, ev.Answered s.io

/-- Ports and events are the same. -/
def SamePorts (s t : St) : Prop := t.io = s.io ∧ t.hist = s.hist

theorem grantsOf_append (io : Io) (new old : List Event) :
    io.grantsOf (new ++ old) = io.grantsOf old ++ io.grantsOf new := by
  simp [Io.grantsOf, List.filterMap_append, List.flatMap_append]

theorem refusalsOf_append (io : Io) (new old : List Event) :
    io.refusalsOf (new ++ old) = io.refusalsOf old ++ io.refusalsOf new := by
  simp [Io.refusalsOf, List.filterMap_append, List.flatMap_append]

/-- The same port accesses are allowed. -/
def Io.SameRules (io io' : Io) : Prop :=
  ∀ (a : PortAccess) q, io'.allows a.perm q = io.allows a.perm q

namespace Io.SameRules

variable {io io' : Io} (h : io.SameRules io')

include h

theorem grantsOf (events : List Event) : io'.grantsOf events = io.grantsOf events := by
  unfold Io.grantsOf
  congr 1
  funext a
  exact grants_congr (h a)

theorem refusalsOf (events : List Event) : io'.refusalsOf events = io.refusalsOf events := by
  unfold Io.refusalsOf
  congr 1
  funext a
  exact refusals_congr (h a)

theorem answered {ev : Event} (hev : ev.Answered io') : ev.Answered io := by
  cases ev with
  | memio kind bits addr val err =>
    intro a ha
    obtain ⟨hfailed, hmasked⟩ := hev a ha
    rw [refusals_congr (h a)] at hfailed
    exact ⟨hfailed, fun hread i hi hrefused => hmasked hread i hi (by rw [h, hrefused])⟩
  | _ => exact True.intro

end Io.SameRules

namespace PortsGuarded

theorem of_same {s t : St} (h : SamePorts s t) : PortsGuarded s t := by
  refine ⟨[], h.2, ?_, fun ev hev => absurd hev List.not_mem_nil⟩
  rw [h.1]
  exact .refl s.io

/-- One event that is no port access. -/
theorem of_event {s t : St} (ev : Event) (hev : ev.portAccess = none) (hio : t.io = s.io)
    (hhist : t.hist = ev :: s.hist) : PortsGuarded s t := by
  refine ⟨[ev], hhist, ?_, fun ev' hmem => ?_⟩
  · rw [hio]
    simpa [Io.grantsOf, Io.refusalsOf, hev] using Io.Served.refl s.io
  · rw [List.mem_singleton.mp hmem]
    cases ev with
    | memio kind bits addr val err =>
      intro a ha
      rw [show kind.portAccess bits addr val = none from hev] at ha
      cases ha
    | _ => exact True.intro

theorem refl (s : St) : PortsGuarded s s := of_same ⟨rfl, rfl⟩

theorem trans {s t u : St} (h₁ : PortsGuarded s t) (h₂ : PortsGuarded t u) : PortsGuarded s u := by
  obtain ⟨new₁, hhist₁, hserved₁, hanswered₁⟩ := h₁
  obtain ⟨new₂, hhist₂, hserved₂, hanswered₂⟩ := h₂
  have hsame : s.io.SameRules t.io := fun a => hserved₁.allows_eq (permRwx_perm a)
  refine ⟨new₂ ++ new₁, by rw [hhist₂, hhist₁, List.append_assoc], ?_, ?_⟩
  · rw [grantsOf_append, refusalsOf_append, ← hsame.grantsOf new₂, ← hsame.refusalsOf new₂]
    exact hserved₁.trans hserved₂
  · intro ev hev
    rcases List.mem_append.mp hev with hev | hev
    · exact hsame.answered (hanswered₂ ev hev)
    · exact hanswered₁ ev hev

end PortsGuarded

/-! ## The host -/

/-- A host that uses `vm_memio` and whose own functions leave the ports of the emulator alone. -/
structure Host.PortsApart (inp : PortInput) (h : Host) : Prop where
  memio : h.memio = vmMemio inp
  codeCheck : ∀ f, h.codeCheck = some f → ∀ s, SamePorts s (f s).2
  intr : ∀ f, h.intr = some f → ∀ s nr type, SamePorts s (f s nr type).2
  cpuid : ∀ f, h.cpuid = some f → ∀ s, SamePorts s (f s)
  rdmsr : ∀ f, h.rdmsr = some f → ∀ s, SamePorts s (f s)
  wrmsr : ∀ f, h.wrmsr = some f → ∀ s, SamePorts s (f s)
  flush : ∀ f, h.flush = some f → ∀ s t, SamePorts s (f s t)

theorem defaultHost_portsApart (inp : PortInput) : (defaultHost inp).PortsApart inp where
  memio := rfl
  codeCheck f hf := by cases hf
  intr f hf := by cases hf
  cpuid f hf := by cases hf
  rdmsr f hf s := by
    cases hf
    exact ⟨rfl, rfl⟩
  wrmsr f hf s := by
    cases hf
    exact ⟨rfl, rfl⟩
  flush f hf := by cases hf

/-! ## Steps -/

section Steps

variable {inp : PortInput} {h : Host} (hh : h.PortsApart inp)

include hh

theorem callMemio_guarded (kind : MemioKind) (bits : MemioBits) (addr val : U32) (s : St) :
    PortsGuarded s (callMemio kind bits addr val h s).2 := by
  obtain ⟨mem, io, hframe⟩ := vmMemio_frame inp s kind bits addr val
  have hhist : (vmMemio inp s kind bits addr val).2.hist = s.hist := by rw [hframe]
  unfold callMemio
  rw [hh.memio]
  cases ha : kind.portAccess bits addr (vmMemio inp s kind bits addr val).1.1 with
  | none =>
    exact .of_event (.memio kind bits addr _ (vmMemio inp s kind bits addr val).1.2) ha
      (vmMemio_io inp s ha) (congrArg (List.cons _) hhist)
  | some a =>
    have hserved := vmMemio_served inp s ha
    refine ⟨[.memio kind bits addr (vmMemio inp s kind bits addr val).1.1
      (vmMemio inp s kind bits addr val).1.2], congrArg (List.cons _) hhist, ?_, ?_⟩
    · simpa [Io.grantsOf, Io.refusalsOf, Event.portAccess, ha] using hserved.served
    · intro ev hev
      rw [List.mem_singleton.mp hev]
      intro a' ha'
      obtain rfl : a = a' := Option.some.inj (ha.symm.trans ha')
      refine ⟨?_, hserved.masked⟩
      rw [vmMemio_invalid, hserved.invalid]
      simp

/-- The log writers leave the ports alone. -/
theorem logBlind_guarded : LogBlind h PortsGuarded where
  refl := PortsGuarded.refl
  trans := PortsGuarded.trans
  log _ _ := .of_same ⟨rfl, rfl⟩
  flush hf s t := .of_same (hh.flush _ hf s t)

theorem prim_guarded {α : Type} {x : Trans Host St α} (hx : EmuPrim x) (s : St) :
    PortsGuarded s (x h s).2 := by
  cases hx with
  | getCpu | hasCpuid | tracing _ => exact .refl s
  | putCpu _ | flags _ | disasm _ | division _ | rdtsc => exact .of_same ⟨rfl, rfl⟩
  | capture bytes =>
    refine .of_same ?_
    show SamePorts s (captureBytes bytes s)
    unfold captureBytes
    split <;> exact ⟨rfl, rfl⟩
  | memio kind width addr val => exact callMemio_guarded hh kind _ addr val s
  | fetchStop addr => exact .of_event (.fetchError addr) rfl rfl rfl
  | log thr guard text _ => exact (logBlind_guarded hh).line thr guard text s
  | raise nr type err =>
    show PortsGuarded s (x86emuIntrRaise nr type err s)
    unfold x86emuIntrRaise
    dsimp only
    split <;> exact .of_event (.raise nr type err) rfl rfl rfl
  | cpuid => exact callHandler_keeps .refl (fun hf s => .of_same (hh.cpuid _ hf s)) s
  | rdmsr => exact callHandler_keeps .refl (fun hf s => .of_same (hh.rdmsr _ hf s)) s
  | wrmsr => exact callHandler_keeps .refl (fun hf s => .of_same (hh.wrmsr _ hf s)) s
  | debugRecord start ofs =>
    refine .of_same ?_
    show SamePorts s (setDebugRecord start ofs s)
    unfold setDebugRecord
    split <;> exact ⟨rfl, rfl⟩

theorem emu_guarded {α : Type} (x : Emu α) (s : St) : PortsGuarded s (x.run h s).2 :=
  x.invariant PortsGuarded.refl PortsGuarded.trans (prim_guarded hh) s

theorem delivery_guarded {s t : St} (hst : Delivery h s t) : PortsGuarded s t := by
  cases hst with
  | deliver nr type => exact .of_event (.deliver nr type) rfl rfl rfl
  | intr hf nr type => exact .of_same (hh.intr _ hf s nr type)
  | frame nr type err => exact emu_guarded hh (deliverInt nr type err) s
  | done => exact .of_same ⟨rfl, rfl⟩

theorem idle_guarded : IdleRule h PortsGuarded where
  toLogBlind := logBlind_guarded hh
  peek addr s := callMemio_guarded hh _ _ addr _ s
  clock _ _ := .of_same ⟨rfl, rfl⟩
  msr _ _ _ := .of_same ⟨rfl, rfl⟩
  trace _ _ := .of_same ⟨rfl, rfl⟩
  debugDone _ := .of_same ⟨rfl, rfl⟩
  reset _ := .of_same ⟨rfl, rfl⟩

/-- All that the run loop does. -/
theorem loop_guarded : LoopRule h PortsGuarded where
  toLogBlind := logBlind_guarded hh
  cpu _ _ := .of_same ⟨rfl, rfl⟩
  buffers _ _ _ := .of_same ⟨rfl, rfl⟩
  clock _ _ := .of_same ⟨rfl, rfl⟩
  fetch s := emu_guarded hh fetchByte s
  peek addr s := callMemio_guarded hh _ _ addr _ s
  codeCheck hf s := .of_same (hh.codeCheck _ hf s)
  msr _ _ _ := .of_same ⟨rfl, rfl⟩
  debug := (idle_guarded hh).processDebug
  delivery hst := delivery_guarded hh hst
  exec op1 s := by
    have hstart : PortsGuarded s { s with hist := .instr op1 :: s.hist } :=
      .of_event (.instr op1) rfl rfl rfl
    exact hstart.trans (emu_guarded hh (handlerAt x86emuOptab op1 op1) _)
  tick _ := .of_same ⟨rfl, rfl⟩

end Steps

theorem run_guarded {inp : PortInput} {h : Host} (hh : h.PortsApart inp) (flags : U32)
    (fuel : Nat) (s : St) : PortsGuarded (s.withIopl h) (x86emuRun h flags fuel s).2 := by
  have hbegin : PortsGuarded (s.withIopl h) (beginRun h flags fuel s).2 := .of_same ⟨rfl, rfl⟩
  exact hbegin.trans ((loop_guarded hh).x86emuRun flags fuel s)

/-- Over any run of any guest program the host's ports see what the permissions grant of the
accesses made, in this order; these are counted and marked, the refused ports are marked, and the
refused accesses fail. -/
theorem x86emuRun_ports {inp : PortInput} {h : Host} (hh : h.PortsApart inp) (flags : U32)
    (fuel : Nat) (s : St) :
    ∃ new, (x86emuRun h flags fuel s).2.hist = new ++ s.hist ∧
      (s.withIopl h).io.Served (x86emuRun h flags fuel s).2.io ((s.withIopl h).io.grantsOf new)
        ((s.withIopl h).io.refusalsOf new) ∧
      ∀ ev ∈ new, ev.Answered (s.withIopl h).io :=
  run_guarded hh flags fuel s

/-- A run over a memory of `OUT DX,AL`, with the permission to write ports. -/
theorem x86emuRun_ports_outs :
    let s : St := setIoPermAll (defaultHost fun _ _ _ => 0) 2
      (x86emuReset { mem := fullMem fun _ => 0xee, maxInstr := 3 })
    PortsGuarded (s.withIopl (defaultHost fun _ _ _ => 0))
      (x86emuRun (defaultHost fun _ _ _ => 0) runMaxInstr 10 s).2 :=
  x86emuRun_ports (defaultHost_portsApart _) runMaxInstr 10
    (setIoPermAll (defaultHost fun _ _ _ => 0) 2
      (x86emuReset { mem := fullMem fun _ => 0xee, maxInstr := 3 }))

end X86Emu
