import X86Emu.Memory.Memio
import X86Emu.Run.Api
import X86Emu.Run.Steps

/-!
# What instructions see

Instructions see neither the log buffer nor the texts, the captured bytes and the history, unless
the host's handlers show them. `St.view` drops these, and `seen` is the run of a program up to them:
it only depends on the view of the state it starts in, and it follows the text of the program like
the run itself, with the log writers left out.
-/

namespace X86Emu

open Lib

/-- The state without the log buffer, the texts, the captured bytes and the history; the divisions
are kept. -/
def St.view (s : St) : St :=
  { s with instrBuf := [], disasm := [], hist := [], log := { s.log with buf := none } }

/-- A host whose handlers do not look at what the view drops, with the default memory handler. -/
structure Host.Blind (inp : PortInput) (h : Host) : Prop where
  memio : h.memio = vmMemio inp
  cpuid : ∀ {f}, h.cpuid = some f → ∀ s, (f s.view).view = (f s).view
  rdmsr : ∀ {f}, h.rdmsr = some f → ∀ s, (f s.view).view = (f s).view
  wrmsr : ∀ {f}, h.wrmsr = some f → ∀ s, (f s.view).view = (f s).view
  flush : ∀ {f}, h.flush = some f → ∀ s t, (f s t).view = s.view

theorem Host.Default.blind {inp : PortInput} {h : Host} (hh : h.Default inp) : h.Blind inp where
  memio := hh.memio
  cpuid hf := by
    rw [hh.cpuid] at hf
    cases hf
  rdmsr hf := by
    rw [hh.rdmsr] at hf
    cases hf
    exact fun _ => rfl
  wrmsr hf := by
    rw [hh.wrmsr] at hf
    cases hf
    exact fun _ => rfl
  flush hf := by
    rw [hh.flush] at hf
    cases hf

/-! ## The memory handler -/

theorem vmIByte_view (inp : PortInput) (s : St) (addr : U32) :
    vmIByte inp s.view addr = ((vmIByte inp s addr).1, (vmIByte inp s addr).2.view) := by
  unfold vmIByte
  dsimp only
  rw [show s.view.io = s.io from rfl]
  split <;> rfl

theorem vmIWord_view (inp : PortInput) (s : St) (addr : U32) :
    vmIWord inp s.view addr = ((vmIWord inp s addr).1, (vmIWord inp s addr).2.view) := by
  unfold vmIWord
  dsimp only
  rw [show s.view.io = s.io from rfl]
  split
  · simp only [vmIByte_view]
  · rfl

theorem vmIDword_view (inp : PortInput) (s : St) (addr : U32) :
    vmIDword inp s.view addr = ((vmIDword inp s addr).1, (vmIDword inp s addr).2.view) := by
  unfold vmIDword
  dsimp only
  rw [show s.view.io = s.io from rfl]
  split
  · simp only [vmIByte_view]
  · rfl

theorem vmOByte_view (s : St) (addr val : U32) :
    vmOByte s.view addr val = (vmOByte s addr val).view := by
  unfold vmOByte
  dsimp only
  rw [show s.view.io = s.io from rfl]
  split <;> rfl

theorem vmOWord_view (s : St) (addr val : U32) :
    vmOWord s.view addr val = (vmOWord s addr val).view := by
  unfold vmOWord
  dsimp only
  rw [show s.view.io = s.io from rfl]
  split
  · simp only [vmOByte_view]
  · rfl

theorem vmODword_view (s : St) (addr val : U32) :
    vmODword s.view addr val = (vmODword s addr val).view := by
  unfold vmODword
  dsimp only
  rw [show s.view.io = s.io from rfl]
  split
  · simp only [vmOByte_view]
  · rfl

/-- The memory handler only looks at the memory and the ports. -/
theorem vmMemio_view (inp : PortInput) (s : St) (kind : MemioKind) (bits : MemioBits)
    (addr val : U32) :
    vmMemio inp s.view kind bits addr val =
      ((vmMemio inp s kind bits addr val).1, (vmMemio inp s kind bits addr val).2.view) := by
  have hport : ∀ s, vmPortAccess inp s.view kind bits addr val =
      ((vmPortAccess inp s kind bits addr val).1,
        (vmPortAccess inp s kind bits addr val).2.view) := by
    intro s
    unfold vmPortAccess
    split
    · simp only [vmIByte_view]
    · simp only [vmIWord_view]
    · exact vmIDword_view inp s addr
    · simp only [vmOByte_view]
    · simp only [vmOWord_view]
    · simp only [vmODword_view]
    · rfl
  have hclear : ∀ s : St, { s.view with mem := { s.view.mem with invalid := false } } =
      { s with mem := { s.mem with invalid := false } }.view := fun _ => rfl
  cases kind with
  | r | w | x => rfl
  | i | o =>
    unfold vmMemio
    dsimp only
    rw [hclear, hport]
    rfl

/-! ## Programs -/

theorem view_intrRaise (nr : U8) (type err : U32) (s : St) :
    (x86emuIntrRaise nr type err s.view).view = (x86emuIntrRaise nr type err s).view := by
  unfold x86emuIntrRaise
  dsimp only
  rw [show s.view.intr = s.intr from rfl]
  split <;> rfl

theorem view_callHandler {f : Option (St → St)}
    (hf : ∀ {g}, f = some g → ∀ s, (g s.view).view = (g s).view) (s : St) :
    (callHandler f s.view).1 = (callHandler f s).1 ∧
      (callHandler f s.view).2.view = (callHandler f s).2.view := by
  unfold callHandler
  cases f with
  | none => exact ⟨rfl, rfl⟩
  | some g => exact ⟨rfl, hf rfl s⟩

theorem view_capture (bytes : List U8) (s : St) : (captureBytes bytes s).view = s.view := by
  unfold captureBytes
  split <;> rfl

theorem view_debugRecord (start : U32) (ofs : U8) (s : St) :
    (setDebugRecord start ofs s.view).view = (setDebugRecord start ofs s).view := by
  unfold setDebugRecord
  split <;> rfl

section

variable {inp : PortInput} {h : Host} (hh : h.Blind inp)

include hh

theorem view_callMemio (kind : MemioKind) (bits : MemioBits) (addr val : U32) (s : St) :
    (callMemio kind bits addr val h s.view).1 = (callMemio kind bits addr val h s).1 ∧
      (callMemio kind bits addr val h s.view).2.view =
        (callMemio kind bits addr val h s).2.view := by
  unfold callMemio
  rw [hh.memio, vmMemio_view]
  exact ⟨rfl, rfl⟩

/-- The log writers only write what the view drops. -/
theorem Host.Blind.logBlind : LogBlind h fun s t => t.view = s.view where
  refl _ := rfl
  trans h₁ h₂ := h₂.trans h₁
  log _ _ := rfl
  flush hf := hh.flush hf

/-- No primitive operation looks at what the view drops. -/
theorem prim_view {β : Type} {x : Trans Host St β} (hx : EmuPrim x) (s : St) :
    (x h s.view).1 = (x h s).1 ∧ (x h s.view).2.view = (x h s).2.view := by
  cases hx with
  | capture bytes => exact ⟨rfl, (view_capture bytes s.view).trans (view_capture bytes s).symm⟩
  | memio kind width addr val => exact view_callMemio hh kind width.bits addr val s
  | log thr guard text _ =>
    have hline := (hh.logBlind).line thr guard text
    exact ⟨rfl, (hline s.view).trans (hline s).symm⟩
  | raise nr type err => exact ⟨rfl, view_intrRaise nr type err s⟩
  | cpuid => exact view_callHandler hh.cpuid s
  | rdmsr => exact view_callHandler hh.rdmsr s
  | wrmsr => exact view_callHandler hh.wrmsr s
  | debugRecord start ofs => exact ⟨rfl, view_debugRecord start ofs s⟩
  | _ => exact ⟨rfl, rfl⟩

/-- Neither does a program. -/
theorem run_view {α : Type} (x : Emu α) (s : St) :
    (x.run h s.view).1 = (x.run h s).1 ∧ (x.run h s.view).2.view = (x.run h s).2.view := by
  refine x.related (R := fun s t => s.view = t.view) (s := s.view) (t := s) ?_ rfl
  intro β y hy s t hst
  obtain ⟨hs, hs'⟩ := prim_view hh hy s
  obtain ⟨ht, ht'⟩ := prim_view hh hy t
  rw [hst] at hs hs'
  exact ⟨hs.symm.trans ht, hs'.symm.trans ht'⟩

end

/-! ## Runs up to the view -/

/-- The run of a program up to what the view drops. -/
def seen {α : Type} (h : Host) (x : Emu α) (s : St) : α × St :=
  ((x.run h s).1, (x.run h s).2.view)

section

variable {α β : Type} {inp : PortInput} {h : Host}

@[simp] theorem view_view (s : St) : s.view.view = s.view := rfl

@[simp] theorem view_cpu (s : St) : s.view.cpu = s.cpu := rfl

@[simp] theorem view_mem (s : St) : s.view.mem = s.mem := rfl

theorem same_of_view {s t : St} (hview : t.view = s.view) : t.cpu = s.cpu ∧ t.mem = s.mem := by
  have hcpu := congrArg St.cpu hview
  have hmem := congrArg St.mem hview
  exact ⟨hcpu, hmem⟩

theorem seen_view (hh : h.Blind inp) (x : Emu α) (s : St) : seen h x s.view = seen h x s := by
  obtain ⟨hres, hst⟩ := run_view hh x s
  unfold seen
  rw [hres, hst]

theorem seen_bind (hh : h.Blind inp) (x : Emu α) (f : α → Emu β) (s : St) :
    seen h (x >>= f) s = seen h (f (seen h x s).1) (seen h x s).2 :=
  (seen_view hh (f (x.run h s).1) (x.run h s).2).symm

end

end X86Emu
