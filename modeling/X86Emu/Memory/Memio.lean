import X86Emu.Memory.Paged

/-!
# Ports and the default memory handler

The port functions of `mem.c` and `vm_memio`, the handler `x86emu_new` installs for memory
and port accesses. The values `inb`, `inw` and `inl` return are taken from a function `inp`
of the port accesses made so far.
-/

namespace X86Emu

/-- The values the host's ports return, given the port accesses made before. -/
abbrev PortInput : Type := List PortEvent → U16 → MemioBits → U32

/-- `*perm |= a` for the port's entry of `io.map` -/
def Io.mark (io : Io) (port : U16) (a : U8) : Io :=
  { io with map := Function.update io.map port (io.map port ||| a) }

def Io.countI (io : Io) (port : U16) : Io :=
  { io with statsI := Function.update io.statsI port (io.statsI port + 1) }

def Io.countO (io : Io) (port : U16) : Io :=
  { io with statsO := Function.update io.statsO port (io.statsO port + 1) }

def Io.log (io : Io) (e : PortEvent) : Io := { io with events := e :: io.events }

def St.setInvalid (s : St) : St := { s with mem := s.mem.setInvalid }

section Ports

variable (inp : PortInput)

def vmIByte (s : St) (addr : U32) : U8 × St :=
  let port : U16 := addr.setWidth 16
  if s.io.ioplOk ∧ (s.io.map port).has permR then
    ((inp s.io.events port .b8).setWidth 8,
      { s with io := ((s.io.mark port accRead).countI port).log (.inp port .b8) })
  else
    (0xff, { s with io := s.io.mark port accInvalid }.setInvalid)

def vmIWord (s : St) (addr : U32) : U16 × St :=
  let port : U16 := addr.setWidth 16
  if !s.io.ioplOk ∨ port = 0xffff ∨ !(s.io.map port).has permR ∨
      !(s.io.map (port + 1)).has permR then
    let (v0, s) := vmIByte inp s (port.setWidth 32)
    let (v1, s) := vmIByte inp s (port.setWidth 32 + 1)
    (v1 ++ v0, s)
  else
    let io := (s.io.mark port accRead).mark (port + 1) accRead
    let io := (io.countI port).countI (port + 1)
    ((inp s.io.events port .b16).setWidth 16, { s with io := io.log (.inp port .b16) })

def vmIDword (s : St) (addr : U32) : U32 × St :=
  let port : U16 := addr.setWidth 16
  if !s.io.ioplOk ∨ port ≥ 0xfffd ∨ !(s.io.map port).has permR ∨
      !(s.io.map (port + 1)).has permR ∨ !(s.io.map (port + 2)).has permR ∨
      !(s.io.map (port + 3)).has permR then
    let (v0, s) := vmIByte inp s (port.setWidth 32)
    let (v1, s) := vmIByte inp s (port.setWidth 32 + 1)
    let (v2, s) := vmIByte inp s (port.setWidth 32 + 2)
    let (v3, s) := vmIByte inp s (port.setWidth 32 + 3)
    ((v3 ++ v2) ++ (v1 ++ v0), s)
  else
    let io := (s.io.mark port accRead).mark (port + 1) accRead
    let io := (io.mark (port + 2) accRead).mark (port + 3) accRead
    let io := (io.countI port).countI (port + 1)
    let io := (io.countI (port + 2)).countI (port + 3)
    (inp s.io.events port .b32, { s with io := io.log (.inp port .b32) })

end Ports

def vmOByte (s : St) (addr val : U32) : St :=
  let port : U16 := addr.setWidth 16
  if s.io.ioplOk ∧ (s.io.map port).has permW then
    { s with
      io := ((s.io.mark port accWrite).countO port).log (.out port .b8 (val &&& 0xff)) }
  else
    { s with io := s.io.mark port accInvalid }.setInvalid

def vmOWord (s : St) (addr val : U32) : St :=
  let port : U16 := addr.setWidth 16
  if !s.io.ioplOk ∨ port = 0xffff ∨ !(s.io.map port).has permW ∨
      !(s.io.map (port + 1)).has permW then
    -- both bytes are passed the unshifted value
    let s := vmOByte s (port.setWidth 32) val
    vmOByte s (port.setWidth 32 + 1) val
  else
    let io := (s.io.mark port accWrite).mark (port + 1) accWrite
    let io := (io.countO port).countO (port + 1)
    { s with io := io.log (.out port .b16 (val &&& 0xffff)) }

def vmODword (s : St) (addr val : U32) : St :=
  let port : U16 := addr.setWidth 16
  if !s.io.ioplOk ∨ port ≥ 0xfffd ∨ !(s.io.map port).has permW ∨
      !(s.io.map (port + 1)).has permW ∨ !(s.io.map (port + 2)).has permW ∨
      !(s.io.map (port + 3)).has permW then
    let s := vmOByte s (port.setWidth 32) val
    let s := vmOByte s (port.setWidth 32 + 1) val
    let s := vmOByte s (port.setWidth 32 + 2) val
    vmOByte s (port.setWidth 32 + 3) val
  else
    let io := (s.io.mark port accWrite).mark (port + 1) accWrite
    let io := (io.mark (port + 2) accWrite).mark (port + 3) accWrite
    let io := (io.countO port).countO (port + 1)
    let io := (io.countO (port + 2)).countO (port + 3)
    { s with io := io.log (.out port .b32 val) }

/-! ## The handler -/

/-- The memory cases of `vm_memio`: the value left in `*val` and the memory. -/
def vmMemAccess (mem : Mem) (kind : MemioKind) (bits : MemioBits) (addr val : U32) :
    U32 × Mem :=
  match kind, bits with
  | .r, .b8 => let (v, mem) := vmRByte mem addr; (v.setWidth 32, mem)
  | .r, .b16 => let (v, mem) := vmRWord mem addr; (v.setWidth 32, mem)
  | .r, .b32 => vmRDword mem addr
  | .r, .b8noperm => let (v, mem) := vmRByteNoperm mem addr; (v.setWidth 32, mem)
  | .w, .b8 => (val, vmWByte mem addr (val.setWidth 8))
  | .w, .b16 => (val, vmWWord mem addr (val.setWidth 16))
  | .w, .b32 => (val, vmWDword mem addr val)
  | .w, .b8noperm => (val, vmWByteNoperm mem addr (val.setWidth 8))
  | .x, .b8 => let (v, mem) := vmXByte mem addr; (v.setWidth 32, mem)
  | .x, .b16 => let (v, mem) := vmXWord mem addr; (v.setWidth 32, mem)
  | .x, .b32 => vmXDword mem addr
  | _, _ => (val, mem)

/-- The port cases of `vm_memio`. -/
def vmPortAccess (inp : PortInput) (s : St) (kind : MemioKind) (bits : MemioBits)
    (addr val : U32) : U32 × St :=
  match kind, bits with
  | .i, .b8 => let (v, s) := vmIByte inp s addr; (v.setWidth 32, s)
  | .i, .b16 => let (v, s) := vmIWord inp s addr; (v.setWidth 32, s)
  | .i, .b32 => vmIDword inp s addr
  | .o, .b8 => (val, vmOByte s addr val)
  | .o, .b16 => (val, vmOWord s addr val)
  | .o, .b32 => (val, vmODword s addr val)
  | _, _ => (val, s)

def vmMemio (inp : PortInput) (s : St) (kind : MemioKind) (bits : MemioBits)
    (addr val : U32) : (U32 × Bool) × St :=
  let mem := { s.mem with invalid := false }
  match kind with
  | .r | .w | .x =>
    let (v, mem) := vmMemAccess mem kind bits addr val
    ((v, mem.invalid), { s with mem := mem })
  | .i | .o =>
    let (v, s) := vmPortAccess inp { s with mem := mem } kind bits addr val
    ((v, s.mem.invalid), s)

/-! ## Ports and memory -/

/-- Only the ports and the invalid flag have changed. -/
def PortStep (s t : St) : Prop :=
  ∃ b io, t = { s with mem := { s.mem with invalid := b }, io := io }

theorem PortStep.refl (s : St) : PortStep s s := ⟨s.mem.invalid, s.io, rfl⟩

theorem PortStep.io (s : St) (io : Io) : PortStep s { s with io := io } :=
  ⟨s.mem.invalid, io, rfl⟩

theorem PortStep.invalid (s : St) (io : Io) : PortStep s { s with io := io }.setInvalid :=
  ⟨true, io, rfl⟩

theorem PortStep.trans {s t u : St} (h₁ : PortStep s t) (h₂ : PortStep t u) : PortStep s u := by
  obtain ⟨b, io, rfl⟩ := h₁
  obtain ⟨c, io', rfl⟩ := h₂
  exact ⟨c, io', rfl⟩

theorem vmIByte_step (inp : PortInput) (s : St) (addr : U32) :
    PortStep s (vmIByte inp s addr).2 := by
  unfold vmIByte
  dsimp only
  split
  · exact PortStep.io s _
  · exact PortStep.invalid s _

theorem vmIWord_step (inp : PortInput) (s : St) (addr : U32) :
    PortStep s (vmIWord inp s addr).2 := by
  have hbyte := vmIByte_step inp
  unfold vmIWord
  dsimp only
  split
  · exact (hbyte s _).trans (hbyte _ _)
  · exact PortStep.io s _

theorem vmIDword_step (inp : PortInput) (s : St) (addr : U32) :
    PortStep s (vmIDword inp s addr).2 := by
  have hbyte := vmIByte_step inp
  unfold vmIDword
  dsimp only
  split
  · exact (((hbyte s _).trans (hbyte _ _)).trans (hbyte _ _)).trans (hbyte _ _)
  · exact PortStep.io s _

theorem vmOByte_step (s : St) (addr val : U32) : PortStep s (vmOByte s addr val) := by
  unfold vmOByte
  dsimp only
  split
  · exact PortStep.io s _
  · exact PortStep.invalid s _

theorem vmOWord_step (s : St) (addr val : U32) : PortStep s (vmOWord s addr val) := by
  have hbyte := vmOByte_step
  unfold vmOWord
  dsimp only
  split
  · exact (hbyte s _ _).trans (hbyte _ _ _)
  · exact PortStep.io s _

theorem vmODword_step (s : St) (addr val : U32) : PortStep s (vmODword s addr val) := by
  have hbyte := vmOByte_step
  unfold vmODword
  dsimp only
  split
  · exact (((hbyte s _ _).trans (hbyte _ _ _)).trans (hbyte _ _ _)).trans (hbyte _ _ _)
  · exact PortStep.io s _

/-- A port access leaves everything but the ports and the invalid flag. -/
theorem vmPortAccess_step (inp : PortInput) (s : St) (kind : MemioKind) (bits : MemioBits)
    (addr val : U32) : PortStep s (vmPortAccess inp s kind bits addr val).2 := by
  unfold vmPortAccess
  split
  · exact vmIByte_step inp s addr
  · exact vmIWord_step inp s addr
  · exact vmIDword_step inp s addr
  · exact vmOByte_step s addr val
  · exact vmOWord_step s addr val
  · exact vmODword_step s addr val
  · exact PortStep.refl s

/-- `vm_memio` changes the memory and the ports only. -/
theorem vmMemio_frame (inp : PortInput) (s : St) (kind : MemioKind) (bits : MemioBits)
    (addr val : U32) :
    ∃ mem io, (vmMemio inp s kind bits addr val).2 = { s with mem := mem, io := io } := by
  have hport := vmPortAccess_step inp { s with mem := { s.mem with invalid := false } } kind bits
    addr val
  unfold vmMemio
  cases kind with
  | r => exact ⟨_, s.io, rfl⟩
  | w => exact ⟨_, s.io, rfl⟩
  | x => exact ⟨_, s.io, rfl⟩
  | i =>
    obtain ⟨b, io, hstep⟩ := hport
    exact ⟨_, io, hstep⟩
  | o =>
    obtain ⟨b, io, hstep⟩ := hport
    exact ⟨_, io, hstep⟩

/-- The memory is the same, but for the invalid flag. -/
def Mem.SameCells (mem mem' : Mem) : Prop := ∃ b, mem' = { mem with invalid := b }

theorem Mem.SameCells.refl (mem : Mem) : mem.SameCells mem := ⟨mem.invalid, rfl⟩

theorem vmPortAccess_mem (inp : PortInput) (s : St) (kind : MemioKind) (bits : MemioBits)
    (addr val : U32) : s.mem.SameCells (vmPortAccess inp s kind bits addr val).2.mem := by
  obtain ⟨b, io, hstep⟩ := vmPortAccess_step inp s kind bits addr val
  rw [hstep]
  exact ⟨b, rfl⟩

end X86Emu
