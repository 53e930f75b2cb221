import X86Emu.Memory.Ports

/-!
# What the host's ports see

The port functions of `mem.c` look at the permissions of a port before the host's port is accessed.
What reaches the host is said by the permissions alone, `Io.grants`, and so is what is refused;
counters and access marks follow from the two, `Io.Served`.
-/

namespace X86Emu

/-! ## Accesses -/

/-- The ports of an access of `n` bytes, modulo 2^16. -/
def portsFrom (p : U16) (n : Nat) : List U16 := (List.range n).map (portAt p)

def MemioBits.count : MemioBits → Nat
  | .b8 | .b8noperm => 1
  | .b16 => 2
  | .b32 => 4

def PortEvent.readPorts : PortEvent → List U16
  | .inp port bits => portsFrom port bits.count
  | .out .. => []

def PortEvent.writePorts : PortEvent → List U16
  | .inp .. => []
  | .out port bits _ => portsFrom port bits.count

/-- A port access of the guest: its direction, the first port, its width, and the value it sends. -/
structure PortAccess where
  write : Bool
  port : U16
  width : MemioWidth
  val : U32

namespace PortAccess

variable (a : PortAccess)

def ports : List U16 := portsFrom a.port a.width.count

def perm : U8 := if a.write then permW else permR

/-- The access of the host's port `q` for it; a value is cut to its width. -/
def host (q : U16) (width : MemioWidth) : PortEvent :=
  if a.write then
    .out q width.bits (match width with
      | .b8 => a.val &&& 0xff
      | .b16 => a.val &&& 0xffff
      | .b32 => a.val)
  else .inp q width.bits

end PortAccess

/-- The access a call of the memory handler makes. -/
def MemioKind.portAccess (kind : MemioKind) (bits : MemioBits) (addr val : U32) :
    Option PortAccess :=
  match kind, bits with
  | .i, .b8 => some ⟨false, addr.setWidth 16, .b8, val⟩
  | .i, .b16 => some ⟨false, addr.setWidth 16, .b16, val⟩
  | .i, .b32 => some ⟨false, addr.setWidth 16, .b32, val⟩
  | .o, .b8 => some ⟨true, addr.setWidth 16, .b8, val⟩
  | .o, .b16 => some ⟨true, addr.setWidth 16, .b16, val⟩
  | .o, .b32 => some ⟨true, addr.setWidth 16, .b32, val⟩
  | _, _ => none

/-- The host sees one access when its ports lie in a row and none is refused, and else one of a byte
for each port that is not refused. -/
def Io.grants (io : Io) (a : PortAccess) : List PortEvent :=
  if a.port.toNat + a.width.count ≤ 2 ^ 16 ∧ ∀ q ∈ a.ports, io.allows a.perm q = true then
    [a.host a.port a.width]
  else (a.ports.filter (io.allows a.perm)).map fun q => a.host q .b8

def Io.refusals (io : Io) (a : PortAccess) : List U16 :=
  a.ports.filter fun q => !io.allows a.perm q

/-! ## Lists of ports -/

theorem mem_portsFrom {p : U16} {n : Nat} {q : U16} :
    q ∈ portsFrom p n ↔ ∃ i < n, portAt p i = q := by
  simp [portsFrom]

theorem within_iff (io : Io) (perm : U8) (p : U16) (n : Nat) :
    (p.toNat + n ≤ 2 ^ 16 ∧ ∀ q ∈ portsFrom p n, io.allows perm q = true) ↔
      io.Within perm p n := by
  simp only [mem_portsFrom, forall_exists_index, and_imp, forall_apply_eq_imp_iff₂]
  rfl

theorem portsFrom_one (p : U16) : portsFrom p 1 = [p] := by simp [portsFrom, portAt]

theorem portsFrom_two (p : U16) : portsFrom p 2 = [p, p + 1] := by
  simp [portsFrom, portAt, List.range_succ]

theorem portsFrom_four (p : U16) : portsFrom p 4 = [p, p + 1, p + 2, p + 3] := by
  simp [portsFrom, portAt, List.range_succ]

/-! ## Bookkeeping -/

/-- The marks of a port that was read, written or refused. -/
def portMarks (q : U16) (read written refused : List U16) : U8 :=
  (if q ∈ read then accRead else 0) ||| (if q ∈ written then accWrite else 0) |||
    (if q ∈ refused then accInvalid else 0)

/-- From `io` to `io'` the host has seen the accesses `granted`, which are counted and marked, and
the ports `refused` are marked. -/
structure Io.Served (io io' : Io) (granted : List PortEvent) (refused : List U16) : Prop where
  events : io'.events = granted.reverse ++ io.events
  map : ∀ q, io'.map q = io.map q ||| portMarks q (granted.flatMap PortEvent.readPorts)
    (granted.flatMap PortEvent.writePorts) refused
  statsI : ∀ q, io'.statsI q =
    io.statsI q + BitVec.ofNat 32 ((granted.flatMap PortEvent.readPorts).count q)
  statsO : ∀ q, io'.statsO q =
    io.statsO q + BitVec.ofNat 32 ((granted.flatMap PortEvent.writePorts).count q)
  iopl : io'.ioplOk = io.ioplOk
  needed : io'.ioplNeeded = io.ioplNeeded

theorem mark_or (p q : Prop) [Decidable p] [Decidable q] (a : U8) :
    (if p then a else 0) ||| (if q then a else 0) = if p ∨ q then a else 0 := by
  by_cases hp : p <;> by_cases hq : q <;> simp [hp, hq]

theorem portMarks_append (q : U16) (r r' w w' x x' : List U16) :
    portMarks q (r ++ r') (w ++ w') (x ++ x') = portMarks q r w x ||| portMarks q r' w' x' := by
  unfold portMarks
  simp only [List.mem_append, ← mark_or]
  ac_rfl

theorem portMarks_nil (q : U16) : portMarks q [] [] [] = 0 := by simp [portMarks]

namespace Io.Served

variable {io io' io'' : Io} {granted granted' : List PortEvent} {refused refused' : List U16}

theorem refl (io : Io) : io.Served io [] [] where
  events := rfl
  map q := by simp [portMarks_nil]
  statsI q := by simp
  statsO q := by simp
  iopl := rfl
  needed := rfl

theorem trans (h : io.Served io' granted refused) (h' : io'.Served io'' granted' refused') :
    io.Served io'' (granted ++ granted') (refused ++ refused') where
  events := by rw [h'.events, h.events, List.reverse_append, List.append_assoc]
  map q := by
    rw [h'.map, h.map, BitVec.or_assoc, ← portMarks_append, List.flatMap_append,
      List.flatMap_append]
  statsI q := by
    rw [h'.statsI, h.statsI, BitVec.add_assoc, ← BitVec.ofNat_add, List.flatMap_append,
      List.count_append]
  statsO q := by
    rw [h'.statsO, h.statsO, BitVec.add_assoc, ← BitVec.ofNat_add, List.flatMap_append,
      List.count_append]
  iopl := h'.iopl.trans h.iopl
  needed := h'.needed.trans h.needed

/-- The permissions are not among the marks. -/
theorem has_eq (h : io.Served io' granted refused) {perm : U8} (hperm : perm &&& permRwx = perm)
    (q : U16) : (io'.map q).has perm = (io.map q).has perm := by
  have hclear : ∀ c [Decidable c] (mark : U8), mark &&& permRwx = 0 →
      (if c then mark else 0) &&& perm = 0 := by
    intro c _ mark hmark
    rw [← hperm, BitVec.and_comm perm, ← BitVec.and_assoc]
    split <;> simp [hmark]
  have hmarks : portMarks q (granted.flatMap PortEvent.readPorts)
      (granted.flatMap PortEvent.writePorts) refused &&& perm = 0#8 := by
    unfold portMarks
    rw [BitVec.and_or_distrib_right, BitVec.and_or_distrib_right, hclear _ _ (by decide),
      hclear _ _ (by decide), hclear _ _ (by decide)]
    rfl
  unfold U8.has
  rw [h.map, BitVec.and_or_distrib_right, hmarks, BitVec.or_zero]

theorem allows_eq (h : io.Served io' granted refused) {perm : U8} (hperm : perm &&& permRwx = perm)
    (q : U16) : io'.allows perm q = io.allows perm q := by
  unfold Io.allows
  rw [h.has_eq hperm, h.iopl]

end Io.Served

/-! ## The host's accesses -/

/-- Marks on some ports. -/
def Io.markAll (io : Io) (ports : List U16) (a : U8) : Io :=
  ports.foldl (fun io p => io.mark p a) io

def Io.countAllI (io : Io) (ports : List U16) : Io := ports.foldl Io.countI io

def Io.countAllO (io : Io) (ports : List U16) : Io := ports.foldl Io.countO io

section Lists

variable (ports : List U16) (io : Io)

theorem markAll_eq (a : U8) : io.markAll ports a =
    { io with map := fun q => io.map q ||| if q ∈ ports then a else 0 } := by
  induction ports generalizing io with
  | nil => simp [Io.markAll]
  | cons p ports ih =>
    have hmap : (fun q => (io.mark p a).map q ||| if q ∈ ports then a else 0) =
        fun q => io.map q ||| if q ∈ p :: ports then a else 0 := by
      funext q
      rw [mark_map, BitVec.or_assoc]
      congr 1
      simpa [List.mem_cons] using mark_or (q = p) (q ∈ ports) a
    show (io.mark p a).markAll ports a = _
    rw [ih, hmap]
    rfl

theorem update_count (stats : U16 → U32) (p q : U16) :
    Function.update stats p (stats p + 1) q = stats q + BitVec.ofNat 32 ([p].count q) := by
  by_cases h : q = p
  · simp [h]
  · simp [h, Ne.symm h]

theorem count_next (n : U32) (p q : U16) :
    n + BitVec.ofNat 32 ([p].count q) + BitVec.ofNat 32 (ports.count q) =
      n + BitVec.ofNat 32 ((p :: ports).count q) := by
  rw [BitVec.add_assoc, ← BitVec.ofNat_add, ← List.count_append]
  rfl

theorem countAllI_eq : io.countAllI ports =
    { io with statsI := fun q => io.statsI q + BitVec.ofNat 32 (ports.count q) } := by
  induction ports generalizing io with
  | nil => simp [Io.countAllI]
  | cons p ports ih =>
    show (io.countI p).countAllI ports = _
    rw [ih]
    simp only [Io.countI, update_count, count_next]

theorem countAllO_eq : io.countAllO ports =
    { io with statsO := fun q => io.statsO q + BitVec.ofNat 32 (ports.count q) } := by
  induction ports generalizing io with
  | nil => simp [Io.countAllO]
  | cons p ports ih =>
    show (io.countO p).countAllO ports = _
    rw [ih]
    simp only [Io.countO, update_count, count_next]

end Lists

/-- The host's access is marked, counted and recorded. -/
def Io.record (io : Io) (ev : PortEvent) : Io :=
  let io := (io.markAll ev.readPorts accRead).countAllI ev.readPorts
  ((io.markAll ev.writePorts accWrite).countAllO ev.writePorts).log ev

theorem served_record (io : Io) (ev : PortEvent) : io.Served (io.record ev) [ev] [] := by
  unfold Io.record
  simp only [markAll_eq, countAllI_eq, countAllO_eq]
  exact {
    events := rfl
    map := by simp [Io.log, portMarks, BitVec.or_assoc]
    statsI := by simp [Io.log]
    statsO := by simp [Io.log]
    iopl := rfl
    needed := rfl }

theorem served_refused (io : Io) (p : U16) : io.Served (io.mark p accInvalid) [] [p] where
  events := rfl
  map q := by simp [mark_map, portMarks]
  statsI := by simp [Io.mark]
  statsO := by simp [Io.mark]
  iopl := rfl
  needed := rfl

/-! ## Bytes -/

/-- One byte of an access, with its own check. -/
def St.portByte (a : PortAccess) (q : U16) (s : St) : St :=
  if s.io.allows a.perm q = true then { s with io := s.io.record (a.host q .b8) }
  else { s with io := s.io.mark q accInvalid }.setInvalid

@[simp] theorem setInvalid_io (s : St) : s.setInvalid.io = s.io := rfl

theorem permRwx_perm (a : PortAccess) : a.perm &&& permRwx = a.perm := by
  unfold PortAccess.perm
  split <;> decide

/-- What the check of each byte leaves to the host. -/
structure BytesServed (a : PortAccess) (ports : List U16) (s t : St) : Prop where
  served : s.io.Served t.io ((ports.filter (s.io.allows a.perm)).map fun q => a.host q .b8)
    (ports.filter fun q => !s.io.allows a.perm q)
  invalid : t.mem.invalid = true ↔
    s.mem.invalid = true ∨ ∃ q ∈ ports, s.io.allows a.perm q = false

namespace BytesServed

variable {a : PortAccess} {ports : List U16} {s t : St}

theorem nil (a : PortAccess) (s : St) : BytesServed a [] s s where
  served := .refl s.io
  invalid := by simp

theorem snoc (h : BytesServed a ports s t) (q : U16) :
    BytesServed a (ports ++ [q]) s (t.portByte a q) := by
  have hq := h.served.allows_eq (permRwx_perm a) q
  unfold St.portByte
  rw [hq]
  cases hok : s.io.allows a.perm q with
  | true =>
    refine ⟨?_, ?_⟩
    · simpa [List.filter_append, hok] using h.served.trans (served_record t.io (a.host q .b8))
    · simpa [or_and_right, exists_or, hok] using h.invalid
  | false =>
    refine ⟨?_, ?_⟩
    · simpa [List.filter_append, hok] using h.served.trans (served_refused t.io q)
    · simp [St.setInvalid, Mem.setInvalid, or_and_right, exists_or, hok]

end BytesServed

section Bytes

variable (inp : PortInput) (s : St) (addr val : U32)

theorem vmIByte_state {a : PortAccess} (ha : a.write = false) :
    (vmIByte inp s addr).2 = s.portByte a (addr.setWidth 16) := by
  have hhost : a.host (addr.setWidth 16) .b8 = .inp (addr.setWidth 16) .b8 := by
    simp [PortAccess.host, ha, MemioWidth.bits]
  have hperm : a.perm = permR := by simp [PortAccess.perm, ha]
  unfold St.portByte vmIByte Io.allows
  rw [hhost, hperm]
  dsimp only
  simp only [Bool.and_eq_true]
  split
  · simp [Io.record, PortEvent.readPorts, PortEvent.writePorts, MemioBits.count, portsFrom_one,
      Io.markAll, Io.countAllI, Io.countAllO]
  · rfl

theorem vmIByte_masked (hrefused : s.io.allows permR (addr.setWidth 16) = false) :
    (vmIByte inp s addr).1 = 0xff := by
  unfold vmIByte
  dsimp only
  rw [if_neg]
  simpa [Io.allows] using hrefused

theorem vmOByte_state {a : PortAccess} (ha : a.write = true) (hval : a.val = val) :
    vmOByte s addr val = s.portByte a (addr.setWidth 16) := by
  have hhost : a.host (addr.setWidth 16) .b8 = .out (addr.setWidth 16) .b8 (val &&& 0xff) := by
    simp [PortAccess.host, ha, hval, MemioWidth.bits]
  have hperm : a.perm = permW := by simp [PortAccess.perm, ha]
  unfold St.portByte vmOByte Io.allows
  rw [hhost, hperm]
  dsimp only
  simp only [Bool.and_eq_true]
  split
  · simp [Io.record, PortEvent.readPorts, PortEvent.writePorts, MemioBits.count, portsFrom_one,
      Io.markAll, Io.countAllI, Io.countAllO]
  · rfl

end Bytes

/-! ## Whole accesses -/

/-- What `vm_memio` does for an access of ports: the host sees what is granted, a refused port is
marked and reported, and reads as 0xff. -/
structure PortServed (a : PortAccess) (s : St) (val : U32) (t : St) : Prop where
  served : s.io.Served t.io (s.io.grants a) (s.io.refusals a)
  invalid : t.mem.invalid = true ↔ s.mem.invalid = true ∨ s.io.refusals a ≠ []
  masked : a.write = false → ∀ i < a.width.count, s.io.allows a.perm (portAt a.port i) = false →
    byteOf val i = 0xff

theorem refusals_ne_nil {io : Io} {a : PortAccess} :
    io.refusals a ≠ [] ↔ ∃ q ∈ a.ports, io.allows a.perm q = false := by
  unfold Io.refusals
  rw [Ne, List.filter_eq_nil_iff]
  simp

/-- On the path for ports that are all allowed. -/
theorem portServed_whole {a : PortAccess} {s t : St} {val : U32}
    (hwithin : s.io.Within a.perm a.port a.width.count) (hmem : t.mem = s.mem)
    (hio : t.io = s.io.record (a.host a.port a.width)) : PortServed a s val t := by
  have hall := (within_iff s.io a.perm a.port a.width.count).mpr hwithin
  have hgrants : s.io.grants a = [a.host a.port a.width] := if_pos hall
  have hnone : s.io.refusals a = [] := by
    by_contra hsome
    obtain ⟨q, hq, hrefused⟩ := refusals_ne_nil.mp hsome
    rw [hall.2 q hq] at hrefused
    cases hrefused
  refine ⟨?_, ?_, ?_⟩
  · rw [hgrants, hnone, hio]
    exact served_record s.io _
  · simp [hmem, hnone]
  · intro _ i hi hrefused
    rw [hwithin.2 i hi] at hrefused
    cases hrefused

/-- On the path that checks each byte. -/
theorem portServed_bytes {a : PortAccess} {s t : St} {val : U32}
    (hnot : ¬s.io.Within a.perm a.port a.width.count) (hbytes : BytesServed a a.ports s t)
    (hmasked : a.write = false → ∀ i < a.width.count,
      s.io.allows a.perm (portAt a.port i) = false → byteOf val i = 0xff) :
    PortServed a s val t := by
  have hgrants : s.io.grants a = (a.ports.filter (s.io.allows a.perm)).map fun q => a.host q .b8 :=
    if_neg fun hall => hnot ((within_iff _ _ _ _).mp hall)
  refine ⟨?_, ?_, hmasked⟩
  · rw [hgrants]
    exact hbytes.served
  · rw [refusals_ne_nil]
    exact hbytes.invalid

/-- A byte is checked only once. -/
theorem portServed_byte {a : PortAccess} {s t : St} {val : U32} (hwidth : a.width = .b8)
    (hstate : t = s.portByte a a.port)
    (hmasked : a.write = false → s.io.allows a.perm a.port = false → byteOf val 0 = 0xff) :
    PortServed a s val t := by
  have hfirst : s.io.Within a.perm a.port a.width.count ↔ s.io.allows a.perm a.port = true := by
    rw [hwidth]
    refine ⟨fun hwithin => ?_, fun hok => ⟨a.port.isLt, fun i hi => ?_⟩⟩
    · have hzero := hwithin.2 0 (by decide)
      rwa [portAt_zero] at hzero
    · obtain rfl : i = 0 := Nat.lt_one_iff.mp hi
      rwa [portAt_zero]
  by_cases hok : s.io.allows a.perm a.port = true
  · have hrecord : t = { s with io := s.io.record (a.host a.port .b8) } := hstate.trans (if_pos hok)
    exact portServed_whole (hfirst.mpr hok) (by rw [hrecord]) (by rw [hrecord, hwidth])
  · refine portServed_bytes (fun hwithin => hok (hfirst.mp hwithin)) ?_ ?_
    · have hports : a.ports = [] ++ [a.port] := by
        rw [PortAccess.ports, hwidth]
        exact portsFrom_one a.port
      rw [hports, hstate]
      exact (BytesServed.nil a s).snoc a.port
    · intro hread i hi _
      obtain rfl : i = 0 := by
        rw [hwidth] at hi
        exact Nat.lt_one_iff.mp hi
      exact hmasked hread (by simpa using hok)

theorem record_inp (io : Io) (p : U16) (bits : MemioBits) : io.record (.inp p bits) =
    ((io.markAll (portsFrom p bits.count) accRead).countAllI (portsFrom p bits.count)).log
      (.inp p bits) := rfl

theorem record_out (io : Io) (p : U16) (bits : MemioBits) (val : U32) :
    io.record (.out p bits val) =
      ((io.markAll (portsFrom p bits.count) accWrite).countAllO (portsFrom p bits.count)).log
        (.out p bits val) := rfl

section Functions

variable (inp : PortInput) (s : St) (addr val : U32)

theorem vmIByte_served :
    PortServed ⟨false, addr.setWidth 16, .b8, val⟩ s ((vmIByte inp s addr).1.setWidth 32)
      (vmIByte inp s addr).2 := by
  refine portServed_byte rfl (vmIByte_state inp s addr rfl) ?_
  intro _ hrefused
  rw [vmIByte_masked inp s addr hrefused]
  decide

theorem vmOByte_served :
    PortServed ⟨true, addr.setWidth 16, .b8, val⟩ s val (vmOByte s addr val) :=
  portServed_byte rfl (vmOByte_state s addr val rfl rfl) fun hread => Bool.noConfusion hread

theorem port_one (p : U16) : (p.setWidth 32 + 1).setWidth 16 = portAt p 1 := port_next p 1

theorem port_two (p : U16) : (p.setWidth 32 + 2).setWidth 16 = portAt p 2 := port_next p 2

theorem port_three (p : U16) : (p.setWidth 32 + 3).setWidth 16 = portAt p 3 := port_next p 3

theorem vmOWord_served :
    PortServed ⟨true, addr.setWidth 16, .b16, val⟩ s val (vmOWord s addr val) := by
  have hstep : ∀ s addr', vmOByte s addr' val =
      s.portByte ⟨true, addr.setWidth 16, .b16, val⟩ (addr'.setWidth 16) :=
    fun s addr' => vmOByte_state s addr' val rfl rfl
  unfold vmOWord
  dsimp only
  split
  · next hslow =>
    refine portServed_bytes ((slow_word _ _).mp hslow) ?_ fun hread => Bool.noConfusion hread
    rw [hstep, hstep, port_first, port_one]
    exact ((BytesServed.nil _ s).snoc _).snoc _
  · next hslow =>
    refine portServed_whole (not_not.mp fun hnot => hslow ((slow_word _ _).mpr hnot)) rfl ?_
    simp [PortAccess.host, MemioWidth.bits, record_out, MemioBits.count, portsFrom_two, Io.markAll,
      Io.countAllO]

theorem vmODword_served :
    PortServed ⟨true, addr.setWidth 16, .b32, val⟩ s val (vmODword s addr val) := by
  have hstep : ∀ s addr', vmOByte s addr' val =
      s.portByte ⟨true, addr.setWidth 16, .b32, val⟩ (addr'.setWidth 16) :=
    fun s addr' => vmOByte_state s addr' val rfl rfl
  unfold vmODword
  dsimp only
  split
  · next hslow =>
    refine portServed_bytes ((slow_dword _ _).mp hslow) ?_ fun hread => Bool.noConfusion hread
    rw [hstep, hstep, hstep, hstep, port_first, port_one, port_two, port_three]
    exact ((((BytesServed.nil _ s).snoc _).snoc _).snoc _).snoc _
  · next hslow =>
    refine portServed_whole (not_not.mp fun hnot => hslow ((slow_dword _ _).mpr hnot)) rfl ?_
    simp [PortAccess.host, MemioWidth.bits, record_out, MemioBits.count, portsFrom_four, Io.markAll,
      Io.countAllO]

theorem byteOf_two (v₀ v₁ : U8) :
    byteOf ((v₁ ++ v₀).setWidth 32) 0 = v₀ ∧ byteOf ((v₁ ++ v₀).setWidth 32) 1 = v₁ := by
  unfold byteOf
  rw [BitVec.extractLsb'_setWidth_of_le (by decide), BitVec.extractLsb'_setWidth_of_le (by decide),
    BitVec.extractLsb'_append_eq_right, BitVec.extractLsb'_append_eq_left]
  exact ⟨rfl, rfl⟩

theorem byteOf_four (v₀ v₁ v₂ v₃ : U8) :
    byteOf ((v₃ ++ v₂) ++ (v₁ ++ v₀)) 0 = v₀ ∧ byteOf ((v₃ ++ v₂) ++ (v₁ ++ v₀)) 1 = v₁ ∧
      byteOf ((v₃ ++ v₂) ++ (v₁ ++ v₀)) 2 = v₂ ∧ byteOf ((v₃ ++ v₂) ++ (v₁ ++ v₀)) 3 = v₃ := by
  unfold byteOf
  rw [BitVec.extractLsb'_append_eq_of_add_le (by decide), BitVec.extractLsb'_append_eq_right,
    BitVec.extractLsb'_append_eq_of_add_le (by decide), BitVec.extractLsb'_append_eq_left,
    BitVec.extractLsb'_append_eq_of_le (by decide),
    BitVec.extractLsb'_append_eq_of_add_le (by decide),
    BitVec.extractLsb'_append_eq_of_le (by decide), BitVec.extractLsb'_append_eq_of_le (by decide)]
  show _ ∧ _ ∧ v₂.extractLsb' 0 8 = _ ∧ v₃.extractLsb' 0 8 = _
  rw [BitVec.extractLsb'_eq_self, BitVec.extractLsb'_eq_self]
  exact ⟨rfl, rfl, rfl, rfl⟩

/-- A refused port reads as 0xff, whatever was accessed before. -/
theorem BytesServed.masked {a : PortAccess} {ports : List U16} {s t : St}
    (h : BytesServed a ports s t) (ha : a.write = false) {addr : U32} {i : Nat}
    (haddr : addr.setWidth 16 = portAt a.port i)
    (hrefused : s.io.allows a.perm (portAt a.port i) = false) : (vmIByte inp t addr).1 = 0xff := by
  have hperm : a.perm = permR := by simp [PortAccess.perm, ha]
  apply vmIByte_masked
  rw [haddr, ← hperm, h.served.allows_eq (permRwx_perm a), hrefused]

theorem vmIWord_served :
    PortServed ⟨false, addr.setWidth 16, .b16, val⟩ s ((vmIWord inp s addr).1.setWidth 32)
      (vmIWord inp s addr).2 := by
  have hstep : ∀ s addr', (vmIByte inp s addr').2 =
      s.portByte ⟨false, addr.setWidth 16, .b16, val⟩ (addr'.setWidth 16) :=
    fun s addr' => vmIByte_state inp s addr' rfl
  unfold vmIWord
  dsimp only
  split
  · next hslow =>
    have h₀ := BytesServed.nil ⟨false, addr.setWidth 16, .b16, val⟩ s
    have h₁ := h₀.snoc (portAt (addr.setWidth 16) 0)
    simp only [hstep, port_first, port_one]
    refine portServed_bytes ((slow_word _ _).mp hslow) (h₁.snoc _) ?_
    intro _ i hi hrefused
    obtain rfl | rfl : i = 0 ∨ i = 1 := by
      have hlt : i < 2 := hi
      omega
    · rw [(byteOf_two _ _).1]
      exact h₀.masked inp rfl (port_first _) hrefused
    · rw [(byteOf_two _ _).2]
      exact h₁.masked inp rfl (port_one _) hrefused
  · next hslow =>
    refine portServed_whole (not_not.mp fun hnot => hslow ((slow_word _ _).mpr hnot)) rfl ?_
    simp [PortAccess.host, MemioWidth.bits, record_inp, MemioBits.count, portsFrom_two, Io.markAll,
      Io.countAllI]

theorem vmIDword_served :
    PortServed ⟨false, addr.setWidth 16, .b32, val⟩ s (vmIDword inp s addr).1
      (vmIDword inp s addr).2 := by
  have hstep : ∀ s addr', (vmIByte inp s addr').2 =
      s.portByte ⟨false, addr.setWidth 16, .b32, val⟩ (addr'.setWidth 16) :=
    fun s addr' => vmIByte_state inp s addr' rfl
  unfold vmIDword
  dsimp only
  split
  · next hslow =>
    have h₀ := BytesServed.nil ⟨false, addr.setWidth 16, .b32, val⟩ s
    have h₁ := h₀.snoc (portAt (addr.setWidth 16) 0)
    have h₂ := h₁.snoc (portAt (addr.setWidth 16) 1)
    have h₃ := h₂.snoc (portAt (addr.setWidth 16) 2)
    simp only [hstep, port_first, port_one, port_two, port_three]
    refine portServed_bytes ((slow_dword _ _).mp hslow) (h₃.snoc _) ?_
    intro _ i hi hrefused
    obtain ⟨hval₀, hval₁, hval₂, hval₃⟩ := byteOf_four
      (vmIByte inp s ((addr.setWidth 16 : U16).setWidth 32)).1 _ _ _
    obtain rfl | rfl | rfl | rfl : i = 0 ∨ i = 1 ∨ i = 2 ∨ i = 3 := by
      have hlt : i < 4 := hi
      omega
    · rw [hval₀]
      exact h₀.masked inp rfl (port_first _) hrefused
    · rw [hval₁]
      exact h₁.masked inp rfl (port_one _) hrefused
    · rw [hval₂]
      exact h₂.masked inp rfl (port_two _) hrefused
    · rw [hval₃]
      exact h₃.masked inp rfl (port_three _) hrefused
  · next hslow =>
    refine portServed_whole (not_not.mp fun hnot => hslow ((slow_dword _ _).mpr hnot)) rfl ?_
    simp [PortAccess.host, MemioWidth.bits, record_inp, MemioBits.count, portsFrom_four, Io.markAll,
      Io.countAllI]

end Functions

/-! ## The handler -/

/-- An access of the memory handler that is for a port, taken with the value it leaves. -/
theorem vmMemio_served (inp : PortInput) (s : St) {kind : MemioKind} {bits : MemioBits}
    {addr val : U32} {a : PortAccess}
    (ha : kind.portAccess bits addr (vmMemio inp s kind bits addr val).1.1 = some a) :
    PortServed a { s with mem := { s.mem with invalid := false } }
      (vmMemio inp s kind bits addr val).1.1 (vmMemio inp s kind bits addr val).2 := by
  unfold MemioKind.portAccess at ha
  split at ha <;> cases ha
  · exact vmIByte_served inp _ addr _
  · exact vmIWord_served inp _ addr _
  · exact vmIDword_served inp _ addr _
  · exact vmOByte_served _ addr val
  · exact vmOWord_served _ addr val
  · exact vmODword_served _ addr val

/-- Whether an access failed is the invalid flag. -/
theorem vmMemio_invalid (inp : PortInput) (s : St) (kind : MemioKind) (bits : MemioBits)
    (addr val : U32) :
    (vmMemio inp s kind bits addr val).1.2 = (vmMemio inp s kind bits addr val).2.mem.invalid := by
  cases kind <;> rfl

/-- The other accesses leave the ports alone. -/
theorem vmMemio_io (inp : PortInput) (s : St) {kind : MemioKind} {bits : MemioBits}
    {addr val v : U32} (hnone : kind.portAccess bits addr v = none) :
    (vmMemio inp s kind bits addr val).2.io = s.io := by
  unfold MemioKind.portAccess at hnone
  cases kind <;> cases bits <;> first | rfl | cases hnone

/-! ## Permissions that stay -/

theorem grants_congr {io io' : Io} {a : PortAccess}
    (h : ∀ q, io'.allows a.perm q = io.allows a.perm q) : io'.grants a = io.grants a := by
  have heq : io'.allows a.perm = io.allows a.perm := funext h
  unfold Io.grants
  rw [heq]

theorem refusals_congr {io io' : Io} {a : PortAccess}
    (h : ∀ q, io'.allows a.perm q = io.allows a.perm q) : io'.refusals a = io.refusals a := by
  unfold Io.refusals
  simp only [h]

end X86Emu
