import X86Emu.Memory.Refinement

/-!
# Records of invalid accesses

`X86EMU_ACC_INVALID` marks the bytes of accesses that were refused or found no valid data. A
write marks each byte it refuses. A read or an execution marks the bytes that are not valid, but it
leaves a byte alone whose permission is missing: `vm_r_byte` and `vm_x_byte` only set
`mem->invalid` there.
-/

namespace X86Emu

open Lib

/-! ## Faulty bytes -/

/-- The permission an access needs; ports have no permissions here. -/
def MemioKind.perm : MemioKind → U8
  | .r => permR
  | .w => permW
  | .x => permX
  | .i | .o => 0

/-- The permission for the access is missing. -/
def Cell.Refused (kind : MemioKind) (c : Cell) : Prop := c.attr.has kind.perm = false

/-- The byte is read or executed while it is not valid. -/
def Cell.NotValid (kind : MemioKind) (c : Cell) : Prop :=
  c.attr.has kind.perm = true ∧ kind ≠ .w ∧ c.attr.has permValid = false

def Cell.Faulty (kind : MemioKind) (c : Cell) : Prop := c.Refused kind ∨ c.NotValid kind

instance (kind : MemioKind) (c : Cell) : Decidable (c.Refused kind) :=
  inferInstanceAs (Decidable (_ = _))

instance (kind : MemioKind) (c : Cell) : Decidable (c.NotValid kind) :=
  inferInstanceAs (Decidable (_ ∧ _))

instance (kind : MemioKind) (c : Cell) : Decidable (c.Faulty kind) :=
  inferInstanceAs (Decidable (_ ∨ _))

/-- The bytes of a memory access. -/
def accessAddrs (kind : MemioKind) (bits : MemioBits) (addr : U32) : List U32 :=
  addrs (accessWidth kind bits) addr

/-! ## One byte -/

section Byte

variable {kind : MemioKind} {bits : MemioBits} (hbits : bits ≠ .b8noperm) (v : U8) {c : Cell}

include hbits in
/-- A refused read or execution leaves the byte alone. -/
theorem rule_refused (hkind : kind = .r ∨ kind = .x) (hperm : c.Refused kind) :
    Cell.rule kind bits v c = ((0xff, true), c) := by
  rcases hkind with rfl | rfl
  · rw [rule_read hbits]
    exact fetch_refused permR accRead hperm
  · exact fetch_refused permX accExec hperm

/-- A byte that is not valid is marked when it is fetched; the mark of a valid one stays. -/
theorem fetch_mark (perm acc : U8) (hacc : acc = accRead ∨ acc = accExec)
    (hperm : c.attr.has perm = true) :
    (Cell.fetch perm acc c).2.attr.has accInvalid =
      (!c.attr.has permValid || c.attr.has accInvalid) := by
  have hbyte : ∀ a : U8, (if (a ||| accRead).has permValid then (a ||| accRead).has accInvalid
      else (a ||| accRead ||| accInvalid).has accInvalid) =
        (!a.has permValid || a.has accInvalid) ∧
      (if (a ||| accExec).has permValid then (a ||| accExec).has accInvalid
      else (a ||| accExec ||| accInvalid).has accInvalid) =
        (!a.has permValid || a.has accInvalid) := by decide
  obtain ⟨hread, hexec⟩ := hbyte c.attr
  unfold Cell.fetch
  rw [if_pos hperm]
  rcases hacc with rfl | rfl
  · rw [← hread]
    split <;> rfl
  · rw [← hexec]
    split <;> rfl

/-- A write marks the byte it refuses, and no other. -/
theorem write_mark : (Cell.write v c).2.attr.has accInvalid =
    (!c.attr.has permW || c.attr.has accInvalid) := by
  have hbyte : ∀ a : U8, (a ||| accInvalid).has accInvalid = true ∧
      (a ||| (permValid ||| accWrite)).has accInvalid = a.has accInvalid := by decide
  obtain ⟨hmark, hkeep⟩ := hbyte c.attr
  cases hperm : c.attr.has permW with
  | false =>
    rw [write_refused v hperm]
    exact hmark
  | true =>
    rw [Cell.write, if_pos hperm]
    exact hkeep

include hbits in
/-- The mark after an access whose permission is there, and after any write. -/
theorem rule_mark (hkind : kind = .r ∨ kind = .w ∨ kind = .x) (h : kind = .w ∨ ¬ c.Refused kind) :
    (Cell.rule kind bits v c).2.attr.has accInvalid =
      (decide (c.Faulty kind) || c.attr.has accInvalid) := by
  have hpos : ∀ {b : Bool}, ¬ b = false → b = true := by decide
  rcases hkind with rfl | rfl | rfl
  · have hperm : c.attr.has permR = true := hpos (h.resolve_left (by decide))
    have hfaulty : decide (c.Faulty .r) = !c.attr.has permValid := by
      cases hv : c.attr.has permValid <;>
        simp [Cell.Faulty, Cell.Refused, Cell.NotValid, MemioKind.perm, hperm, hv]
    rw [rule_read hbits, fetch_mark permR accRead (Or.inl rfl) hperm, hfaulty]
  · have hfaulty : decide (c.Faulty .w) = !c.attr.has permW := by
      cases hv : c.attr.has permW <;>
        simp [Cell.Faulty, Cell.Refused, Cell.NotValid, MemioKind.perm, hv]
    rw [rule_write hbits, write_mark, hfaulty]
  · have hperm : c.attr.has permX = true := hpos (h.resolve_left (by decide))
    have hfaulty : decide (c.Faulty .x) = !c.attr.has permValid := by
      cases hv : c.attr.has permValid <;>
        simp [Cell.Faulty, Cell.Refused, Cell.NotValid, MemioKind.perm, hperm, hv]
    rw [hfaulty]
    exact fetch_mark permX accExec (Or.inr rfl) hperm

end Byte

/-! ## Accesses -/

/-- The faulty bytes of the access are marked, and all other marks are as they were. -/
structure Recorded (mem mem' : Mem) (kind : MemioKind) (bits : MemioBits) (addr : U32) : Prop where
  marked : ∀ a ∈ accessAddrs kind bits addr, (mem.flat a).Faulty kind →
    (mem'.flat a).attr.has accInvalid = true
  others : ∀ a, ¬ (a ∈ accessAddrs kind bits addr ∧ (mem.flat a).Faulty kind) →
    (mem'.flat a).attr.has accInvalid = (mem.flat a).attr.has accInvalid

section Access

variable (mem : Mem) {kind : MemioKind} {bits : MemioBits} (hbits : bits ≠ .b8noperm)
  {addr : U32} (val : U32)

theorem accessAddrs_kind {a : U32} (ha : a ∈ accessAddrs kind bits addr) :
    kind = .r ∨ kind = .w ∨ kind = .x := by
  cases kind with
  | r => exact Or.inl rfl
  | w => exact Or.inr (Or.inl rfl)
  | x => exact Or.inr (Or.inr rfl)
  | i => cases bits <;> cases ha
  | o => cases bits <;> cases ha

include hbits in
/-- A refused read or execution of a byte leaves its attribute. -/
theorem access_refused {a : U32} (ha : a ∈ accessAddrs kind bits addr) (hkind : kind ≠ .w)
    (hperm : (mem.flat a).Refused kind) :
    ((mem.access kind bits addr val).2.flat a).attr = (mem.flat a).attr := by
  obtain ⟨v, hattr⟩ := access_attr_at mem val ha
  have hfetch : kind = .r ∨ kind = .x := by
    have := accessAddrs_kind ha
    tauto
  rw [hattr, rule_refused hbits v hfetch hperm]

include hbits in
/-- A refused byte makes the access fail. -/
theorem access_fails {a : U32} (ha : a ∈ accessAddrs kind bits addr)
    (hperm : (mem.flat a).Refused kind) : (mem.access kind bits addr val).1.2 = true := by
  have hkind := accessAddrs_kind ha
  rw [(access_attr mem kind bits addr val).2.1]
  unfold accessAddrs at ha
  rw [← map_fst_addrBytes _ addr val, List.mem_map] at ha
  obtain ⟨⟨b, v⟩, hmem, rfl⟩ := ha
  show (((onCells _ (accessBytes kind bits addr val) mem.flat).1).map Prod.snd).any id = true
  rw [onCells_results _ (accessBytes_nodup kind bits addr val), List.map_map, List.any_map,
    List.any_eq_true]
  refine ⟨_, hmem, ?_⟩
  show (Cell.rule kind bits v (mem.flat b)).1.2 = true
  by_cases hw : kind = .w
  · subst hw
    rw [rule_write hbits, write_refused v hperm]
  · rw [rule_refused hbits v (by tauto) hperm]

include hbits in
/-- The bytes of an access are recorded, when no read or execution is refused without a mark. -/
theorem recorded_of_marked (hmark : kind = .w ∨ ∀ a ∈ accessAddrs kind bits addr,
    (mem.flat a).Refused kind → (mem.flat a).attr.has accInvalid = true) :
    Recorded mem (mem.access kind bits addr val).2 kind bits addr := by
  constructor
  · intro a ha hfaulty
    by_cases hperm : kind = .w ∨ ¬ (mem.flat a).Refused kind
    · obtain ⟨v, hattr⟩ := access_attr_at mem val ha
      rw [hattr, rule_mark hbits v (accessAddrs_kind ha) hperm, decide_eq_true hfaulty]
      rfl
    · rw [not_or, Classical.not_not] at hperm
      rw [access_refused mem hbits val ha hperm.1 hperm.2]
      exact hmark.resolve_left hperm.1 a ha hperm.2
  · intro a ha
    by_cases haddr : a ∈ accessAddrs kind bits addr
    · have hfaulty : ¬ (mem.flat a).Faulty kind := fun hno => ha ⟨haddr, hno⟩
      have hperm : ¬ (mem.flat a).Refused kind := fun hno => hfaulty (Or.inl hno)
      obtain ⟨v, hattr⟩ := access_attr_at mem val haddr
      rw [hattr, rule_mark hbits v (accessAddrs_kind haddr) (Or.inr hperm),
        decide_eq_false hfaulty]
      rfl
    · rw [access_attr_frame mem val haddr]

include hbits in
theorem access_recorded_iff :
    ((mem.access kind bits addr val).1.2 = true →
      Recorded mem (mem.access kind bits addr val).2 kind bits addr) ↔
      kind = .w ∨ ∀ a ∈ accessAddrs kind bits addr, (mem.flat a).Refused kind →
        (mem.flat a).attr.has accInvalid = true := by
  constructor
  · intro hrec
    by_cases hkind : kind = .w
    · exact Or.inl hkind
    · refine Or.inr fun a ha hperm => ?_
      have hmark := (hrec (access_fails mem hbits val ha hperm)).marked a ha (Or.inl hperm)
      rwa [access_refused mem hbits val ha hkind hperm] at hmark
  · intro hmark _
    exact recorded_of_marked mem hbits val hmark

end Access

theorem Recorded.congr {mem mem₁ mem₂ : Mem} {kind : MemioKind} {bits : MemioBits} {addr : U32}
    (hflat : mem₂.flat = mem₁.flat) :
    Recorded mem mem₁ kind bits addr ↔ Recorded mem mem₂ kind bits addr := by
  constructor
  · rintro ⟨hmarked, hothers⟩
    rw [← hflat] at hmarked hothers
    exact ⟨hmarked, hothers⟩
  · rintro ⟨hmarked, hothers⟩
    rw [hflat] at hmarked hothers
    exact ⟨hmarked, hothers⟩

/-- A failing access of `vm_memio` records its faulty bytes if and only if it is a write, or every
byte it refuses was marked before. -/
theorem vmMemio_recorded_iff (inp : PortInput) (s : St) {kind : MemioKind}
    (hkind : kind = .r ∨ kind = .w ∨ kind = .x) {bits : MemioBits} (hbits : bits ≠ .b8noperm)
    (addr val : U32) :
    ((vmMemio inp s kind bits addr val).1.2 = true →
      Recorded s.mem (vmMemio inp s kind bits addr val).2.mem kind bits addr) ↔
      kind = .w ∨ ∀ a ∈ accessAddrs kind bits addr, (s.mem.flat a).Refused kind →
        (s.mem.flat a).attr.has accInvalid = true := by
  rw [vmMemio_result inp s hkind,
    ← Recorded.congr (vmMemio_mem inp s kind bits addr val).flat]
  exact access_recorded_iff s.mem hbits val

/-- A refused byte read from a new memory without permissions is not marked. -/
theorem vmMemio_recorded_read :
    ((vmMemio (fun _ _ _ => 0) {} .r .b8 0x1000 0).1.2 = true →
      Recorded {} (vmMemio (fun _ _ _ => 0) {} .r .b8 0x1000 0).2.mem .r .b8 0x1000) ↔
      MemioKind.r = .w ∨ ∀ a ∈ accessAddrs .r .b8 0x1000, (Mem.flat {} a).Refused .r →
        (Mem.flat {} a).attr.has accInvalid = true :=
  vmMemio_recorded_iff (fun _ _ _ => 0) {} (Or.inl rfl) (by decide) 0x1000 0

theorem vmMemio_recorded_fails :
    ¬ ∀ (inp : PortInput) (s : St) (kind : MemioKind), kind = .r ∨ kind = .w ∨ kind = .x →
      ∀ bits : MemioBits, bits ≠ .b8noperm → ∀ addr val : U32,
      (vmMemio inp s kind bits addr val).1.2 = true →
      Recorded s.mem (vmMemio inp s kind bits addr val).2.mem kind bits addr := by
  intro hall
  have hrec := hall (fun _ _ _ => 0) {} .r (Or.inl rfl) .b8 (by decide) 0x1000 0 (by decide)
  have hmark := hrec.marked 0x1000 (by decide) (by decide)
  revert hmark
  decide

end X86Emu
