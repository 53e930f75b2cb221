import X86Emu.Memory.Refinement

/-!
# Memory protection

What an access that asks for permissions may do to a cell: the permission bits stay, `VALID` is
never cleared, and the data of a byte without `PERM_W` stays. A read returns 0xff for every
byte without `PERM_R`.
-/

namespace X86Emu

open Lib

/-! ## One cell -/

/-- The change from one cell to another respects the permissions. -/
structure Cell.Guarded (c c' : Cell) : Prop where
  perm : c'.attr &&& permRwx = c.attr &&& permRwx
  valid : c.attr.has permValid = true → c'.attr.has permValid = true
  data : c.attr.has permW = false → c'.data = c.data

namespace Cell.Guarded

theorem refl (c : Cell) : c.Guarded c := ⟨rfl, id, fun _ => rfl⟩

/-- The permissions are part of the bits that stay. -/
theorem has_eq {c c' : Cell} (h : c.Guarded c') {m : U8} (hm : m = permR ∨ m = permW ∨ m = permX) :
    c'.attr.has m = c.attr.has m := by
  have hbits : ∀ a : U8, a.has permR = (a &&& permRwx).has permR ∧
      a.has permW = (a &&& permRwx).has permW ∧ a.has permX = (a &&& permRwx).has permX := by
    decide
  obtain ⟨hr, hw, hx⟩ := hbits c.attr
  obtain ⟨hr', hw', hx'⟩ := hbits c'.attr
  rcases hm with rfl | rfl | rfl
  · rw [hr, hr', h.perm]
  · rw [hw, hw', h.perm]
  · rw [hx, hx', h.perm]

theorem trans {c₁ c₂ c₃ : Cell} (h₁ : c₁.Guarded c₂) (h₂ : c₂.Guarded c₃) : c₁.Guarded c₃ where
  perm := h₂.perm.trans h₁.perm
  valid hvalid := h₂.valid (h₁.valid hvalid)
  data hperm := by
    have hperm' : c₂.attr.has permW = false := by
      rw [h₁.has_eq (Or.inr (Or.inl rfl))]
      exact hperm
    rw [h₂.data hperm', h₁.data hperm]

/-- Marking a cell keeps its data. -/
theorem mark (c : Cell) {m : U8} (hm : m &&& permRwx = 0#8) :
    c.Guarded { c with attr := c.attr ||| m } where
  perm := by
    show (c.attr ||| m) &&& permRwx = _
    rw [BitVec.and_or_distrib_right, hm, BitVec.or_zero]
  valid hvalid := by
    have hor : ∀ a m : U8, a.getLsbD 3 = true → (a ||| m).getLsbD 3 = true := by
      intro a m ha
      rw [BitVec.getLsbD_or, ha, Bool.true_or]
    have hbit : ∀ a : U8, a.has permValid = a.getLsbD 3 := by decide
    show (c.attr ||| m).has permValid = true
    rw [hbit] at hvalid ⊢
    exact hor c.attr m hvalid
  data _ := rfl

end Cell.Guarded

theorem fetch_guarded {perm acc : U8} (hacc : acc &&& permRwx = 0#8) (c : Cell) :
    c.Guarded (Cell.fetch perm acc c).2 := by
  unfold Cell.fetch
  split
  · split
    · exact Cell.Guarded.mark c hacc
    · have hmark := (Cell.Guarded.mark c hacc).trans
        (Cell.Guarded.mark { c with attr := c.attr ||| acc }
          (by decide : accInvalid &&& permRwx = 0#8))
      exact hmark
  · exact Cell.Guarded.refl c

theorem write_guarded (v : U8) (c : Cell) : c.Guarded (Cell.write v c).2 := by
  unfold Cell.write
  split
  · next hperm =>
    have hmark := Cell.Guarded.mark c (by decide : (permValid ||| accWrite) &&& permRwx = 0#8)
    exact ⟨hmark.perm, hmark.valid, fun hno => absurd hperm (by rw [hno]; exact Bool.false_ne_true)⟩
  · exact Cell.Guarded.mark c (by decide)

/-- Every access but the host's writes respects the permissions. -/
theorem rule_guarded {kind : MemioKind} {bits : MemioBits}
    (hbits : ¬ (kind = .w ∧ bits = .b8noperm)) (v : U8) (c : Cell) :
    c.Guarded (Cell.rule kind bits v c).2 := by
  have hread : c.Guarded (Cell.fetch permR accRead c).2 := fetch_guarded (by decide) c
  have hexec : c.Guarded (Cell.fetch permX accExec c).2 := fetch_guarded (by decide) c
  cases kind with
  | r =>
    cases bits with
    | b8noperm => exact Cell.Guarded.refl c
    | _ => exact hread
  | w =>
    cases bits with
    | b8noperm => exact absurd ⟨rfl, rfl⟩ hbits
    | _ => exact write_guarded v c
  | x => exact hexec
  | i => exact Cell.Guarded.refl c
  | o => exact Cell.Guarded.refl c

/-! ## The memory -/

/-- At every address the permissions are respected, and pages are mapped as before. -/
structure Mem.Guarded (mem mem' : Mem) : Prop where
  hostLoc : mem'.hostLoc = mem.hostLoc
  cells : ∀ a, (mem.flat a).Guarded (mem'.flat a)

namespace Mem.Guarded

theorem refl (mem : Mem) : mem.Guarded mem := ⟨rfl, fun a => Cell.Guarded.refl (mem.flat a)⟩

theorem trans {mem₁ mem₂ mem₃ : Mem} (h₁ : mem₁.Guarded mem₂) (h₂ : mem₂.Guarded mem₃) :
    mem₁.Guarded mem₃ :=
  ⟨h₂.hostLoc.trans h₁.hostLoc, fun a => (h₁.cells a).trans (h₂.cells a)⟩

theorem sep {mem mem' : Mem} (h : mem.Guarded mem') (hsep : mem.Sep) : mem'.Sep :=
  hsep.congr h.hostLoc

end Mem.Guarded

theorem access_guarded {mem : Mem} (hsep : mem.Sep) {kind : MemioKind} {bits : MemioBits}
    (hbits : ¬ (kind = .w ∧ bits = .b8noperm)) (addr val : U32) :
    mem.Guarded (mem.access kind bits addr val).2 := by
  refine ⟨(access_attr mem kind bits addr val).1, fun a => ?_⟩
  rw [(access_refines (Or.inl hsep) bits addr val).2]
  exact onCells_keeps Cell.Guarded.refl Cell.Guarded.trans (rule_guarded hbits) _ mem.flat a

theorem vmMemio_guarded (inp : PortInput) {s : St} (hsep : s.mem.Sep) {kind : MemioKind}
    {bits : MemioBits} (hbits : ¬ (kind = .w ∧ bits = .b8noperm)) (addr val : U32) :
    s.mem.Guarded (vmMemio inp s kind bits addr val).2.mem := by
  have hsame := vmMemio_mem inp s kind bits addr val
  obtain ⟨hloc, hcells⟩ := access_guarded hsep hbits addr val
  refine ⟨hsame.hostLoc.trans hloc, fun a => ?_⟩
  rw [hsame.flat]
  exact hcells a

/-! ## The access statistics -/

/-- A page after `x86emu_reset_access_stats`. -/
def Page.resetStats (page : Page) : Page :=
  { page with
    alloc := page.alloc.map fun p =>
      { p with attr := fun k => p.attr k &&& (permRwx ||| permValid) } }

theorem entry_resetAccessStats (mem : Mem) (a : U32) :
    mem.resetAccessStats.entry a = (mem.entry a).map Page.resetStats := by
  unfold Mem.entry Mem.resetAccessStats
  cases mem.pdir with
  | none => rfl
  | some pdir =>
    show ((pdir (pdirIdx a)).map _).map _ = ((pdir (pdirIdx a)).map _).map _
    rw [Option.map_map, Option.map_map]
    rfl

theorem hostLoc_resetStats (page : Page) : page.resetStats.hostLoc = page.hostLoc := by
  obtain ⟨alloc, defAttr⟩ := page
  cases alloc <;> rfl

theorem byteAt_resetStats (page : Page) (host : Nat → U8) :
    page.resetStats.byteAt host = page.byteAt host := by
  obtain ⟨alloc, defAttr⟩ := page
  cases alloc <;> rfl

theorem attrAt_resetStats (page : Page) (i : BitVec 12) :
    page.resetStats.attrAt i = page.attrAt i ∨
      page.resetStats.attrAt i = page.attrAt i &&& (permRwx ||| permValid) := by
  obtain ⟨alloc, defAttr⟩ := page
  cases alloc with
  | none => exact Or.inl rfl
  | some p => exact Or.inr rfl

/-- The reset of the access statistics only clears the marks of allocated pages. -/
theorem resetAccessStats_guarded (mem : Mem) : mem.Guarded mem.resetAccessStats := by
  have hbits : ∀ a : U8, (a &&& (permRwx ||| permValid)) &&& permRwx = a &&& permRwx ∧
      (a &&& (permRwx ||| permValid)).has permValid = a.has permValid := by decide
  constructor
  · funext a
    unfold Mem.hostLoc
    rw [entry_resetAccessStats]
    cases mem.entry a with
    | none => rfl
    | some page => exact congrFun (hostLoc_resetStats page) (pageIdx a)
  · intro a
    unfold Mem.flat
    rw [entry_resetAccessStats]
    cases mem.entry a with
    | none => exact Cell.Guarded.refl _
    | some page =>
      obtain ⟨hperm, hvalid⟩ := hbits (page.attrAt (pageIdx a))
      have hdata := congrFun (byteAt_resetStats page mem.host) (pageIdx a)
      rcases attrAt_resetStats page (pageIdx a) with hattr | hattr
      · exact ⟨congrArg (· &&& permRwx) hattr,
          fun h => (congrArg (U8.has · permValid) hattr).trans h,
          fun _ => hdata⟩
      · exact ⟨(congrArg (· &&& permRwx) hattr).trans hperm,
          fun h => (congrArg (U8.has · permValid) hattr).trans (hvalid.trans h), fun _ => hdata⟩

/-! ## Reads -/

/-- The bytes of the number read are those of the cells, one by one. -/
theorem addrBytes_leVal {bits : MemioBits} {addr : U32} {l : List U8}
    (hl : l.length = accessWidth .r bits) :
    addrBytes (accessWidth .r bits) addr (leVal l) = (addrs (accessWidth .r bits) addr).zip l := by
  cases bits with
  | b8 | b8noperm =>
    match l, hl with
    | [v₀], _ =>
      show addrBytes 1 addr (v₀.setWidth 32) = [(addr + 0#32, v₀)]
      rw [addrBytes_setWidth (by decide), addrBytes_one, BitVec.extractLsb'_eq_self,
        BitVec.add_zero]
  | b16 =>
    match l, hl with
    | [v₀, v₁], _ =>
      show addrBytes 2 addr ((v₁ ++ v₀).setWidth 32) = (addrs 2 addr).zip [v₀, v₁]
      rw [addrBytes_setWidth (by decide), addrBytes_append₂, addrs_two]
      rfl
  | b32 =>
    match l, hl with
    | [v₀, v₁, v₂, v₃], _ =>
      show addrBytes 4 addr ((v₃ ++ v₂) ++ (v₁ ++ v₀)) = (addrs 4 addr).zip [v₀, v₁, v₂, v₃]
      rw [addrBytes_append₄, addrs_four]
      rfl

/-- A byte without `PERM_R` is read as 0xff. -/
theorem access_read_masked {mem : Mem} (hsep : mem.Sep) {bits : MemioBits}
    (hbits : bits ≠ .b8noperm) (addr val : U32) :
    ∀ p ∈ addrBytes (accessWidth .r bits) addr (mem.access .r bits addr val).1.1,
      (mem.flat p.1).attr.has permR = false → p.2 = 0xff := by
  rw [(access_refines (Or.inl hsep) bits addr val).1]
  show ∀ p ∈ addrBytes _ addr (leVal ((onCells (Cell.rule .r bits)
    (accessBytes .r bits addr val) mem.flat).1.map Prod.fst)), _
  rw [onCells_results _ (accessBytes_nodup .r bits addr val), List.map_map]
  rw [addrBytes_leVal (by simp [accessBytes, addrBytes])]
  unfold accessBytes
  rw [← map_fst_addrBytes _ addr val, List.zip_map']
  intro p hp hperm
  obtain ⟨⟨a, v⟩, _, rfl⟩ := List.mem_map.mp hp
  show (Cell.rule .r bits v (mem.flat a)).1.1 = 0xff
  rw [rule_read hbits, fetch_refused permR accRead hperm]

end X86Emu
