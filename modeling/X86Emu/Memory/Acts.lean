import X86Emu.Memory.Memio
import X86Emu.Memory.Pages

/-!
# Accesses as actions on cells

`Acts rule l mem res mem'` says that the paged memory `mem` becomes `mem'` as the flat memory does
when `rule` is applied to the cells of `l` in order, and that `res` are the bytes returned. What it
says about attributes holds also when two pages are mapped to the same memory of the host.

The byte functions act on one cell. The slow paths of the word and dword functions are sequences of
byte accesses; the fast paths set all attributes and then store all bytes, which comes to the same
because the test of the packed permissions is the conjunction of the tests of the single ones.
-/

namespace X86Emu

open Lib

/-! ## Acting on cells -/

abbrev Rule : Type := U8 → Cell → (U8 × Bool) × Cell

/-- Attributes and invalid flag depend on the attribute alone. -/
class AttrOnly (rule : Rule) : Prop where
  attr : ∀ d c c', c.attr = c'.attr →
    (rule d c).1.2 = (rule d c').1.2 ∧ (rule d c).2.attr = (rule d c').2.attr

instance (perm acc : U8) : AttrOnly fun _ => Cell.fetch perm acc := by
  refine ⟨?_⟩
  intro d c c' hc
  unfold Cell.fetch
  rw [hc]
  split
  · split <;> exact ⟨rfl, rfl⟩
  · exact ⟨rfl, hc⟩

instance : AttrOnly Cell.write := by
  refine ⟨?_⟩
  intro d c c' hc
  unfold Cell.write
  rw [hc]
  split <;> exact ⟨rfl, rfl⟩

/-- The rule never stores. -/
def KeepsData (rule : Rule) : Prop := ∀ d c, (rule d c).2.data = c.data

theorem fetch_keepsData (perm acc : U8) : KeepsData fun _ => Cell.fetch perm acc := by
  intro d c
  show (Cell.fetch perm acc c).2.data = c.data
  unfold Cell.fetch
  split
  · split <;> rfl
  · rfl

theorem readNoperm_keepsData : KeepsData fun _ => Cell.readNoperm := fun _ _ => rfl

theorem not_keepsData_write : ¬ KeepsData Cell.write :=
  fun h => absurd (h 1 ⟨permW, 0⟩) (by decide)

theorem not_keepsData_writeNoperm : ¬ KeepsData Cell.writeNoperm :=
  fun h => absurd (h 1 ⟨0, 0⟩) (by decide)

/-- Pages that lie apart, or a rule for which it does not matter. -/
def Mem.SafeFor (mem : Mem) (rule : Rule) : Prop := mem.Sep ∨ KeepsData rule

theorem Mem.SafeFor.sep {mem : Mem} {rule : Rule} (h : mem.SafeFor rule)
    (hrule : ¬ KeepsData rule) : mem.Sep := h.resolve_right hrule

structure Acts (rule : Rule) (l : List (U32 × U8)) (mem : Mem) (res : List U8) (mem' : Mem) :
    Prop where
  hostLoc : mem'.hostLoc = mem.hostLoc
  attr : ∀ a, (mem'.flat a).attr = ((onCells rule l mem.flat).2 a).attr
  invalid : mem'.invalid = (mem.invalid || ((onCells rule l mem.flat).1.map Prod.snd).any id)
  flat : mem.SafeFor rule → mem'.flat = (onCells rule l mem.flat).2
  res : mem.SafeFor rule → res = (onCells rule l mem.flat).1.map Prod.fst

section Acts

variable {rule : Rule} {l l₁ l₂ : List (U32 × U8)} {mem mem₀ mem₁ mem₂ : Mem}
  {res res₁ res₂ : List U8}

theorem Mem.Sep.congr (h : mem.Sep) (hloc : mem₁.hostLoc = mem.hostLoc) : mem₁.Sep := by
  unfold Mem.Sep
  rw [hloc]
  exact h

theorem Mem.SafeFor.congr (h : mem.SafeFor rule) (hloc : mem₁.hostLoc = mem.hostLoc) :
    mem₁.SafeFor rule := h.imp_left (·.congr hloc)

/-- Only the cells of the memory before count. -/
theorem Acts.congr (h : Acts rule l mem res mem₁) (hflat : mem.flat = mem₀.flat)
    (hinv : mem.invalid = mem₀.invalid) (hloc : mem.hostLoc = mem₀.hostLoc) :
    Acts rule l mem₀ res mem₁ := by
  obtain ⟨hl, hattr, hin, hfl, hres⟩ := h
  rw [hflat] at hattr hin hfl hres
  rw [hinv] at hin
  exact ⟨hl.trans hloc, hattr, hin, fun hs => hfl (hs.congr hloc),
    fun hs => hres (hs.congr hloc)⟩

/-- One access after the other. -/
theorem Acts.append [hr : AttrOnly rule] (h₁ : Acts rule l₁ mem res₁ mem₁)
    (h₂ : Acts rule l₂ mem₁ res₂ mem₂) : Acts rule (l₁ ++ l₂) mem (res₁ ++ res₂) mem₂ := by
  have hrel := onCells_related (E := fun c c' : Cell => c.attr = c'.attr) (g := Prod.snd)
    hr.attr l₂ h₁.attr
  have hsep : mem.SafeFor rule → mem₁.SafeFor rule := fun hs => hs.congr h₁.hostLoc
  refine ⟨h₂.hostLoc.trans h₁.hostLoc, ?_, ?_, ?_, ?_⟩
  · intro a
    rw [onCells_append, h₂.attr, hrel.2]
  · rw [onCells_append, List.map_append, List.any_append, h₂.invalid, h₁.invalid, hrel.1,
      Bool.or_assoc]
  · intro hs
    rw [onCells_append, h₂.flat (hsep hs), h₁.flat hs]
  · intro hs
    rw [onCells_append, List.map_append, h₁.res hs, h₂.res (hsep hs), h₁.flat hs]

/-- An access with valid results, given cell by cell. -/
theorem Acts.of_cells (hloc : mem₁.hostLoc = mem.hostLoc)
    (hl : (l.map Prod.fst).Nodup) (hinv : mem₁.invalid = mem.invalid)
    (hres : res = l.map fun p => (rule p.2 (mem.flat p.1)).1.1)
    (hvalid : ∀ p ∈ l, (rule p.2 (mem.flat p.1)).1.2 = false)
    (hattr : ∀ p ∈ l, (mem₁.flat p.1).attr = (rule p.2 (mem.flat p.1)).2.attr)
    (hattrs : ∀ a, a ∉ l.map Prod.fst → (mem₁.flat a).attr = (mem.flat a).attr)
    (hcell : mem.SafeFor rule → ∀ p ∈ l, mem₁.flat p.1 = (rule p.2 (mem.flat p.1)).2)
    (hcells : mem.SafeFor rule → ∀ a, a ∉ l.map Prod.fst → mem₁.flat a = mem.flat a) :
    Acts rule l mem res mem₁ := by
  refine ⟨hloc, ?_, ?_, ?_, ?_⟩
  · intro a
    by_cases ha : a ∈ l.map Prod.fst
    · obtain ⟨p, hp, rfl⟩ := List.mem_map.mp ha
      rw [hattr p hp, onCells_mem rule hl mem.flat (a := p.1) (d := p.2) hp]
    · rw [hattrs a ha, onCells_frame rule l mem.flat ha]
  · have hany : ((onCells rule l mem.flat).1.map Prod.snd).any id = false := by
      rw [onCells_results rule hl, List.map_map, List.any_map, List.any_eq_false]
      intro p hp hpv
      have hfalse := hvalid p hp
      simp only [Function.comp_apply, id, hfalse, Bool.false_eq_true] at hpv
    rw [hinv, hany, Bool.or_false]
  · intro hs
    funext a
    by_cases ha : a ∈ l.map Prod.fst
    · obtain ⟨p, hp, rfl⟩ := List.mem_map.mp ha
      rw [hcell hs p hp, onCells_mem rule hl mem.flat (a := p.1) (d := p.2) hp]
    · rw [hcells hs a ha, onCells_frame rule l mem.flat ha]
  · intro _
    rw [onCells_results rule hl, hres, List.map_map]
    rfl

end Acts

/-! ## Byte accesses -/

/-- One byte, when the cells after it are known. -/
theorem acts_single {rule : Rule} {mem mem₁ : Mem} {addr : U32} {d v : U8}
    (hloc : mem₁.hostLoc = mem.hostLoc) (hv : v = (rule d (mem.flat addr)).1.1)
    (hattr : ∀ a, (mem₁.flat a).attr =
      (Function.update mem.flat addr (rule d (mem.flat addr)).2 a).attr)
    (hflat : mem.SafeFor rule →
      mem₁.flat = Function.update mem.flat addr (rule d (mem.flat addr)).2)
    (hinv : mem₁.invalid = (mem.invalid || (rule d (mem.flat addr)).1.2)) :
    Acts rule [(addr, d)] mem [v] mem₁ := by
  refine ⟨hloc, ?_, ?_, ?_, ?_⟩
  · intro a
    rw [onCells_cons]
    exact hattr a
  · rw [onCells_cons, hinv, List.map_cons, List.any_cons]
    simp only [onCells_nil, List.map_nil, List.any_nil, Bool.or_false, id]
  · intro hs
    rw [onCells_cons]
    exact hflat hs
  · intro _
    rw [onCells_cons, hv]
    rfl

/-- One byte that is not stored. -/
theorem acts_single_attr {rule : Rule} {mem mem₁ : Mem} {addr : U32} {d v : U8}
    (hloc : mem₁.hostLoc = mem.hostLoc) (hv : v = (rule d (mem.flat addr)).1.1)
    (hflat : mem₁.flat = Function.update mem.flat addr (rule d (mem.flat addr)).2)
    (hinv : mem₁.invalid = (mem.invalid || (rule d (mem.flat addr)).1.2)) :
    Acts rule [(addr, d)] mem [v] mem₁ :=
  acts_single hloc hv (fun a => by rw [hflat]) (fun _ => hflat) hinv

/-- The common body of `vm_r_byte` and `vm_x_byte`. -/
def vmFetchByte (perm acc : U8) (mem : Mem) (addr : U32) : U8 × Mem :=
  let i := pageIdx addr
  let (page, mem) := vmGetPage mem addr true
  let attr := page.attrAt i
  if attr.has perm then
    let attr := attr ||| acc
    if attr.has permValid then
      (mem.load page i, mem.putPage addr (page.setAttr i attr))
    else
      (mem.load page i, (mem.putPage addr (page.setAttr i (attr ||| accInvalid))).setInvalid)
  else
    (0xff, mem.setInvalid)

theorem vmRByte_eq : vmRByte = vmFetchByte permR accRead := rfl

theorem vmXByte_eq : vmXByte = vmFetchByte permX accExec := rfl

/-- Attribute and data of the page that is stored for an address. -/
theorem pageAt_cell {mem : Mem} {addr : U32} (hlive : mem.Live addr) :
    (mem.pageAt addr).attrAt (pageIdx addr) = (mem.flat addr).attr ∧
      mem.load (mem.pageAt addr) (pageIdx addr) = (mem.flat addr).data := by
  obtain ⟨hentry, hp⟩ := hlive.entry
  rw [load_eq_byteAt, flat_of_entry hentry]
  exact ⟨rfl, rfl⟩

theorem acts_fetchByte (mem : Mem) (perm acc d : U8) (addr : U32) :
    Acts (fun _ => Cell.fetch perm acc) [(addr, d)] mem [(vmFetchByte perm acc mem addr).1]
      (vmFetchByte perm acc mem addr).2 := by
  obtain ⟨m, hget, hlive, hflat, hinv, hloc⟩ := vmGetPage_spec mem addr
  obtain ⟨hattr, hload⟩ := pageAt_cell hlive
  refine Acts.congr ?_ hflat hinv hloc
  unfold vmFetchByte
  rw [hget]
  dsimp only
  rw [hattr, hload]
  by_cases hperm : (m.flat addr).attr.has perm = true
  · rw [if_pos hperm]
    by_cases hval : ((m.flat addr).attr ||| acc).has permValid = true
    · rw [if_pos hval]
      have hrule : Cell.fetch perm acc (m.flat addr) = (((m.flat addr).data, false),
          { m.flat addr with attr := (m.flat addr).attr ||| acc }) := by
        rw [Cell.fetch, if_pos hperm, if_pos hval]
      refine acts_single_attr (hostLoc_setAttrAt hlive _) ?_ ?_ ?_
      · rw [hrule]
      · rw [hrule]
        exact flat_setAttrAt hlive _
      · rw [hrule, Bool.or_false]
        rfl
    · rw [if_neg hval]
      have hrule : Cell.fetch perm acc (m.flat addr) = (((m.flat addr).data, true),
          { m.flat addr with attr := (m.flat addr).attr ||| acc ||| accInvalid }) := by
        rw [Cell.fetch, if_pos hperm, if_neg hval]
      refine acts_single_attr (hostLoc_setAttrAt hlive _) ?_ ?_ ?_
      · rw [hrule]
      · rw [hrule]
        exact flat_setAttrAt hlive _
      · rw [hrule, Bool.or_true]
        rfl
  · rw [if_neg hperm]
    have hrule : Cell.fetch perm acc (m.flat addr) = ((0xff, true), m.flat addr) := by
      rw [Cell.fetch, if_neg hperm]
    refine acts_single_attr rfl ?_ ?_ ?_
    · rw [hrule]
    · rw [hrule, Function.update_eq_self]
      rfl
    · rw [hrule, Bool.or_true]
      rfl

theorem acts_readNoperm (mem : Mem) (addr : U32) (d : U8) :
    Acts (fun _ => Cell.readNoperm) [(addr, d)] mem [(vmRByteNoperm mem addr).1]
      (vmRByteNoperm mem addr).2 := by
  obtain ⟨m, hget, hlive, hflat, hinv, hloc⟩ := vmGetPage_spec mem addr
  refine Acts.congr ?_ hflat hinv hloc
  unfold vmRByteNoperm
  rw [hget]
  exact acts_single_attr rfl (pageAt_cell hlive).2 (Function.update_eq_self addr m.flat).symm
    (Bool.or_false _).symm

/-- The attribute and then the byte of one address are set. -/
theorem flat_setAttrAt_putByte {mem : Mem} (hsep : mem.Sep) {addr : U32} (hlive : mem.Live addr)
    (a val : U8) :
    ((mem.setAttrAt addr a).putByte addr val).flat = Function.update mem.flat addr ⟨a, val⟩ := by
  rw [flat_putByte (hsep.congr (hostLoc_setAttrAt hlive a)) (hlive.setAttrAt hlive a),
    flat_setAttrAt hlive, Function.update_self, Function.update_idem]

theorem attr_setAttrAt_putByte {mem : Mem} {addr : U32} (hlive : mem.Live addr) (a val : U8)
    (b : U32) :
    (((mem.setAttrAt addr a).putByte addr val).flat b).attr =
      (Function.update mem.flat addr (⟨a, val⟩ : Cell) b).attr := by
  rw [attr_putByte (hlive.setAttrAt hlive a), flat_setAttrAt hlive]
  by_cases hb : b = addr
  · rw [hb, Function.update_self, Function.update_self]
  · rw [Function.update_of_ne hb, Function.update_of_ne hb]

/-- `vm_w_byte` and `vm_w_byte_noperm` store through the page whose attribute they have set. -/
theorem store_setAttr {mem : Mem} {addr : U32} (hlive : mem.Live addr) (a val : U8) :
    (mem.putPage addr ((mem.pageAt addr).setAttr (pageIdx addr) a)).store addr
      ((mem.pageAt addr).setAttr (pageIdx addr) a) (pageIdx addr) val =
      (mem.setAttrAt addr a).putByte addr val := by
  unfold Mem.putByte Mem.storeAt
  rw [pageAt_setAttrAt hlive]
  rfl

/-- The byte that is stored by a rule that sets the attribute to `a`. -/
theorem acts_store {rule : Rule} (hstores : ¬ KeepsData rule) {m : Mem} {addr : U32}
    (hlive : m.Live addr) {a val : U8} (hrule : rule val (m.flat addr) = ((val, false), ⟨a, val⟩)) :
    Acts rule [(addr, val)] m [val] ((m.setAttrAt addr a).putByte addr val) := by
  have hlive' := hlive.setAttrAt hlive a
  refine acts_single ?_ ?_ ?_ ?_ ?_
  · rw [hostLoc_putByte hlive', hostLoc_setAttrAt hlive]
  · rw [hrule]
  · intro b
    rw [hrule]
    exact attr_setAttrAt_putByte hlive a val b
  · intro hs
    rw [hrule]
    exact flat_setAttrAt_putByte (hs.sep hstores) hlive a val
  · rw [hrule, invalid_putByte hlive', Bool.or_false]
    rfl

theorem acts_writeByte (mem : Mem) (addr : U32) (val : U8) :
    Acts Cell.write [(addr, val)] mem [val] (vmWByte mem addr val) := by
  obtain ⟨m, hget, hlive, hflat, hinv, hloc⟩ := vmGetPage_spec mem addr
  obtain ⟨hattr, _⟩ := pageAt_cell hlive
  refine Acts.congr ?_ hflat hinv hloc
  unfold vmWByte
  rw [hget]
  dsimp only
  rw [hattr]
  by_cases hperm : (m.flat addr).attr.has permW = true
  · rw [if_pos hperm, store_setAttr hlive]
    apply acts_store not_keepsData_write hlive
    rw [Cell.write, if_pos hperm]
  · rw [if_neg hperm]
    have hrule : Cell.write val (m.flat addr) =
        ((val, true), { m.flat addr with attr := (m.flat addr).attr ||| accInvalid }) := by
      rw [Cell.write, if_neg hperm]
    refine acts_single_attr (hostLoc_setAttrAt hlive _) ?_ ?_ ?_
    · rw [hrule]
    · rw [hrule]
      exact flat_setAttrAt hlive _
    · rw [hrule, Bool.or_true]
      rfl

theorem acts_writeNoperm (mem : Mem) (addr : U32) (val : U8) :
    Acts Cell.writeNoperm [(addr, val)] mem [val] (vmWByteNoperm mem addr val) := by
  obtain ⟨m, hget, hlive, hflat, hinv, hloc⟩ := vmGetPage_spec mem addr
  obtain ⟨hattr, _⟩ := pageAt_cell hlive
  refine Acts.congr ?_ hflat hinv hloc
  unfold vmWByteNoperm
  rw [hget]
  dsimp only
  rw [hattr, store_setAttr hlive]
  exact acts_store not_keepsData_writeNoperm hlive rfl

/-! ## The slow paths -/

/-- Two byte accesses one after the other. -/
theorem Acts.two {rule : Rule} [AttrOnly rule] {mem mem₁ mem₂ : Mem} {a₀ a₁ : U32}
    {d₀ d₁ v₀ v₁ : U8} (h₀ : Acts rule [(a₀, d₀)] mem [v₀] mem₁)
    (h₁ : Acts rule [(a₁, d₁)] mem₁ [v₁] mem₂) :
    Acts rule [(a₀, d₀), (a₁, d₁)] mem [v₀, v₁] mem₂ := h₀.append h₁

/-! ## Several attributes and bytes -/

/-- The attributes of a list of addresses are set. -/
def Mem.setAttrs (mem : Mem) (l : List (U32 × U8)) : Mem :=
  l.foldl (fun m p => m.setAttrAt p.1 p.2) mem

/-- The bytes of a list of addresses are stored. -/
def Mem.putBytes (mem : Mem) (l : List (U32 × U8)) : Mem :=
  l.foldl (fun m p => m.putByte p.1 p.2) mem

section Several

variable {mem : Mem} {l : List (U32 × U8)}

theorem setAttrs_spec (hlive : ∀ p ∈ l, mem.Live p.1) :
    (mem.setAttrs l).invalid = mem.invalid ∧
      (mem.setAttrs l).hostLoc = mem.hostLoc ∧ (∀ b, mem.Live b → (mem.setAttrs l).Live b) ∧
      (mem.setAttrs l).flat = (onCells (fun a c => ((), { c with attr := a })) l mem.flat).2 := by
  induction l generalizing mem with
  | nil => exact ⟨rfl, rfl, fun _ hb => hb, rfl⟩
  | cons p l ih =>
    have hp := hlive p List.mem_cons_self
    have hl : ∀ q ∈ l, (mem.setAttrAt p.1 p.2).Live q.1 := fun q hq =>
      (hlive q (List.mem_cons_of_mem _ hq)).setAttrAt hp p.2
    obtain ⟨hinv, hloc, hb, hflat⟩ := ih hl
    refine ⟨hinv, hloc.trans (hostLoc_setAttrAt hp p.2),
      fun b hbl => hb b (hbl.setAttrAt hp p.2), ?_⟩
    rw [flat_setAttrAt hp] at hflat
    rw [onCells_cons]
    exact hflat

theorem putBytes_spec (hlive : ∀ p ∈ l, mem.Live p.1) :
    (mem.putBytes l).invalid = mem.invalid ∧
      (mem.putBytes l).hostLoc = mem.hostLoc ∧
      (∀ a, ((mem.putBytes l).flat a).attr = (mem.flat a).attr) ∧
      (mem.Sep → (mem.putBytes l).flat =
        (onCells (fun v c => ((), { c with data := v })) l mem.flat).2) := by
  induction l generalizing mem with
  | nil => exact ⟨rfl, rfl, fun _ => rfl, fun _ => rfl⟩
  | cons p l ih =>
    have hp := hlive p List.mem_cons_self
    have hl : ∀ q ∈ l, (mem.putByte p.1 p.2).Live q.1 := fun q hq =>
      (hlive q (List.mem_cons_of_mem _ hq)).putByte hp p.2
    obtain ⟨hinv, hloc, hattr, hflat⟩ := ih hl
    refine ⟨hinv.trans (invalid_putByte hp p.2), hloc.trans (hostLoc_putByte hp p.2),
      fun a => (hattr a).trans (attr_putByte hp p.2 a), ?_⟩
    intro hs
    have hrest := hflat (hs.congr (hostLoc_putByte hp p.2))
    rw [flat_putByte hs hp] at hrest
    rw [onCells_cons]
    exact hrest

end Several

/-! ## Addresses of one page -/

theorem pageIdx_toNat (a : U32) : (pageIdx a).toNat = a.toNat % 4096 := by
  unfold pageIdx
  rw [BitVec.extractLsb'_toNat, Nat.shiftRight_zero]

/-- The next addresses of a page. -/
theorem samePage_add {addr : U32} {k : Nat} (h : (pageIdx addr).toNat + k < 4096) :
    SamePage addr (addr + BitVec.ofNat 32 k) ∧
      pageIdx (addr + BitVec.ofNat 32 k) = pageIdx addr + BitVec.ofNat 12 k := by
  have haddr := addr.isLt
  rw [pageIdx_toNat] at h
  have hadd : (addr + BitVec.ofNat 32 k).toNat = addr.toNat + k := by
    rw [BitVec.toNat_add, BitVec.toNat_ofNat]
    omega
  refine ⟨⟨?_, ?_⟩, ?_⟩
  · apply BitVec.eq_of_toNat_eq
    unfold pdirIdx
    rw [BitVec.extractLsb'_toNat, BitVec.extractLsb'_toNat, hadd, Nat.shiftRight_eq_div_pow,
      Nat.shiftRight_eq_div_pow]
    omega
  · apply BitVec.eq_of_toNat_eq
    unfold ptableIdx
    rw [BitVec.extractLsb'_toNat, BitVec.extractLsb'_toNat, hadd, Nat.shiftRight_eq_div_pow,
      Nat.shiftRight_eq_div_pow]
    omega
  · apply BitVec.eq_of_toNat_eq
    rw [pageIdx_toNat, hadd, BitVec.toNat_add, pageIdx_toNat, BitVec.toNat_ofNat]
    omega

theorem addrBytes_two {w : Nat} (addr : U32) (x : BitVec w) :
    addrBytes 2 addr x = [(addr, x.extractLsb' 0 8), (addr + 1, x.extractLsb' 8 8)] := by
  show [(addr + 0#32, _), _] = _
  rw [BitVec.add_zero]
  rfl

theorem addrBytes_four {w : Nat} (addr : U32) (x : BitVec w) :
    addrBytes 4 addr x = [(addr, x.extractLsb' 0 8), (addr + 1, x.extractLsb' 8 8),
      (addr + 2, x.extractLsb' 16 8), (addr + 3, x.extractLsb' 24 8)] := by
  show [(addr + 0#32, _), _, _, _] = _
  rw [BitVec.add_zero]
  rfl

theorem live_samePage {mem : Mem} {a b : U32} (h : mem.Live a) (hs : SamePage a b) :
    mem.Live b := by
  unfold Mem.Live
  rw [← entry_congr mem hs]
  exact h

/-! ## Packed attributes -/

/-- A part of a part. -/
theorem extract_extract {w : Nat} (x : BitVec w) (s t : Nat) {n m : Nat} (h : t + m ≤ n) :
    (x.extractLsb' s n).extractLsb' t m = x.extractLsb' (s + t) m := by
  ext i hi
  rw [BitVec.getElem_extractLsb', BitVec.getElem_extractLsb', BitVec.getLsbD_extractLsb',
    Nat.add_assoc]
  have hlt : t + i < n := by omega
  rw [decide_eq_true hlt, Bool.true_and]

theorem append_inj {v w : Nat} {x x' : BitVec v} {y y' : BitVec w} :
    x ++ y = x' ++ y' ↔ x = x' ∧ y = y' := by
  constructor
  · intro h
    have hx := congrArg (BitVec.extractLsb' w v) h
    have hy := congrArg (BitVec.extractLsb' 0 w) h
    rw [BitVec.extractLsb'_append_eq_left, BitVec.extractLsb'_append_eq_left] at hx
    rw [BitVec.extractLsb'_append_eq_right, BitVec.extractLsb'_append_eq_right] at hy
    exact ⟨hx, hy⟩
  · rintro ⟨rfl, rfl⟩
    rfl

/-- All bits of `m` are set. -/
def U8.hasAll (a m : U8) : Prop := a &&& m = m

/-- The packed test of two attributes is the test of each. -/
theorem perm16_test (a₀ a₁ m : U8) :
    (a₁ ++ a₀) &&& perm16 m = perm16 m ↔ a₁.hasAll m ∧ a₀.hasAll m := by
  unfold perm16
  rw [BitVec.and_append, append_inj]
  rfl

/-- The packed test of four attributes is the test of each. -/
theorem perm32_test (a₀ a₁ a₂ a₃ m : U8) :
    ((a₃ ++ a₂) ++ (a₁ ++ a₀)) &&& perm32 m = perm32 m ↔
      (a₃.hasAll m ∧ a₂.hasAll m) ∧ a₁.hasAll m ∧ a₀.hasAll m := by
  unfold perm32
  rw [BitVec.and_append, append_inj]
  show (a₃ ++ a₂) &&& perm16 m = perm16 m ∧ (a₁ ++ a₀) &&& perm16 m = perm16 m ↔ _
  rw [perm16_test, perm16_test]

/-- The bytes of two packed bytes. -/
theorem addrBytes_append₂ (addr : U32) (b₀ b₁ : U8) :
    addrBytes 2 addr (b₁ ++ b₀) = [(addr, b₀), (addr + 1, b₁)] := by
  rw [addrBytes_two, BitVec.extractLsb'_append_eq_right, BitVec.extractLsb'_append_eq_left]

/-- The bytes of four packed bytes. -/
theorem addrBytes_append₄ (addr : U32) (b₀ b₁ b₂ b₃ : U8) :
    addrBytes 4 addr ((b₃ ++ b₂) ++ (b₁ ++ b₀)) =
      [(addr, b₀), (addr + 1, b₁), (addr + 2, b₂), (addr + 3, b₃)] := by
  rw [addrBytes_four, BitVec.extractLsb'_append_eq_of_add_le (by decide),
    BitVec.extractLsb'_append_eq_right, BitVec.extractLsb'_append_eq_of_add_le (by decide),
    BitVec.extractLsb'_append_eq_left, BitVec.extractLsb'_append_eq_of_le (by decide),
    BitVec.extractLsb'_append_eq_of_add_le (by decide),
    BitVec.extractLsb'_append_eq_of_le (by decide),
    BitVec.extractLsb'_append_eq_of_le (by decide)]
  show [_, _, (_, b₂.extractLsb' 0 8), (_, b₃.extractLsb' 0 8)] = _
  rw [BitVec.extractLsb'_eq_self, BitVec.extractLsb'_eq_self]

/-! ## Wide attribute and data accesses within a page -/

section Wide

variable {mem : Mem} {addr : U32}

theorem pageAt_add {k : Nat} (hk : (pageIdx addr).toNat + k < 4096) :
    mem.pageAt (addr + BitVec.ofNat 32 k) = mem.pageAt addr := by
  unfold Mem.pageAt
  rw [entry_congr mem (samePage_add hk).1]

/-- The attribute of a later byte of the page. -/
theorem attrAt_add (hlive : mem.Live addr) {k : Nat} (hk : (pageIdx addr).toNat + k < 4096) :
    (mem.pageAt addr).attrAt (pageIdx addr + BitVec.ofNat 12 k) =
      (mem.flat (addr + BitVec.ofNat 32 k)).attr := by
  have hs := samePage_add hk
  have hcell := (pageAt_cell (live_samePage hlive hs.1)).1
  rw [hs.2, pageAt_add hk] at hcell
  exact hcell

/-- A later byte of the page. -/
theorem load_add (hlive : mem.Live addr) {k : Nat} (hk : (pageIdx addr).toNat + k < 4096) :
    mem.load (mem.pageAt addr) (pageIdx addr + BitVec.ofNat 12 k) =
      (mem.flat (addr + BitVec.ofNat 32 k)).data := by
  have hs := samePage_add hk
  have hcell := (pageAt_cell (live_samePage hlive hs.1)).2
  rw [hs.2, pageAt_add hk] at hcell
  exact hcell

theorem putPage_putPage (p q : Page) :
    (mem.putPage addr p).putPage addr q = mem.putPage addr q := by
  unfold Mem.putPage
  show ({ mem with pdir := (mem.pdir.map _).map _ } : Mem) = _
  congr 1
  rw [Option.map_map]
  congr 1
  funext pdir
  show Function.update (Function.update pdir _ _) _ (Option.map _ (Function.update pdir _ _ _)) = _
  rw [Function.update_idem, Function.update_self, Option.map_map]
  congr 2
  funext table
  exact Function.update_idem _ _ _

/-- One more attribute of a page that is being replaced. -/
theorem putPage_setAttrAt (hlive : mem.Live addr) (p : Page) {k : Nat}
    (hk : (pageIdx addr).toNat + k < 4096) (a : U8) :
    (mem.putPage addr p).setAttrAt (addr + BitVec.ofNat 32 k) a =
      mem.putPage addr (p.setAttr (pageIdx addr + BitVec.ofNat 12 k) a) := by
  obtain ⟨hentry, _⟩ := hlive.entry
  have hsome : (mem.entry addr).isSome := by rw [hentry]; rfl
  have hs := samePage_add hk
  unfold Mem.setAttrAt
  rw [pageAt_add hk, hs.2, ← putPage_congr _ hs.1, putPage_putPage]
  congr 2
  rw [Mem.pageAt, entry_putPage hsome, if_pos ⟨rfl, rfl⟩]
  rfl

theorem putPage_setAttr16 (hlive : mem.Live addr) (hk : (pageIdx addr).toNat + 1 < 4096)
    (x : U16) :
    mem.putPage addr ((mem.pageAt addr).setAttr16 (pageIdx addr) x) =
      mem.setAttrs (addrBytes 2 addr x) := by
  rw [addrBytes_two]
  exact (putPage_setAttrAt hlive _ hk _).symm

theorem putPage_setAttr32 (hlive : mem.Live addr) (hk : (pageIdx addr).toNat + 3 < 4096)
    (x : U32) :
    mem.putPage addr ((mem.pageAt addr).setAttr32 (pageIdx addr) x) =
      mem.setAttrs (addrBytes 4 addr x) := by
  have h₁ := putPage_setAttrAt hlive ((mem.pageAt addr).setAttr (pageIdx addr)
    (x.extractLsb' 0 8)) (k := 1) (by omega) (x.extractLsb' 8 8)
  have h₂ := putPage_setAttrAt hlive (((mem.pageAt addr).setAttr (pageIdx addr)
    (x.extractLsb' 0 8)).setAttr (pageIdx addr + BitVec.ofNat 12 1) (x.extractLsb' 8 8))
    (k := 2) (by omega) (x.extractLsb' 16 8)
  have h₃ := putPage_setAttrAt hlive ((((mem.pageAt addr).setAttr (pageIdx addr)
    (x.extractLsb' 0 8)).setAttr (pageIdx addr + BitVec.ofNat 12 1) (x.extractLsb' 8 8)).setAttr
    (pageIdx addr + BitVec.ofNat 12 2) (x.extractLsb' 16 8)) (k := 3) hk (x.extractLsb' 24 8)
  rw [addrBytes_four]
  show _ = (((mem.putPage addr _).setAttrAt (addr + BitVec.ofNat 32 1) _).setAttrAt
    (addr + BitVec.ofNat 32 2) _).setAttrAt (addr + BitVec.ofNat 32 3) _
  rw [h₁, h₂, h₃]
  unfold Page.setAttr32 Page.setAttr16
  simp (disch := decide) only [extract_extract, BitVec.add_assoc]
  rfl

theorem storeAt_add {k : Nat} (hk : (pageIdx addr).toNat + k < 4096) (v : U8) :
    mem.storeAt addr (pageIdx addr + BitVec.ofNat 12 k) v =
      mem.putByte (addr + BitVec.ofNat 32 k) v := by
  have hs := samePage_add hk
  unfold Mem.putByte Mem.storeAt Mem.store
  rw [pageAt_add hk, hs.2]
  simp only [putPage_congr _ hs.1]

theorem store16_eq (hk : (pageIdx addr).toNat + 1 < 4096) (x : U16) :
    mem.store16 addr (pageIdx addr) x = mem.putBytes (addrBytes 2 addr x) := by
  rw [addrBytes_two]
  exact storeAt_add hk _

theorem store32_eq (hk : (pageIdx addr).toNat + 3 < 4096) (x : U32) :
    mem.store32 addr (pageIdx addr) x = mem.putBytes (addrBytes 4 addr x) := by
  rw [addrBytes_four]
  unfold Mem.store32 Mem.store16
  simp (disch := decide) only [extract_extract, BitVec.add_assoc]
  show Mem.storeAt (Mem.storeAt (Mem.storeAt _ addr (pageIdx addr + BitVec.ofNat 12 1) _) addr
    (pageIdx addr + BitVec.ofNat 12 2) _) addr (pageIdx addr + BitVec.ofNat 12 3) _ = _
  rw [storeAt_add hk, storeAt_add (by omega), storeAt_add (by omega)]
  rfl

end Wide

/-! ## The fast paths -/

theorem fetch_ready {c : Cell} (h : c.attr.hasAll (permR ||| permValid)) :
    Cell.fetch permR accRead c =
      ((c.data, false), { c with attr := c.attr ||| accRead }) := by
  have hbits : ∀ a : U8, a &&& (permR ||| permValid) = permR ||| permValid →
      a.has permR = true ∧ (a ||| accRead).has permValid = true := by decide
  obtain ⟨hperm, hvalid⟩ := hbits c.attr h
  rw [Cell.fetch, if_pos hperm, if_pos hvalid]

theorem write_ready {c : Cell} (h : c.attr.hasAll permW) (v : U8) :
    Cell.write v c = ((v, false), ⟨c.attr ||| (permValid ||| accWrite), v⟩) := by
  have hbits : ∀ a : U8, a &&& permW = permW → a.has permW = true := by decide
  rw [Cell.write, if_pos (hbits c.attr h)]

/-- The attributes of `n` addresses with the bits of `m` added. -/
def addrAttrs (mem : Mem) (n : Nat) (addr : U32) (m : U8) : List (U32 × U8) :=
  (addrs n addr).map fun a => (a, (mem.flat a).attr ||| m)

section Fast

variable {mem : Mem} {addr : U32} {n : Nat}

theorem map_fst_addrAttrs (m : U8) : (addrAttrs mem n addr m).map Prod.fst = addrs n addr := by
  unfold addrAttrs
  rw [List.map_map]
  exact List.map_id _

theorem mem_addrAttrs {a : U32} (ha : a ∈ addrs n addr) (m : U8) :
    (a, (mem.flat a).attr ||| m) ∈ addrAttrs mem n addr m := List.mem_map.mpr ⟨a, ha, rfl⟩

theorem live_addrs (hlive : mem.Live addr) (hn : (pageIdx addr).toNat + n ≤ 4096) :
    ∀ a ∈ addrs n addr, mem.Live a := by
  intro a ha
  obtain ⟨i, hi, rfl⟩ := List.mem_map.mp ha
  rw [List.mem_range] at hi
  exact live_samePage hlive (samePage_add (by omega)).1

/-- The cells after the attributes of an access within a page have been set. -/
theorem setAttrs_addrAttrs (hlive : mem.Live addr) (hn : n ≤ 4)
    (hidx : (pageIdx addr).toNat + n ≤ 4096) (m : U8) :
    (mem.setAttrs (addrAttrs mem n addr m)).invalid = mem.invalid ∧
      (mem.setAttrs (addrAttrs mem n addr m)).hostLoc = mem.hostLoc ∧
      (∀ b, mem.Live b → (mem.setAttrs (addrAttrs mem n addr m)).Live b) ∧
      (∀ a ∈ addrs n addr, (mem.setAttrs (addrAttrs mem n addr m)).flat a =
        { mem.flat a with attr := (mem.flat a).attr ||| m }) ∧
      ∀ a, a ∉ addrs n addr → (mem.setAttrs (addrAttrs mem n addr m)).flat a = mem.flat a := by
  have hl : ∀ p ∈ addrAttrs mem n addr m, mem.Live p.1 := by
    intro p hp
    obtain ⟨a, ha, rfl⟩ := List.mem_map.mp hp
    exact live_addrs hlive hidx a ha
  obtain ⟨hinv, hloc, hlive', hflat⟩ := setAttrs_spec hl
  have hnodup : ((addrAttrs mem n addr m).map Prod.fst).Nodup := by
    rw [map_fst_addrAttrs]
    exact addrs_nodup hn addr
  refine ⟨hinv, hloc, hlive', ?_, ?_⟩
  · intro a ha
    rw [hflat, onCells_mem _ hnodup mem.flat (mem_addrAttrs ha m)]
  · intro a ha
    rw [hflat, onCells_frame]
    rw [map_fst_addrAttrs]
    exact ha

theorem acts_fastRead (hlive : mem.Live addr) (hn : n ≤ 4)
    (hidx : (pageIdx addr).toNat + n ≤ 4096)
    (hready : ∀ a ∈ addrs n addr, (mem.flat a).attr.hasAll (permR ||| permValid))
    {w : Nat} (x : BitVec w) :
    Acts (fun _ => Cell.fetch permR accRead) (addrBytes n addr x) mem
      ((addrs n addr).map fun a => (mem.flat a).data)
      (mem.setAttrs (addrAttrs mem n addr accRead)) := by
  obtain ⟨hinv, hloc, _, hset, hframe⟩ := setAttrs_addrAttrs hlive hn hidx accRead
  have haddr : ∀ p ∈ addrBytes n addr x, p.1 ∈ addrs n addr := by
    intro p hp
    rw [← map_fst_addrBytes n addr x]
    exact List.mem_map_of_mem hp
  have hcell : ∀ p ∈ addrBytes n addr x,
      (mem.setAttrs (addrAttrs mem n addr accRead)).flat p.1 =
        (Cell.fetch permR accRead (mem.flat p.1)).2 := by
    intro p hp
    rw [fetch_ready (hready p.1 (haddr p hp))]
    exact hset p.1 (haddr p hp)
  have hcells : ∀ a, a ∉ (addrBytes n addr x).map Prod.fst →
      (mem.setAttrs (addrAttrs mem n addr accRead)).flat a = mem.flat a := by
    intro a ha
    rw [map_fst_addrBytes] at ha
    exact hframe a ha
  refine Acts.of_cells hloc ?_ hinv ?_ ?_ ?_ ?_ (fun _ => hcell) (fun _ => hcells)
  · rw [map_fst_addrBytes]
    exact addrs_nodup hn addr
  · rw [← map_fst_addrBytes n addr x, List.map_map]
    apply List.map_congr_left
    intro p hp
    rw [fetch_ready (hready p.1 (haddr p hp))]
    rfl
  · intro p hp
    rw [fetch_ready (hready p.1 (haddr p hp))]
  · intro p hp
    rw [hcell p hp]
  · intro a ha
    rw [hcells a ha]

theorem acts_fastWrite (hlive : mem.Live addr) (hn : n ≤ 4)
    (hidx : (pageIdx addr).toNat + n ≤ 4096)
    (hready : ∀ a ∈ addrs n addr, (mem.flat a).attr.hasAll permW) {w : Nat} (x : BitVec w) :
    Acts Cell.write (addrBytes n addr x) mem ((addrBytes n addr x).map Prod.snd)
      ((mem.setAttrs (addrAttrs mem n addr (permValid ||| accWrite))).putBytes
        (addrBytes n addr x)) := by
  obtain ⟨hinv, hloc, hlive', hset, hframe⟩ :=
    setAttrs_addrAttrs hlive hn hidx (permValid ||| accWrite)
  have haddr : ∀ p ∈ addrBytes n addr x, p.1 ∈ addrs n addr := by
    intro p hp
    rw [← map_fst_addrBytes n addr x]
    exact List.mem_map_of_mem hp
  have hnodup : ((addrBytes n addr x).map Prod.fst).Nodup := by
    rw [map_fst_addrBytes]
    exact addrs_nodup hn addr
  obtain ⟨hinv₂, hloc₂, hattr₂, hflat₂⟩ := putBytes_spec
    (fun p hp => hlive' p.1 (live_addrs hlive hidx p.1 (haddr p hp)))
  refine Acts.of_cells (hloc₂.trans hloc) hnodup (hinv₂.trans hinv) ?_ ?_ ?_ ?_ ?_ ?_
  · apply List.map_congr_left
    intro p hp
    rw [write_ready (hready p.1 (haddr p hp))]
  · intro p hp
    rw [write_ready (hready p.1 (haddr p hp))]
  · intro p hp
    rw [hattr₂, hset p.1 (haddr p hp), write_ready (hready p.1 (haddr p hp))]
  · intro a ha
    rw [map_fst_addrBytes] at ha
    rw [hattr₂, hframe a ha]
  · intro hs p hp
    rw [write_ready (hready p.1 (haddr p hp)), hflat₂ ((hs.sep not_keepsData_write).congr hloc),
      onCells_mem _ hnodup _ (a := p.1) (d := p.2) hp, hset p.1 (haddr p hp)]
  · intro hs a ha
    rw [hflat₂ ((hs.sep not_keepsData_write).congr hloc), onCells_frame _ _ _ ha]
    rw [map_fst_addrBytes] at ha
    exact hframe a ha

end Fast

end X86Emu
