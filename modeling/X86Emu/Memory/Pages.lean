import X86Emu.Memory.Flat

/-!
# The cells of the paged memory

`Mem.flat` is the flat memory a paged memory stands for: a page that is not allocated has its
default attribute and zeros. Creating a page does not change it, and setting one attribute or
storing one byte changes one cell, when no two cells lie at the same address of the host.
-/

namespace X86Emu

/-! ## The flat view -/

/-- The byte of a page. -/
def Page.byteAt (host : Nat → U8) (p : Page) (i : BitVec 12) : U8 :=
  match p.alloc with
  | none => 0
  | some q =>
    match q.data with
    | .own => q.own i
    | .host a => host (a + i.toNat)

/-- The flat memory of a paged one. -/
def Mem.flat (mem : Mem) : Flat := fun addr =>
  match mem.entry addr with
  | none => ⟨mem.defAttr, 0⟩
  | some p => ⟨p.attrAt (pageIdx addr), p.byteAt mem.host (pageIdx addr)⟩

/-- The place of a page's byte in the host's memory, if it is mapped there. -/
def Page.hostLoc (p : Page) (i : BitVec 12) : Option Nat :=
  p.alloc.bind fun q =>
    match q.data with
    | .own => none
    | .host a => some (a + i.toNat)

def Mem.hostLoc (mem : Mem) (addr : U32) : Option Nat :=
  (mem.entry addr).bind fun p => p.hostLoc (pageIdx addr)

/-- No two bytes lie at one place of the host. -/
def Mem.Sep (mem : Mem) : Prop :=
  ∀ a b n, mem.hostLoc a = some n → mem.hostLoc b = some n → a = b

/-- An allocated page. -/
def Page.Live (p : Page) : Prop := p.alloc.isSome

/-- The page of an address is allocated. -/
def Mem.Live (mem : Mem) (addr : U32) : Prop := ∃ p, mem.entry addr = some p ∧ p.Live

theorem Page.Live.exists {p : Page} (h : p.Live) : ∃ q, p.alloc = some q :=
  Option.isSome_iff_exists.mp h

theorem Mem.Live.entry {mem : Mem} {addr : U32} (h : mem.Live addr) :
    mem.entry addr = some (mem.pageAt addr) ∧ (mem.pageAt addr).Live := by
  obtain ⟨p, hp, hlive⟩ := h
  unfold Mem.pageAt
  rw [hp]
  exact ⟨rfl, hlive⟩

theorem flat_of_entry {mem : Mem} {addr : U32} {p : Page} (h : mem.entry addr = some p) :
    mem.flat addr = ⟨p.attrAt (pageIdx addr), p.byteAt mem.host (pageIdx addr)⟩ := by
  unfold Mem.flat
  rw [h]

theorem load_eq_byteAt (p : Page) (mem : Mem) (i : BitVec 12) :
    mem.load p i = p.byteAt mem.host i := rfl

/-! ## Addresses -/

/-- The two addresses lie in one page. -/
def SamePage (a b : U32) : Prop := pdirIdx a = pdirIdx b ∧ ptableIdx a = ptableIdx b

instance (a b : U32) : Decidable (SamePage a b) := inferInstanceAs (Decidable (_ ∧ _))

theorem addr_eq_append (a : U32) : a = pdirIdx a ++ ptableIdx a ++ pageIdx a := by
  unfold pdirIdx ptableIdx pageIdx
  have h₁ : a.extractLsb' 22 10 ++ a.extractLsb' 12 10 = a.extractLsb' 12 20 :=
    BitVec.extractLsb'_append_extractLsb'_eq_extractLsb' rfl
  have h₂ : a.extractLsb' 12 20 ++ a.extractLsb' 0 12 = a.extractLsb' 0 32 :=
    BitVec.extractLsb'_append_extractLsb'_eq_extractLsb' rfl
  rw [h₁, h₂, BitVec.extractLsb'_eq_self]

theorem SamePage.eq_iff {a b : U32} (h : SamePage a b) : a = b ↔ pageIdx a = pageIdx b := by
  constructor
  · intro hab
    rw [hab]
  · intro hidx
    rw [addr_eq_append a, addr_eq_append b, h.1, h.2, hidx]

/-! ## Table entries -/

theorem entry_congr (mem : Mem) {a b : U32} (h : SamePage a b) : mem.entry a = mem.entry b := by
  unfold Mem.entry
  rw [h.1, h.2]

theorem putPage_congr (mem : Mem) {a b : U32} (h : SamePage a b) (p : Page) :
    mem.putPage a p = mem.putPage b p := by
  unfold Mem.putPage
  rw [h.1, h.2]

theorem entry_putPage {mem : Mem} {addr : U32} (h : (mem.entry addr).isSome) (p : Page) (b : U32) :
    (mem.putPage addr p).entry b = if SamePage addr b then some p else mem.entry b := by
  unfold Mem.entry at h
  unfold Mem.entry Mem.putPage
  cases hpdir : mem.pdir with
  | none =>
    rw [hpdir] at h
    cases h
  | some pdir =>
    rw [hpdir] at h
    show ((Function.update pdir (pdirIdx addr) _) (pdirIdx b)).map _ = _
    by_cases hd : pdirIdx b = pdirIdx addr
    · rw [hd, Function.update_self]
      cases htab : pdir (pdirIdx addr) with
      | none =>
        simp only [Option.bind_some, htab] at h
        cases h
      | some table =>
        show some (Function.update table (ptableIdx addr) p (ptableIdx b)) = _
        by_cases ht : ptableIdx b = ptableIdx addr
        · rw [ht, Function.update_self, if_pos ⟨hd.symm, ht.symm⟩]
        · rw [Function.update_of_ne ht, if_neg (fun hs => ht hs.2.symm)]
          simp only [Option.bind_some, htab, Option.map_some]
    · rw [Function.update_of_ne hd, if_neg (fun hs => hd hs.1.symm)]
      rfl

theorem entry_withTable (mem : Mem) (addr b : U32) :
    (mem.withTable addr).entry b =
      if pdirIdx b = pdirIdx addr then some ((mem.entry b).getD { defAttr := mem.defAttr })
      else mem.entry b := by
  unfold Mem.entry Mem.withTable
  show ((Function.update (mem.pdir.getD fun _ => none) (pdirIdx addr) _) (pdirIdx b)).map _ = _
  by_cases hd : pdirIdx b = pdirIdx addr
  · rw [hd, Function.update_self, if_pos rfl]
    cases hpdir : mem.pdir with
    | none => rfl
    | some pdir =>
      show some _ = some _
      cases htab : pdir (pdirIdx addr) with
      | none => simp [htab]
      | some table => simp [htab]
  · rw [Function.update_of_ne hd, if_neg hd]
    cases mem.pdir with
    | none => rfl
    | some pdir => rfl

/-! ## Creating a page -/

theorem attrAt_create (p : Page) : p.create.attrAt = p.attrAt := by
  funext i
  unfold Page.create Page.attrAt
  cases hp : p.alloc with
  | none => rfl
  | some q => simp only [hp]

theorem byteAt_create (p : Page) (host : Nat → U8) : p.create.byteAt host = p.byteAt host := by
  funext i
  unfold Page.create Page.byteAt
  cases hp : p.alloc with
  | none => rfl
  | some q => simp only [hp]

theorem hostLoc_create (p : Page) : p.create.hostLoc = p.hostLoc := by
  funext i
  unfold Page.create Page.hostLoc
  cases hp : p.alloc with
  | none => rfl
  | some q => simp only [hp]

theorem create_live (p : Page) : p.create.Live := by
  unfold Page.create Page.Live
  cases hp : p.alloc with
  | none => rfl
  | some q => simp only [hp, Option.isSome_some]

theorem flat_withTable (mem : Mem) (addr : U32) : (mem.withTable addr).flat = mem.flat := by
  funext b
  unfold Mem.flat
  rw [entry_withTable]
  by_cases hd : pdirIdx b = pdirIdx addr
  · rw [if_pos hd]
    cases mem.entry b <;> rfl
  · rw [if_neg hd]
    rfl

theorem hostLoc_withTable (mem : Mem) (addr : U32) :
    (mem.withTable addr).hostLoc = mem.hostLoc := by
  funext b
  unfold Mem.hostLoc
  rw [entry_withTable]
  by_cases hd : pdirIdx b = pdirIdx addr
  · rw [if_pos hd]
    cases mem.entry b <;> rfl
  · rw [if_neg hd]

/-! ## Replacing a page -/

section PutPage

variable {mem : Mem} {addr : U32} {old new : Page}

/-- Only the cells of the page are looked at again. -/
theorem flat_putPage (hold : mem.entry addr = some old) (b : U32) :
    (mem.putPage addr new).flat b =
      if SamePage addr b then ⟨new.attrAt (pageIdx b), new.byteAt mem.host (pageIdx b)⟩
      else mem.flat b := by
  have hsome : (mem.entry addr).isSome := by rw [hold]; rfl
  unfold Mem.flat
  rw [entry_putPage hsome]
  by_cases hs : SamePage addr b
  · rw [if_pos hs, if_pos hs]
    rfl
  · rw [if_neg hs, if_neg hs]
    rfl

theorem hostLoc_putPage (hold : mem.entry addr = some old) (hloc : new.hostLoc = old.hostLoc) :
    (mem.putPage addr new).hostLoc = mem.hostLoc := by
  have hsome : (mem.entry addr).isSome := by rw [hold]; rfl
  funext b
  unfold Mem.hostLoc
  rw [entry_putPage hsome]
  by_cases hs : SamePage addr b
  · rw [if_pos hs, ← entry_congr mem hs, hold, Option.bind_some, Option.bind_some, hloc]
  · rw [if_neg hs]

theorem Mem.Live.putPage {b : U32} (hb : mem.Live b) (haddr : mem.entry addr = some old)
    (hnew : new.Live) : (mem.putPage addr new).Live b := by
  have hsome : (mem.entry addr).isSome := by rw [haddr]; rfl
  unfold Mem.Live
  rw [entry_putPage hsome]
  by_cases hs : SamePage addr b
  · rw [if_pos hs]
    exact ⟨new, rfl, hnew⟩
  · rw [if_neg hs]
    exact hb

end PutPage

/-- `vm_get_page` with `create` set allocates the page and changes no cell. -/
theorem vmGetPage_spec (mem : Mem) (addr : U32) :
    ∃ m, vmGetPage mem addr true = (m.pageAt addr, m) ∧ m.Live addr ∧ m.flat = mem.flat ∧
      m.invalid = mem.invalid ∧ m.hostLoc = mem.hostLoc := by
  have hentry : (mem.withTable addr).entry addr = some ((mem.withTable addr).pageAt addr) := by
    unfold Mem.pageAt
    rw [entry_withTable, if_pos rfl]
    rfl
  have hsome : ((mem.withTable addr).entry addr).isSome := by rw [hentry]; rfl
  have hnew := entry_putPage hsome ((mem.withTable addr).pageAt addr).create addr
  rw [if_pos ⟨rfl, rfl⟩] at hnew
  refine ⟨(mem.withTable addr).putPage addr ((mem.withTable addr).pageAt addr).create, ?_,
    ⟨_, hnew, create_live _⟩, ?_, rfl, ?_⟩
  · have hpage : ((mem.withTable addr).putPage addr
        ((mem.withTable addr).pageAt addr).create).pageAt addr =
        ((mem.withTable addr).pageAt addr).create := by
      unfold Mem.pageAt
      rw [show ((mem.withTable addr).entry addr).getD {} =
        (mem.withTable addr).pageAt addr from rfl,
        hnew]
      rfl
    rw [hpage]
    rfl
  · rw [← flat_withTable mem addr]
    funext b
    rw [flat_putPage hentry]
    by_cases hs : SamePage addr b
    · rw [if_pos hs, attrAt_create, byteAt_create]
      rw [entry_congr _ hs] at hentry
      exact (flat_of_entry hentry).symm
    · rw [if_neg hs]
  · rw [hostLoc_putPage hentry (hostLoc_create _), hostLoc_withTable]

/-! ## One attribute and one byte -/

/-- `page->attr[page_idx] = a` for the page of an address. -/
def Mem.setAttrAt (mem : Mem) (addr : U32) (a : U8) : Mem :=
  mem.putPage addr ((mem.pageAt addr).setAttr (pageIdx addr) a)

theorem attrAt_setAttr {p : Page} (hp : p.Live) (i : BitVec 12) (a : U8) :
    (p.setAttr i a).attrAt = Function.update p.attrAt i a := by
  obtain ⟨q, hq⟩ := hp.exists
  funext j
  unfold Page.setAttr Page.attrAt
  simp only [hq, Option.map_some]

theorem byteAt_setAttr (p : Page) (i : BitVec 12) (a : U8) (host : Nat → U8) :
    (p.setAttr i a).byteAt host = p.byteAt host := by
  funext j
  unfold Page.setAttr Page.byteAt
  cases p.alloc <;> rfl

theorem hostLoc_setAttr (p : Page) (i : BitVec 12) (a : U8) :
    (p.setAttr i a).hostLoc = p.hostLoc := by
  funext j
  unfold Page.setAttr Page.hostLoc
  cases p.alloc <;> rfl

theorem Page.Live.setAttr {p : Page} (hp : p.Live) (i : BitVec 12) (a : U8) :
    (p.setAttr i a).Live := by
  unfold Page.setAttr Page.Live
  rw [Option.isSome_map]
  exact hp

section SetAttrAt

variable {mem : Mem} {addr : U32}

theorem flat_setAttrAt (hlive : mem.Live addr) (a : U8) :
    (mem.setAttrAt addr a).flat =
      Function.update mem.flat addr { mem.flat addr with attr := a } := by
  obtain ⟨hentry, hp⟩ := hlive.entry
  funext b
  unfold Mem.setAttrAt
  rw [flat_putPage hentry, attrAt_setAttr hp, byteAt_setAttr]
  by_cases hb : b = addr
  · subst hb
    rw [if_pos ⟨rfl, rfl⟩, Function.update_self, Function.update_self, flat_of_entry hentry]
  · rw [Function.update_of_ne hb]
    by_cases hs : SamePage addr b
    · have hidx : pageIdx b ≠ pageIdx addr := by
        intro hidx
        exact hb (hs.eq_iff.mpr hidx.symm).symm
      rw [if_pos hs, Function.update_of_ne hidx]
      rw [entry_congr _ hs] at hentry
      exact (flat_of_entry hentry).symm
    · rw [if_neg hs]

theorem hostLoc_setAttrAt (hlive : mem.Live addr) (a : U8) :
    (mem.setAttrAt addr a).hostLoc = mem.hostLoc :=
  hostLoc_putPage hlive.entry.1 (hostLoc_setAttr _ _ _)

theorem Mem.Live.setAttrAt {b : U32} (hb : mem.Live b) (hlive : mem.Live addr) (a : U8) :
    (mem.setAttrAt addr a).Live b := by
  obtain ⟨hentry, hp⟩ := hlive.entry
  exact hb.putPage hentry (hp.setAttr _ _)

theorem pageAt_setAttrAt (hlive : mem.Live addr) (a : U8) :
    (mem.setAttrAt addr a).pageAt addr = (mem.pageAt addr).setAttr (pageIdx addr) a := by
  obtain ⟨hentry, _⟩ := hlive.entry
  have hsome : (mem.entry addr).isSome := by rw [hentry]; rfl
  unfold Mem.setAttrAt
  rw [Mem.pageAt, entry_putPage hsome, if_pos ⟨rfl, rfl⟩]
  rfl

end SetAttrAt

/-- `page->data[page_idx] = val` for the page of an address. -/
def Mem.putByte (mem : Mem) (addr : U32) (val : U8) : Mem := mem.storeAt addr (pageIdx addr) val

section PutByte

variable {mem : Mem} {addr : U32}

/-- The two cases of a store: the page's own data, or the host's. -/
theorem putByte_cases (hlive : mem.Live addr) (val : U8) :
    ∃ q, (mem.pageAt addr).alloc = some q ∧
      (q.data = .own ∧ mem.putByte addr val = mem.putPage addr { mem.pageAt addr with
        alloc := some { q with own := Function.update q.own (pageIdx addr) val } } ∨
      ∃ a, q.data = .host a ∧ mem.putByte addr val =
        { mem with host := Function.update mem.host (a + (pageIdx addr).toNat) val }) := by
  obtain ⟨q, hq⟩ := hlive.entry.2.exists
  refine ⟨q, hq, ?_⟩
  unfold Mem.putByte Mem.storeAt Mem.store
  rw [hq]
  dsimp only
  cases hdata : q.data with
  | own => exact Or.inl ⟨rfl, by simp only⟩
  | host a => exact Or.inr ⟨a, rfl, rfl⟩

theorem invalid_putByte (hlive : mem.Live addr) (val : U8) :
    (mem.putByte addr val).invalid = mem.invalid := by
  obtain ⟨q, _, ⟨_, heq⟩ | ⟨a, _, heq⟩⟩ := putByte_cases hlive val
  · rw [heq]
    rfl
  · rw [heq]

theorem hostLoc_putByte (hlive : mem.Live addr) (val : U8) :
    (mem.putByte addr val).hostLoc = mem.hostLoc := by
  obtain ⟨q, hq, ⟨_, heq⟩ | ⟨a, _, heq⟩⟩ := putByte_cases hlive val
  · rw [heq]
    apply hostLoc_putPage hlive.entry.1
    funext i
    unfold Page.hostLoc
    simp only [hq, Option.bind_some]
  · rw [heq]
    rfl

theorem attr_putByte (hlive : mem.Live addr) (val : U8) (b : U32) :
    ((mem.putByte addr val).flat b).attr = (mem.flat b).attr := by
  have hentry := hlive.entry.1
  obtain ⟨q, hq, ⟨_, heq⟩ | ⟨a, _, heq⟩⟩ := putByte_cases hlive val
  · rw [heq, flat_putPage hentry]
    by_cases hs : SamePage addr b
    · rw [entry_congr _ hs] at hentry
      rw [if_pos hs, flat_of_entry hentry]
      unfold Page.attrAt
      simp only [hq]
    · rw [if_neg hs]
  · rw [heq]
    unfold Mem.flat
    show (match mem.entry b with | none => _ | some p => _ : Cell).attr = _
    cases mem.entry b <;> rfl

/-- A byte stored in the page's own data. -/
theorem flat_putOwn {q : PageMem} (hlive : mem.Live addr) (hq : (mem.pageAt addr).alloc = some q)
    (hdata : q.data = .own) (val : U8) :
    (mem.putPage addr { mem.pageAt addr with
      alloc := some { q with own := Function.update q.own (pageIdx addr) val } }).flat =
      Function.update mem.flat addr { mem.flat addr with data := val } := by
  have hentry := hlive.entry.1
  funext b
  rw [flat_putPage hentry]
  by_cases hb : b = addr
  · subst hb
    rw [if_pos ⟨rfl, rfl⟩, Function.update_self, flat_of_entry hentry]
    unfold Page.byteAt Page.attrAt
    simp only [hq, hdata, Function.update_self]
  · rw [Function.update_of_ne hb]
    by_cases hs : SamePage addr b
    · have hidx : pageIdx b ≠ pageIdx addr := by
        intro hidx
        exact hb (hs.eq_iff.mpr hidx.symm).symm
      rw [if_pos hs]
      rw [entry_congr _ hs] at hentry
      rw [flat_of_entry hentry]
      unfold Page.byteAt Page.attrAt
      simp only [hq, hdata, Function.update_of_ne hidx]
    · rw [if_neg hs]

/-- A byte stored in the host's memory changes no other cell, as no other lies there. -/
theorem flat_putHost {q : PageMem} (h : mem.Sep) (hlive : mem.Live addr)
    (hq : (mem.pageAt addr).alloc = some q) {a : Nat} (hdata : q.data = .host a) (val : U8) :
    ({ mem with host := Function.update mem.host (a + (pageIdx addr).toNat) val } : Mem).flat =
      Function.update mem.flat addr { mem.flat addr with data := val } := by
  have hentry := hlive.entry.1
  have hloc : mem.hostLoc addr = some (a + (pageIdx addr).toNat) := by
    unfold Mem.hostLoc Page.hostLoc
    simp only [hentry, Option.bind_some, hq, hdata]
  funext b
  by_cases hb : b = addr
  · subst hb
    rw [Function.update_self, flat_of_entry hentry]
    unfold Mem.flat
    show (match mem.entry b with | none => _ | some p => _) = _
    rw [hentry]
    unfold Page.byteAt Page.attrAt
    simp only [hq, hdata, Function.update_self]
  · rw [Function.update_of_ne hb]
    unfold Mem.flat
    show (match mem.entry b with | none => _ | some p => _) = _
    cases hbe : mem.entry b with
    | none => rfl
    | some p =>
      show (⟨_, _⟩ : Cell) = ⟨_, _⟩
      congr 1
      unfold Page.byteAt
      cases hp : p.alloc with
      | none => rfl
      | some r =>
        dsimp only
        cases hr : r.data with
        | own => rfl
        | host x =>
          have hlocb : mem.hostLoc b = some (x + (pageIdx b).toNat) := by
            unfold Mem.hostLoc Page.hostLoc
            simp only [hbe, Option.bind_some, hp, hr]
          have hne : x + (pageIdx b).toNat ≠ a + (pageIdx addr).toNat := by
            intro hx
            rw [hx] at hlocb
            exact hb (h _ _ _ hlocb hloc)
          exact Function.update_of_ne hne _ _

theorem flat_putByte (h : mem.Sep) (hlive : mem.Live addr) (val : U8) :
    (mem.putByte addr val).flat =
      Function.update mem.flat addr { mem.flat addr with data := val } := by
  obtain ⟨q, hq, ⟨hdata, heq⟩ | ⟨a, hdata, heq⟩⟩ := putByte_cases hlive val
  · rw [heq]
    exact flat_putOwn hlive hq hdata val
  · rw [heq]
    exact flat_putHost h hlive hq hdata val

theorem Mem.Live.putByte {b : U32} (hb : mem.Live b) (hlive : mem.Live addr) (val : U8) :
    (mem.putByte addr val).Live b := by
  obtain ⟨q, _, ⟨_, heq⟩ | ⟨a, _, heq⟩⟩ := putByte_cases hlive val
  · rw [heq]
    exact hb.putPage hlive.entry.1 rfl
  · rw [heq]
    exact hb

end PutByte

end X86Emu
