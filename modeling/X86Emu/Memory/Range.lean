import X86Emu.Memory.Acts

/-!
# The permissions of a range

`x86emu_set_perm` works on the rest of the page that `start` lies in, on whole pages, of which it
sets the default attribute, and on the part of the last page up to `end`.
-/

namespace X86Emu

open Lib

/-- `X86EMU_PAGE_SIZE` -/
def pageSize : Nat := 4096

/-- `page->attr[idx] = perm` for the page of address `page` -/
def Mem.setPageAttr (mem : Mem) (page : U32) (idx : Nat) (perm : U8) : Mem :=
  mem.putPage page ((mem.pageAt page).setAttr (BitVec.ofNat 12 idx) perm)

/-- The loop up to the end of the page, with the address at which it stops. -/
def headLoop (page last : U32) (perm : U8) (idx : Nat) (start : U32) (mem : Mem) : U32 × Mem :=
  if idx < pageSize ∧ start ≤ last then
    headLoop page last perm (idx + 1) (start + 1) (mem.setPageAttr page idx perm)
  else (start, mem)
termination_by pageSize - idx

/-- `page->def_attr = perm`, with all attributes when the page is allocated -/
def Page.setDefAttr (page : Page) (perm : U8) : Page :=
  { alloc := page.alloc.map fun p => { p with attr := fun _ => perm }
    defAttr := perm }

/-- A whole page further on, the rest is a page shorter. -/
theorem toNat_rest {last start : U32} (h : pageSize ≤ (last - start).toNat) :
    (last - (start + BitVec.ofNat 32 pageSize)).toNat = (last - start).toNat - pageSize := by
  have hlt := (last - start).isLt
  rw [← BitVec.sub_sub, BitVec.toNat_sub_of_le]
  · rfl
  · exact h

/-- The loop over whole pages; no address when the source returns from within it. -/
def pageLoop (last : U32) (perm : U8) (start : U32) (mem : Mem) : Option U32 × Mem :=
  if pageSize - 1 ≤ (last - start).toNat then
    let (page, mem) := vmGetPage mem start false
    let mem := mem.putPage start (page.setDefAttr perm)
    if start = 0 then (none, mem)
    else if (last - start).toNat = pageSize - 1 then
      (some (start + BitVec.ofNat 32 pageSize), mem)
    else pageLoop last perm (start + BitVec.ofNat 32 pageSize) mem
  else (some start, mem)
termination_by (last - start).toNat
decreasing_by
  have hpos : 0 < pageSize := by decide
  rw [toNat_rest (by omega)]
  omega

/-- The loop over the first `n` bytes of a page. -/
def tailLoop (page : U32) (perm : U8) : Nat → Mem → Mem
  | 0, mem => mem
  | n + 1, mem => (tailLoop page perm n mem).setPageAttr page n perm

/-- The whole pages and the rest, from the start of a page. -/
def setPermPages (start last : U32) (perm : U8) (mem : Mem) : Mem :=
  match pageLoop last perm start mem with
  | (none, mem) => mem
  | (some start, mem) =>
    if last < start then mem
    else tailLoop start perm (last - start + 1).toNat (vmGetPage mem start true).2

/-- `x86emu_set_perm` -/
def Mem.setPerm (mem : Mem) (start last perm : U32) : Mem :=
  let perm := perm.setWidth 8
  let idx := (pageIdx start).toNat
  if last < start then mem
  else if idx ≠ 0 then
    let (start, mem) := headLoop start last perm idx start (vmGetPage mem start true).2
    if start = 0 ∨ last < start then mem else setPermPages start last perm mem
  else setPermPages start last perm mem

/-! ## Ranges -/

/-- The effective attribute of an address. -/
def Mem.attrOf (mem : Mem) (a : U32) : U8 :=
  match mem.entry a with
  | none => mem.defAttr
  | some page => page.attrAt (pageIdx a)

theorem attrOf_eq (mem : Mem) (a : U32) : mem.attrOf a = (mem.flat a).attr := by
  unfold Mem.attrOf Mem.flat
  cases mem.entry a <;> rfl

/-- The attributes in a range are `perm` and the others as before. -/
def Mem.Sets (perm : U8) (lo hi : Nat) (mem mem' : Mem) : Prop :=
  ∀ a, mem'.attrOf a = if lo ≤ a.toNat ∧ a.toNat < hi then perm else mem.attrOf a

namespace Mem.Sets

variable {perm : U8} {lo mid hi : Nat} {mem mem' mem'' : Mem}

theorem of_eq (h : mem'.flat = mem.flat) (hle : hi ≤ lo) : Sets perm lo hi mem mem' := by
  intro a
  rw [if_neg (by omega), attrOf_eq, attrOf_eq, h]

/-- Ranges one after the other. -/
theorem trans (h : Sets perm lo mid mem mem') (h' : Sets perm mid hi mem' mem'')
    (hlo : lo ≤ mid) (hhi : mid ≤ hi) : Sets perm lo hi mem mem'' := by
  intro a
  rw [h' a, h a]
  split_ifs <;> first | rfl | omega

end Mem.Sets

/-! ## One attribute -/

theorem samePage_iff {a b : U32} : SamePage a b ↔ a.toNat / pageSize = b.toNat / pageSize := by
  have ha := a.isLt
  have hb := b.isLt
  unfold SamePage pdirIdx ptableIdx pageSize
  rw [← BitVec.toNat_inj, ← BitVec.toNat_inj]
  simp only [BitVec.extractLsb'_toNat, Nat.shiftRight_eq_div_pow]
  omega

section SetPageAttr

variable {mem : Mem} {page : U32} {base idx : Nat}

/-- The address of byte `idx` of a page. -/
theorem addr_of_idx (hbase : base = pageSize * (page.toNat / pageSize)) (hidx : idx < pageSize) :
    (BitVec.ofNat 32 (base + idx)).toNat = base + idx ∧
      SamePage page (BitVec.ofNat 32 (base + idx)) ∧
      pageIdx (BitVec.ofNat 32 (base + idx)) = BitVec.ofNat 12 idx := by
  have hpage := page.isLt
  unfold pageSize at hbase hidx
  have hnat : (BitVec.ofNat 32 (base + idx)).toNat = base + idx := by
    rw [BitVec.toNat_ofNat]
    omega
  refine ⟨hnat, ?_, ?_⟩
  · rw [samePage_iff, hnat]
    unfold pageSize
    omega
  · apply BitVec.eq_of_toNat_eq
    rw [pageIdx_toNat, hnat, BitVec.toNat_ofNat]
    omega

theorem setPageAttr_sets (hlive : mem.Live page)
    (hbase : base = pageSize * (page.toNat / pageSize)) (hidx : idx < pageSize) (perm : U8) :
    Mem.Sets perm (base + idx) (base + idx + 1) mem (mem.setPageAttr page idx perm) ∧
      (mem.setPageAttr page idx perm).Live page := by
  obtain ⟨hnat, hsame, hpageIdx⟩ := addr_of_idx hbase hidx
  have hset : mem.setPageAttr page idx perm =
      mem.setAttrAt (BitVec.ofNat 32 (base + idx)) perm := by
    unfold Mem.setPageAttr Mem.setAttrAt Mem.pageAt
    rw [← hpageIdx, putPage_congr mem hsame, entry_congr mem hsame]
  have hlive' := live_samePage hlive hsame
  rw [hset]
  refine ⟨?_, hlive.setAttrAt hlive' perm⟩
  intro a
  rw [attrOf_eq, attrOf_eq, flat_setAttrAt hlive']
  by_cases ha : a = BitVec.ofNat 32 (base + idx)
  · subst ha
    rw [Function.update_self, if_pos (by omega)]
  · have hne : a.toNat ≠ base + idx := fun heq => ha (BitVec.eq_of_toNat_eq (heq.trans hnat.symm))
    rw [Function.update_of_ne ha, if_neg (by omega)]

end SetPageAttr

/-! ## The loops -/

/-- Where the loop over the rest of the page stops. -/
def headEnd (base idx : Nat) (last : U32) : Nat :=
  max (base + idx) (min (base + pageSize) (last.toNat + 1))

theorem headLoop_spec {page : U32} (last : U32) {base : Nat} (perm : U8)
    (hbase : base = pageSize * (page.toNat / pageSize)) {idx : Nat} {mem : Mem}
    (hidx : idx ≤ pageSize) (hlive : mem.Live page) :
    ∃ mem', headLoop page last perm idx (BitVec.ofNat 32 (base + idx)) mem =
        (BitVec.ofNat 32 (headEnd base idx last), mem') ∧
      Mem.Sets perm (base + idx) (headEnd base idx last) mem mem' := by
  obtain ⟨n, hn⟩ : ∃ n, pageSize - idx = n := ⟨_, rfl⟩
  induction n generalizing idx mem with
  | zero =>
    have hstop : headEnd base idx last = base + idx := by
      unfold headEnd
      omega
    rw [headLoop, if_neg (by omega), hstop]
    exact ⟨mem, rfl, .of_eq rfl (Nat.le_refl _)⟩
  | succ n ih =>
    have hlt : idx < pageSize := by omega
    have hnat := (addr_of_idx hbase hlt).1
    have hle : BitVec.ofNat 32 (base + idx) ≤ last ↔ base + idx ≤ last.toNat := by
      rw [BitVec.le_def, hnat]
    rw [headLoop]
    by_cases hlast : base + idx ≤ last.toNat
    · rw [if_pos ⟨hlt, hle.mpr hlast⟩]
      obtain ⟨hset, hlive'⟩ := setPageAttr_sets hlive hbase hlt perm
      obtain ⟨mem', hrun, hsets⟩ := @ih (idx + 1) _ (by omega) hlive' (by omega)
      have hend : headEnd base (idx + 1) last = headEnd base idx last := by
        unfold headEnd
        omega
      have hnext : BitVec.ofNat 32 (base + idx) + 1 = BitVec.ofNat 32 (base + (idx + 1)) :=
        (BitVec.ofNat_add _ _).symm
      rw [hend] at hrun hsets
      rw [hnext]
      refine ⟨mem', hrun, hset.trans hsets (by omega) ?_⟩
      unfold headEnd
      omega
    · have hstop : headEnd base idx last = base + idx := by
        unfold headEnd
        omega
      rw [if_neg (fun h => hlast (hle.mp h.2)), hstop]
      exact ⟨mem, rfl, .of_eq rfl (Nat.le_refl _)⟩

/-- The bytes below `n` of a page. -/
theorem tailLoop_spec {page : U32} {base : Nat} (perm : U8) {mem : Mem} (hlive : mem.Live page)
    (hbase : base = pageSize * (page.toNat / pageSize)) {n : Nat} (hn : n ≤ pageSize) :
    Mem.Sets perm base (base + n) mem (tailLoop page perm n mem) ∧
      (tailLoop page perm n mem).Live page := by
  induction n with
  | zero => exact ⟨.of_eq rfl (Nat.le_refl _), hlive⟩
  | succ n ih =>
    obtain ⟨hsets, hlive'⟩ := ih (by omega)
    obtain ⟨hset, hlive''⟩ := setPageAttr_sets hlive' hbase (by omega : n < pageSize) perm
    exact ⟨hsets.trans hset (by omega) (by omega), hlive''⟩

/-! ### Whole pages -/

theorem attrAt_setDefAttr (page : Page) (perm : U8) (i : BitVec 12) :
    (page.setDefAttr perm).attrAt i = perm := by
  unfold Page.setDefAttr Page.attrAt
  cases page.alloc <;> rfl

/-- One whole page. -/
theorem setDefAttr_sets (mem : Mem) (start : U32) (halign : start.toNat % pageSize = 0)
    (perm : U8) :
    Mem.Sets perm start.toNat (start.toNat + pageSize) mem
      ((vmGetPage mem start false).2.putPage start
        ((vmGetPage mem start false).1.setDefAttr perm)) := by
  have hentry : (mem.withTable start).entry start = some (vmGetPage mem start false).1 := by
    show _ = some (((mem.withTable start).entry start).getD {})
    rw [entry_withTable, if_pos rfl]
    rfl
  intro a
  rw [attrOf_eq, attrOf_eq, ← flat_withTable mem start]
  show (((mem.withTable start).putPage start _).flat a).attr = _
  rw [flat_putPage hentry]
  by_cases hs : SamePage start a
  · have hpage := samePage_iff.mp hs
    rw [if_pos hs, if_pos]
    · exact attrAt_setDefAttr _ _ _
    · unfold pageSize at *
      omega
  · rw [if_neg hs, if_neg]
    rw [samePage_iff] at hs
    unfold pageSize at *
    omega

/-- The first address that is not in a whole page of the range. -/
def pagesEnd (start last : U32) : Nat :=
  start.toNat + pageSize * ((last.toNat + 1 - start.toNat) / pageSize)

/-- The whole pages; from the first page only when it is not a whole one. -/
theorem pageLoop_spec (start last : U32) (perm : U8) (mem : Mem)
    (hfirst : start = 0 → last.toNat < pageSize - 1) (halign : start.toNat % pageSize = 0)
    (hle : start.toNat ≤ last.toNat) :
    ∃ mem', pageLoop last perm start mem = (some (BitVec.ofNat 32 (pagesEnd start last)), mem') ∧
      mem.Sets perm start.toNat (pagesEnd start last) mem' := by
  obtain ⟨n, hn⟩ : ∃ n, (last.toNat + 1 - start.toNat) / pageSize = n := ⟨_, rfl⟩
  have hlast := last.isLt
  induction n generalizing start mem with
  | zero =>
    have hrest : (last - start).toNat = last.toNat - start.toNat :=
      BitVec.toNat_sub_of_le hle
    have hstop : pagesEnd start last = start.toNat := by
      unfold pagesEnd
      rw [hn]
      rfl
    rw [pageLoop, if_neg (by unfold pageSize at *; omega), hstop, BitVec.ofNat_toNat,
      BitVec.setWidth_eq]
    exact ⟨mem, rfl, .of_eq rfl (Nat.le_refl _)⟩
  | succ n ih =>
    have hrest : (last - start).toNat = last.toNat - start.toNat :=
      BitVec.toNat_sub_of_le hle
    have hset := setDefAttr_sets mem start halign perm
    have hpos : start ≠ 0 := by
      intro hzero
      have hshort := hfirst hzero
      have hstart := Nat.div_lt_of_lt_mul (by omega : last.toNat + 1 - start.toNat < pageSize * 1)
      omega
    rw [pageLoop, if_pos (by unfold pageSize at *; omega)]
    dsimp only
    rw [if_neg hpos]
    by_cases hend : (last - start).toNat = pageSize - 1
    · have hstop : pagesEnd start last = start.toNat + pageSize := by
        unfold pagesEnd pageSize at *
        omega
      rw [if_pos hend, hstop]
      refine ⟨_, ?_, hset⟩
      rw [BitVec.ofNat_add, BitVec.ofNat_toNat, BitVec.setWidth_eq]
    · have hnext : (start + BitVec.ofNat 32 pageSize).toNat = start.toNat + pageSize := by
        rw [BitVec.toNat_add, BitVec.toNat_ofNat]
        unfold pageSize at *
        omega
      have hstop : pagesEnd (start + BitVec.ofNat 32 pageSize) last = pagesEnd start last := by
        unfold pagesEnd
        rw [hnext]
        unfold pageSize at *
        omega
      have hpos' : start + BitVec.ofNat 32 pageSize ≠ 0 := by
        intro hzero
        rw [hzero] at hnext
        unfold pageSize at hnext
        simp at hnext
      obtain ⟨mem', hrun, hsets⟩ := ih (start + BitVec.ofNat 32 pageSize)
        ((vmGetPage mem start false).2.putPage start
          ((vmGetPage mem start false).1.setDefAttr perm))
        (fun hzero => absurd hzero hpos') (by rw [hnext, Nat.add_mod_right]; exact halign)
        (by unfold pageSize at *; omega) (by rw [hnext]; unfold pageSize at *; omega)
      rw [hnext] at hsets
      rw [hstop] at hrun hsets
      rw [if_neg hend]
      refine ⟨mem', hrun, hset.trans hsets (by omega) ?_⟩
      unfold pagesEnd pageSize at *
      omega

/-- From address 0 the loop returns after the first page. -/
theorem pageLoop_zero (last : U32) (perm : U8) (mem : Mem) (hlast : pageSize - 1 ≤ last.toNat) :
    ∃ mem', pageLoop last perm 0 mem = (none, mem') ∧ mem.Sets perm 0 pageSize mem' := by
  have hset := setDefAttr_sets mem 0 rfl perm
  rw [pageLoop, show last - 0 = last from BitVec.sub_zero last, if_pos hlast]
  dsimp only
  rw [if_pos rfl]
  exact ⟨_, rfl, hset⟩

/-! ## The whole function -/

theorem getPage_flat (mem : Mem) (addr : U32) :
    (vmGetPage mem addr true).2.flat = mem.flat ∧ (vmGetPage mem addr true).2.Live addr := by
  obtain ⟨m, hget, hlive, hflat, -⟩ := vmGetPage_spec mem addr
  rw [hget]
  exact ⟨hflat, hlive⟩

/-- The part of the last page. -/
theorem tail_sets (start last : U32) (perm : U8) (mem : Mem) (halign : start.toNat % pageSize = 0)
    (hle : start.toNat ≤ last.toNat) (hlt : last.toNat < start.toNat + pageSize) :
    mem.Sets perm start.toNat (last.toNat + 1)
      (tailLoop start perm (last - start + 1).toNat (vmGetPage mem start true).2) := by
  obtain ⟨hflat, hlive⟩ := getPage_flat mem start
  have hrest : (last - start).toNat = last.toNat - start.toNat := BitVec.toNat_sub_of_le hle
  have hlen : (last - start + 1).toNat = last.toNat + 1 - start.toNat := by
    rw [BitVec.toNat_add, hrest]
    unfold pageSize at hlt
    show (_ + 1) % _ = _
    omega
  have hbase : start.toNat = pageSize * (start.toNat / pageSize) := by
    unfold pageSize at *
    omega
  have htail := (tailLoop_spec perm hlive hbase (n := (last - start + 1).toNat) (by omega)).1
  rw [hlen, show start.toNat + (last.toNat + 1 - start.toNat) = last.toNat + 1 by omega] at htail
  rw [hlen]
  exact (Mem.Sets.of_eq hflat (Nat.le_refl _)).trans htail (Nat.le_refl _) (by omega)

theorem setPermPages_sets (start last : U32) (perm : U8) (mem : Mem)
    (halign : start.toNat % pageSize = 0) (hle : start.toNat ≤ last.toNat)
    (hfirst : start = 0 → last.toNat < pageSize) :
    mem.Sets perm start.toNat (last.toNat + 1) (setPermPages start last perm mem) := by
  have hlast := last.isLt
  unfold setPermPages
  by_cases hone : start = 0 ∧ last.toNat = pageSize - 1
  · obtain ⟨rfl, hpage⟩ := hone
    obtain ⟨mem', hrun, hsets⟩ := pageLoop_zero last perm mem (Nat.le_of_eq hpage.symm)
    rw [hrun, hpage]
    exact hsets
  · obtain ⟨mem', hrun, hsets⟩ := pageLoop_spec start last perm mem (by
      intro hzero
      have hshort := hfirst hzero
      have hne : last.toNat ≠ pageSize - 1 := fun hpage => hone ⟨hzero, hpage⟩
      unfold pageSize at *
      omega) halign hle
    have hstop : start.toNat ≤ pagesEnd start last ∧ pagesEnd start last % pageSize = 0 ∧
        pagesEnd start last ≤ last.toNat + 1 ∧ last.toNat < pagesEnd start last + pageSize := by
      unfold pagesEnd pageSize at *
      omega
    obtain ⟨hge, halign', hend, hpart⟩ := hstop
    rw [hrun]
    dsimp only
    by_cases hfull : pagesEnd start last = last.toNat + 1
    · rw [hfull] at hsets ⊢
      by_cases hwrap : last.toNat + 1 = 2 ^ 32
      · -- past the last page the address is 0 and the rest is empty
        have hnone : (last - BitVec.ofNat 32 (last.toNat + 1) + 1).toNat = 0 := by
          have hmax : last = 0xffffffff :=
            BitVec.eq_of_toNat_eq (show last.toNat = 4294967295 by omega)
          rw [hwrap, hmax]
          decide
        rw [if_neg (by rw [hwrap]; exact BitVec.not_lt_zero), hnone]
        exact hsets.trans (.of_eq (getPage_flat _ _).1 (Nat.le_refl _)) (by omega) (Nat.le_refl _)
      · rw [if_pos]
        · exact hsets
        · rw [BitVec.lt_def, BitVec.toNat_ofNat]
          omega
    · have hnat : (BitVec.ofNat 32 (pagesEnd start last)).toNat = pagesEnd start last := by
        rw [BitVec.toNat_ofNat]
        omega
      have htail := tail_sets (BitVec.ofNat 32 (pagesEnd start last)) last perm mem'
        (by rw [hnat]; exact halign') (by omega) (by omega)
      rw [hnat] at htail
      rw [if_neg (by rw [BitVec.lt_def]; omega)]
      exact hsets.trans htail hge (by omega)

theorem setPerm_sets {start last : U32} (perm : U32) (mem : Mem) (hle : start.toNat ≤ last.toNat)
    (hfirst : start = 0 → last.toNat < pageSize) :
    mem.Sets (perm.setWidth 8) start.toNat (last.toNat + 1) (mem.setPerm start last perm) := by
  have hlast := last.isLt
  have hstart := start.isLt
  have hidx := pageIdx_toNat start
  unfold Mem.setPerm
  dsimp only
  rw [if_neg (by rw [BitVec.lt_def]; omega)]
  by_cases hzero : (pageIdx start).toNat = 0
  · rw [if_neg (not_not.mpr hzero)]
    exact setPermPages_sets start last _ mem (by unfold pageSize; omega) hle hfirst
  · rw [if_pos hzero]
    obtain ⟨hflat, hlive⟩ := getPage_flat mem start
    obtain ⟨mem', hrun, hsets⟩ := headLoop_spec last (perm.setWidth 8) rfl
      (by unfold pageSize; omega : (pageIdx start).toNat ≤ pageSize) hlive
    have hsplit : pageSize * (start.toNat / pageSize) + (pageIdx start).toNat = start.toNat := by
      unfold pageSize
      omega
    rw [hsplit, BitVec.ofNat_toNat, BitVec.setWidth_eq] at hrun
    rw [hsplit] at hsets
    have hsets' := (Mem.Sets.of_eq hflat (Nat.le_refl start.toNat)).trans hsets (Nat.le_refl _)
      (by unfold headEnd; omega)
    rw [hrun]
    dsimp only
    have hend : headEnd (pageSize * (start.toNat / pageSize)) (pageIdx start).toNat last =
        min (pageSize * (start.toNat / pageSize) + pageSize) (last.toNat + 1) := by
      unfold headEnd pageSize
      omega
    rw [hend] at hsets' ⊢
    by_cases hpart : last.toNat < pageSize * (start.toNat / pageSize) + pageSize
    · rw [Nat.min_eq_right (by omega)] at hsets' ⊢
      rw [if_pos]
      · exact hsets'
      · rw [BitVec.lt_def, BitVec.toNat_ofNat, ← BitVec.toNat_inj, BitVec.toNat_ofNat]
        show _ = 0 ∨ _
        omega
    · rw [Nat.min_eq_left (by omega)] at hsets' ⊢
      have hnat : (BitVec.ofNat 32 (pageSize * (start.toNat / pageSize) + pageSize)).toNat =
          pageSize * (start.toNat / pageSize) + pageSize := by
        rw [BitVec.toNat_ofNat]
        omega
      have hpos : BitVec.ofNat 32 (pageSize * (start.toNat / pageSize) + pageSize) ≠ 0 := by
        rw [ne_eq, ← BitVec.toNat_inj, hnat]
        exact Nat.succ_ne_zero _
      have hpages := setPermPages_sets
        (BitVec.ofNat 32 (pageSize * (start.toNat / pageSize) + pageSize)) last (perm.setWidth 8)
          mem'
        (by rw [hnat, Nat.add_mod_right, Nat.mul_mod_right]) (by omega)
        (fun hzero => absurd hzero hpos)
      rw [hnat] at hpages
      rw [if_neg]
      · exact hsets'.trans hpages (by unfold pageSize; omega) (by omega)
      · rw [BitVec.lt_def, hnat]
        rintro (hzero | hlt)
        · exact hpos hzero
        · omega

theorem setPerm_zero {last : U32} (perm : U32) (mem : Mem) (hlast : pageSize ≤ last.toNat) :
    mem.Sets (perm.setWidth 8) 0 pageSize (mem.setPerm 0 last perm) := by
  obtain ⟨mem', hrun, hsets⟩ := pageLoop_zero last (perm.setWidth 8) mem (by omega)
  unfold Mem.setPerm
  dsimp only
  rw [if_neg (show ¬last < 0 from BitVec.not_lt_zero),
    if_neg (not_not.mpr (show (pageIdx 0).toNat = 0 from rfl))]
  unfold setPermPages
  rw [hrun]
  exact hsets

/-- What `x86emu_set_perm` promises. -/
def Mem.PermSet (start last perm : U32) (mem mem' : Mem) : Prop :=
  ∀ a, mem'.attrOf a =
    if start ≤ a ∧ a ≤ last then perm.setWidth 8 else mem.attrOf a

theorem permSet_iff {start last perm : U32} {mem mem' : Mem} :
    mem.PermSet start last perm mem' ↔
      mem.Sets (perm.setWidth 8) start.toNat (last.toNat + 1) mem' := by
  unfold Mem.PermSet Mem.Sets
  refine forall_congr' fun a => ?_
  have hrange : (start ≤ a ∧ a ≤ last) ↔ (start.toNat ≤ a.toNat ∧ a.toNat < last.toNat + 1) := by
    rw [BitVec.le_def, BitVec.le_def]
    omega
  simp only [hrange]

/-- From address 0 only the first page is set, and the other pages of the range keep their
attributes. -/
theorem setPerm_iff (mem : Mem) {start last : U32} (perm : U32) (hle : start ≤ last) :
    mem.PermSet start last perm (mem.setPerm start last perm) ↔
      (start = 0 → ∀ a, pageSize ≤ a.toNat → a ≤ last → mem.attrOf a = perm.setWidth 8) := by
  rw [permSet_iff]
  by_cases hfirst : start = 0 ∧ pageSize ≤ last.toNat
  · obtain ⟨rfl, hlast⟩ := hfirst
    have hzero := setPerm_zero perm mem hlast
    refine ⟨?_, ?_⟩
    · intro hsets _ a hpage ha
      have hat := hsets a
      rw [hzero a, if_neg (by omega), if_pos ⟨Nat.zero_le _, Nat.lt_succ_of_le ha⟩] at hat
      exact hat
    · intro hrest a
      rw [hzero a]
      by_cases ha : a.toNat < last.toNat + 1
      · rw [if_pos (⟨Nat.zero_le _, ha⟩ : (0 : U32).toNat ≤ _ ∧ _)]
        split
        case isTrue => rfl
        case isFalse hpage =>
          exact hrest rfl a (by omega) (Nat.le_of_lt_succ ha)
      · rw [if_neg (by omega), if_neg (by omega)]
  · have hfirst : start = 0 → last.toNat < pageSize := fun hzero =>
      Nat.lt_of_not_le fun hlast => hfirst ⟨hzero, hlast⟩
    refine ⟨?_, fun _ => setPerm_sets perm mem hle hfirst⟩
    intro _ hzero a hpage ha
    have hlast := hfirst hzero
    have ha : a.toNat ≤ last.toNat := ha
    omega

theorem setPerm_iff_page :
    (emuMemNew 0).PermSet 0x1000 0xffffffff 7 ((emuMemNew 0).setPerm 0x1000 0xffffffff 7) ↔
      ((0x1000 : U32) = 0 → ∀ a, pageSize ≤ a.toNat → a ≤ 0xffffffff →
        (emuMemNew 0).attrOf a = (7 : U32).setWidth 8) :=
  setPerm_iff (emuMemNew 0) 7 (by decide)

/-- All of a new memory made accessible. -/
theorem setPerm_fails :
    ¬(emuMemNew 0).PermSet 0 0xffffffff 7 ((emuMemNew 0).setPerm 0 0xffffffff 7) := by
  intro hset
  have hat := hset 0x1000
  rw [setPerm_zero 7 (emuMemNew 0) (by decide), if_neg (by decide)] at hat
  revert hat
  decide

end X86Emu
