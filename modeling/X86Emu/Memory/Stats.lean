import X86Emu.Memory.Marked
import X86Emu.Memory.Protection
import X86Emu.Memory.Range

/-!
# The reset of the access statistics

`x86emu_reset_access_stats` goes through the attributes of the allocated pages. The attribute of an
address whose page is not allocated is a default, of its page table entry or of the whole memory,
and keeps its statistics until the page is created with it.
-/

namespace X86Emu

open Lib

/-- The `X86EMU_ACC_*` bits. -/
def accAll : U8 := accRead ||| accWrite ||| accExec ||| accInvalid

/-- The statistics are cleared everywhere, and nothing else is changed. -/
structure StatsReset (mem mem' : Mem) : Prop where
  stats : ∀ a, (mem'.flat a).attr &&& accAll = 0
  perm : ∀ a, (mem'.flat a).attr &&& permAll = (mem.flat a).attr &&& permAll
  data : ∀ a, (mem'.flat a).data = (mem.flat a).data

/-- No page is allocated for the address. -/
def Mem.Unallocated (mem : Mem) (a : U32) : Prop :=
  ∀ page, mem.entry a = some page → page.alloc = none

/-- The attributes of the addresses without page have no statistics. -/
def Mem.NoStaleDefault (mem : Mem) : Prop :=
  ∀ a, mem.Unallocated a → mem.attrOf a &&& accAll = 0

/-! ## One reset -/

theorem stats_bits (c : U8) : (c &&& (permRwx ||| permValid)) &&& accAll = 0 ∧
    (c &&& (permRwx ||| permValid)) &&& permAll = c &&& permAll := by
  revert c
  decide

/-- The attribute of an allocated page loses its statistics, a default stays. -/
theorem flat_resetAccessStats (mem : Mem) (a : U32) :
    (mem.resetAccessStats.flat a).data = (mem.flat a).data ∧
      ((mem.Unallocated a ∧ (mem.resetAccessStats.flat a).attr = (mem.flat a).attr) ∨
        (¬mem.Unallocated a ∧
          (mem.resetAccessStats.flat a).attr = (mem.flat a).attr &&& (permRwx ||| permValid))) := by
  unfold Mem.Unallocated Mem.flat
  rw [entry_resetAccessStats]
  cases hentry : mem.entry a with
  | none =>
    refine ⟨rfl, Or.inl ⟨fun page hpage => ?_, rfl⟩⟩
    cases hpage
  | some page =>
    refine ⟨congrFun (byteAt_resetStats page mem.host) (pageIdx a), ?_⟩
    obtain ⟨alloc, defAttr⟩ := page
    cases alloc with
    | none =>
      refine Or.inl ⟨fun page hpage => ?_, rfl⟩
      cases hpage
      rfl
    | some q =>
      refine Or.inr ⟨fun hnone => ?_, rfl⟩
      cases hnone _ rfl

/-- The statistics are cleared exactly when there are none in the defaults. -/
theorem reset_iff (mem : Mem) : StatsReset mem mem.resetAccessStats ↔ mem.NoStaleDefault := by
  constructor
  · intro hreset a hfree
    rcases (flat_resetAccessStats mem a).2 with ⟨-, hattr⟩ | ⟨halloc, -⟩
    · rw [attrOf_eq, ← hattr]
      exact hreset.stats a
    · exact absurd hfree halloc
  · intro hclean
    refine ⟨fun a => ?_, fun a => ?_, fun a => (flat_resetAccessStats mem a).1⟩
    · rcases (flat_resetAccessStats mem a).2 with ⟨hfree, hattr⟩ | ⟨-, hattr⟩
      · rw [hattr, ← attrOf_eq]
        exact hclean a hfree
      · rw [hattr]
        exact (stats_bits _).1
    · rcases (flat_resetAccessStats mem a).2 with ⟨-, hattr⟩ | ⟨-, hattr⟩
      · rw [hattr]
      · rw [hattr]
        exact (stats_bits _).2

/-! ## Defaults without statistics -/

theorem putPage_none {mem : Mem} {a : U32} (h : mem.entry a = none) (page : Page) :
    mem.putPage a page = mem := by
  obtain ⟨pdir, defAttr, invalid, host⟩ := mem
  unfold Mem.entry at h
  unfold Mem.putPage
  cases pdir with
  | none => rfl
  | some pdir =>
    have htable : pdir (pdirIdx a) = none := Option.map_eq_none_iff.mp h
    have hsame : Function.update pdir (pdirIdx a) none = pdir := by
      rw [← htable, Function.update_eq_self]
    simp only [Option.map_some, htable, Option.map_none, hsame]

theorem defAttr_create (page : Page) : page.create.defAttr = page.defAttr := by
  unfold Page.create
  split <;> rfl

theorem defAttr_setAttr {page : Page} {b : U8} (h : page.defAttr &&& accAll = b) {i : BitVec 12}
    {a : U8} : (page.setAttr i a).defAttr &&& accAll = b := h

/-- No default has statistics, neither that of the memory nor that of a page table entry. -/
structure Mem.CleanDefaults (mem : Mem) : Prop where
  memory : mem.defAttr &&& accAll = 0
  entries : ∀ a page, mem.entry a = some page → page.defAttr &&& accAll = 0

namespace Mem.CleanDefaults

variable {mem : Mem} (h : mem.CleanDefaults)

include h

theorem noStale : mem.NoStaleDefault := by
  intro a hfree
  unfold Mem.attrOf
  cases hentry : mem.entry a with
  | none => exact h.memory
  | some page =>
    show page.attrAt _ &&& _ = 0
    unfold Page.attrAt
    rw [hfree page hentry]
    exact h.entries a page hentry

theorem pageAt (a : U32) : (mem.pageAt a).defAttr &&& accAll = 0 := by
  unfold Mem.pageAt
  cases hentry : mem.entry a with
  | none => rfl
  | some page => exact h.entries a page hentry

theorem withTable (a : U32) : (mem.withTable a).CleanDefaults := by
  refine ⟨h.memory, fun b page hpage => ?_⟩
  rw [entry_withTable] at hpage
  split at hpage
  · cases hentry : mem.entry b with
    | none =>
      rw [hentry] at hpage
      cases hpage
      exact h.memory
    | some old =>
      rw [hentry] at hpage
      cases hpage
      exact h.entries b old hentry
  · exact h.entries b page hpage

theorem putPage (a : U32) {page : Page} (hpage : page.defAttr &&& accAll = 0) :
    (mem.putPage a page).CleanDefaults := by
  refine ⟨h.memory, fun b old hold => ?_⟩
  by_cases hsome : (mem.entry a).isSome
  · rw [entry_putPage hsome] at hold
    split at hold
    · cases hold
      exact hpage
    · exact h.entries b old hold
  · rw [putPage_none (Option.not_isSome_iff_eq_none.mp hsome)] at hold
    exact h.entries b old hold

theorem vmGetPage (a : U32) (create : Bool) :
    (X86Emu.vmGetPage mem a create).2.CleanDefaults ∧
      (X86Emu.vmGetPage mem a create).1.defAttr &&& accAll = 0 := by
  have hpage := (h.withTable a).pageAt a
  cases create with
  | false => exact ⟨h.withTable a, hpage⟩
  | true =>
    have hcreate : ((mem.withTable a).pageAt a).create.defAttr &&& accAll = 0 := by
      rw [defAttr_create]
      exact hpage
    exact ⟨(h.withTable a).putPage a hcreate, hcreate⟩

theorem setInvalid : mem.setInvalid.CleanDefaults := ⟨h.memory, h.entries⟩

theorem store (a : U32) {page : Page} (hpage : page.defAttr &&& accAll = 0) (i : BitVec 12)
    (v : U8) : (mem.store a page i v).CleanDefaults := by
  unfold Mem.store
  split
  · exact h
  · split
    · exact h.putPage a hpage
    · exact ⟨h.memory, h.entries⟩

theorem storeAt (a : U32) (i : BitVec 12) (v : U8) : (mem.storeAt a i v).CleanDefaults :=
  h.store a (h.pageAt a) i v

theorem store16 (a : U32) (i : BitVec 12) (v : U16) : (mem.store16 a i v).CleanDefaults :=
  (h.storeAt a i _).storeAt a (i + 1) _

theorem store32 (a : U32) (i : BitVec 12) (v : U32) : (mem.store32 a i v).CleanDefaults :=
  (h.store16 a i _).store16 a (i + 2) _

/-! ### Accesses -/

theorem vmFetchByte (perm acc : U8) (a : U32) :
    (X86Emu.vmFetchByte perm acc mem a).2.CleanDefaults := by
  obtain ⟨hmem, hpage⟩ := h.vmGetPage a true
  unfold X86Emu.vmFetchByte
  dsimp only
  split
  · split
    · exact hmem.putPage a hpage
    · exact setInvalid (hmem.putPage a hpage)
  · exact hmem.setInvalid

theorem vmRByte (a : U32) : (X86Emu.vmRByte mem a).2.CleanDefaults := by
  rw [vmRByte_eq]
  exact h.vmFetchByte permR accRead a

theorem vmXByte (a : U32) : (X86Emu.vmXByte mem a).2.CleanDefaults := by
  rw [vmXByte_eq]
  exact h.vmFetchByte permX accExec a

theorem vmWByte (a : U32) (v : U8) : (X86Emu.vmWByte mem a v).CleanDefaults := by
  obtain ⟨hmem, hpage⟩ := h.vmGetPage a true
  unfold X86Emu.vmWByte
  dsimp only
  split
  · exact store (putPage hmem a (defAttr_setAttr hpage)) a (defAttr_setAttr hpage) _ v
  · exact setInvalid (hmem.putPage a hpage)

theorem vmWByteNoperm (a : U32) (v : U8) : (X86Emu.vmWByteNoperm mem a v).CleanDefaults := by
  obtain ⟨hmem, hpage⟩ := h.vmGetPage a true
  unfold X86Emu.vmWByteNoperm
  dsimp only
  exact store (putPage hmem a (defAttr_setAttr hpage)) a (defAttr_setAttr hpage) _ v

theorem vmRWord (a : U32) : (X86Emu.vmRWord mem a).2.CleanDefaults := by
  obtain ⟨hmem, hpage⟩ := h.vmGetPage a true
  unfold X86Emu.vmRWord
  dsimp only
  split
  · exact (hmem.vmRByte a).vmRByte (a + 1)
  · exact hmem.putPage a hpage

theorem vmRDword (a : U32) : (X86Emu.vmRDword mem a).2.CleanDefaults := by
  obtain ⟨hmem, hpage⟩ := h.vmGetPage a true
  unfold X86Emu.vmRDword
  dsimp only
  split
  · exact (((hmem.vmRByte a).vmRByte (a + 1)).vmRByte (a + 2)).vmRByte (a + 3)
  · exact hmem.putPage a hpage

theorem vmXWord (a : U32) : (X86Emu.vmXWord mem a).2.CleanDefaults := by
  unfold X86Emu.vmXWord
  dsimp only
  exact (h.vmXByte a).vmXByte (a + 1)

theorem vmXDword (a : U32) : (X86Emu.vmXDword mem a).2.CleanDefaults := by
  unfold X86Emu.vmXDword
  dsimp only
  exact (h.vmXWord a).vmXWord (a + 2)

theorem vmWWord (a : U32) (v : U16) : (X86Emu.vmWWord mem a v).CleanDefaults := by
  obtain ⟨hmem, hpage⟩ := h.vmGetPage a true
  unfold X86Emu.vmWWord
  dsimp only
  split
  · exact vmWByte (hmem.vmWByte a _) (a + 1) _
  · apply store16
    exact putPage hmem a (defAttr_setAttr (defAttr_setAttr hpage))

theorem vmWDword (a : U32) (v : U32) : (X86Emu.vmWDword mem a v).CleanDefaults := by
  obtain ⟨hmem, hpage⟩ := h.vmGetPage a true
  unfold X86Emu.vmWDword
  dsimp only
  split
  · exact vmWByte (vmWByte (vmWByte (hmem.vmWByte a _) (a + 1) _) (a + 2) _) (a + 3) _
  · apply store32
    exact putPage hmem a
      (defAttr_setAttr (defAttr_setAttr (defAttr_setAttr (defAttr_setAttr hpage))))

theorem vmMemAccess (kind : MemioKind) (bits : MemioBits) (a v : U32) :
    (X86Emu.vmMemAccess mem kind bits a v).2.CleanDefaults := by
  unfold X86Emu.vmMemAccess
  split
  · exact h.vmRByte a
  · exact h.vmRWord a
  · exact h.vmRDword a
  · exact (h.vmGetPage a true).1
  · exact h.vmWByte a _
  · exact h.vmWWord a _
  · exact h.vmWDword a v
  · exact h.vmWByteNoperm a _
  · exact h.vmXByte a
  · exact h.vmXWord a
  · exact h.vmXDword a
  · exact h

theorem access (kind : MemioKind) (bits : MemioBits) (a v : U32) :
    (mem.access kind bits a v).2.CleanDefaults := by
  have hnew : { mem with invalid := false }.CleanDefaults := ⟨h.memory, h.entries⟩
  exact hnew.vmMemAccess kind bits a v

/-! ### Host functions -/

theorem setPage (a : U32) (address : Option Nat) : (mem.setPage a address).CleanDefaults := by
  obtain ⟨hmem, hpage⟩ := h.vmGetPage a true
  cases address with
  | none => exact hmem.putPage a hpage
  | some n => exact hmem.putPage a hpage

theorem setPageAttr (page : U32) (idx : Nat) (perm : U8) :
    (mem.setPageAttr page idx perm).CleanDefaults := h.putPage page (h.pageAt page)

theorem tailLoop (page : U32) (perm : U8) (n : Nat) :
    (X86Emu.tailLoop page perm n mem).CleanDefaults := by
  induction n with
  | zero => exact h
  | succ n ih => exact ih.setPageAttr page n perm

omit h in
theorem headLoop (page last : U32) (perm : U8) (idx : Nat) (start : U32) (h : mem.CleanDefaults) :
    (X86Emu.headLoop page last perm idx start mem).2.CleanDefaults := by
  induction idx, start, mem using X86Emu.headLoop.induct page last perm with
  | case1 idx start mem hgo ih =>
    rw [X86Emu.headLoop, if_pos hgo]
    exact ih (h.setPageAttr page idx perm)
  | case2 idx start mem hstop =>
    rw [X86Emu.headLoop, if_neg hstop]
    exact h

omit h in
/-- Here a mask becomes a default. -/
theorem pageLoop (last start : U32) {perm : U8} (hperm : perm &&& accAll = 0)
    (h : mem.CleanDefaults) : (X86Emu.pageLoop last perm start mem).2.CleanDefaults := by
  have hput : ∀ {mem : Mem} (start : U32), mem.CleanDefaults →
      ((X86Emu.vmGetPage mem start false).2.putPage start
        ((X86Emu.vmGetPage mem start false).1.setDefAttr perm)).CleanDefaults :=
    fun start hmem => (hmem.vmGetPage start false).1.putPage start hperm
  induction start, mem using X86Emu.pageLoop.induct last perm with
  | case1 mem page mem' hlen hpage =>
    rw [X86Emu.pageLoop, if_pos hlen]
    dsimp only
    rw [if_pos rfl]
    exact hput 0 h
  | case2 start mem hlen page mem' hpage hzero hlast =>
    rw [X86Emu.pageLoop, if_pos hlen]
    dsimp only
    rw [if_neg hzero, if_pos hlast]
    exact hput start h
  | case3 start mem hlen page mem₁ hpage mem₂ hzero hlast ih =>
    have hset := hput start h
    rw [hpage] at hset
    rw [X86Emu.pageLoop, if_pos hlen, hpage]
    dsimp only
    rw [if_neg hzero, if_neg hlast]
    exact ih hset
  | case4 start mem hlen =>
    rw [X86Emu.pageLoop, if_neg hlen]
    exact h

theorem setPermPages (start last : U32) {perm : U8} (hperm : perm &&& accAll = 0) :
    (X86Emu.setPermPages start last perm mem).CleanDefaults := by
  have hloop := pageLoop last start hperm h
  unfold X86Emu.setPermPages
  split
  · next mem' hrun =>
    rw [hrun] at hloop
    exact hloop
  · next start' mem' hrun =>
    rw [hrun] at hloop
    split
    · exact hloop
    · exact (hloop.vmGetPage start' true).1.tailLoop start' perm _

theorem setPerm (start last : U32) {perm : U32} (hperm : perm.setWidth 8 &&& accAll = 0) :
    (mem.setPerm start last perm).CleanDefaults := by
  unfold Mem.setPerm
  dsimp only
  split
  · exact h
  · split
    · have hhead := headLoop start last (perm.setWidth 8) (pageIdx start).toNat start
        (h.vmGetPage start true).1
      split
      · exact hhead
      · exact hhead.setPermPages _ last hperm
    · exact h.setPermPages start last hperm

theorem resetAccessStats : mem.resetAccessStats.CleanDefaults := by
  refine ⟨h.memory, fun a page hpage => ?_⟩
  rw [entry_resetAccessStats] at hpage
  obtain ⟨old, hold, rfl⟩ := Option.map_eq_some_iff.mp hpage
  exact h.entries a old hold

end Mem.CleanDefaults

/-! ## Histories -/

/-- What changes a memory after `x86emu_new`. -/
inductive MemOp where
  | access (kind : MemioKind) (bits : MemioBits) (addr val : U32)
  | setPerm (start last perm : U32)
  | setPage (addr : U32) (address : Option Nat)
  | resetAccessStats

def MemOp.run (mem : Mem) : MemOp → Mem
  | .access kind bits addr val => (mem.access kind bits addr val).2
  | .setPerm start last perm => mem.setPerm start last perm
  | .setPage addr address => mem.setPage addr address
  | .resetAccessStats => mem.resetAccessStats

/-- The memory that was made with `perm` and used since. -/
def memAfter (perm : U32) (ops : List MemOp) : Mem := ops.foldl MemOp.run (emuMemNew perm)

/-- `x86emu_set_perm` is not given statistics. -/
def MemOp.NoStats : MemOp → Prop
  | .setPerm _ _ perm => perm.setWidth 8 &&& accAll = 0
  | _ => True

theorem MemOp.run_clean {op : MemOp} (hop : op.NoStats) {mem : Mem} (h : mem.CleanDefaults) :
    (op.run mem).CleanDefaults := by
  cases op with
  | access kind bits addr val => exact h.access kind bits addr val
  | setPerm start last perm => exact h.setPerm start last hop
  | setPage addr address => exact h.setPage addr address
  | resetAccessStats => exact h.resetAccessStats

theorem foldl_run_clean {mem : Mem} (h : mem.CleanDefaults) {ops : List MemOp}
    (hops : ∀ op ∈ ops, op.NoStats) : (ops.foldl MemOp.run mem).CleanDefaults := by
  induction ops generalizing mem with
  | nil => exact h
  | cons op ops ih =>
    obtain ⟨hop, hrest⟩ := List.forall_mem_cons.mp hops
    exact ih (op.run_clean hop h) hrest

theorem emuMemNew_clean {perm : U32} (hperm : perm.setWidth 8 &&& accAll = 0) :
    (emuMemNew perm).CleanDefaults := by
  refine ⟨hperm, fun a page hpage => ?_⟩
  cases hpage

/-- After every history the reset clears the statistics exactly when there are none in the
default of an address without page. This is so when no permission ever came with statistics. -/
theorem resetAccessStats_iff (perm : U32) (ops : List MemOp) :
    (StatsReset (memAfter perm ops) (memAfter perm ops).resetAccessStats ↔
        (memAfter perm ops).NoStaleDefault) ∧
      (perm.setWidth 8 &&& accAll = 0 → (∀ op ∈ ops, op.NoStats) →
        StatsReset (memAfter perm ops) (memAfter perm ops).resetAccessStats) := by
  refine ⟨reset_iff _, ?_⟩
  intro hperm hops
  rw [reset_iff]
  exact (foldl_run_clean (emuMemNew_clean hperm) hops).noStale

theorem resetAccessStats_iff_written :
    StatsReset (memAfter 7 [.setPerm 0x1000 0x1fff 0x0f, .access .w .b8 0x1000 5])
      (memAfter 7 [.setPerm 0x1000 0x1fff 0x0f, .access .w .b8 0x1000 5]).resetAccessStats := by
  apply (resetAccessStats_iff 7 [.setPerm 0x1000 0x1fff 0x0f, .access .w .b8 0x1000 5]).2
    (by decide)
  intro op hop
  rcases List.mem_cons.mp hop with rfl | hop
  · show (0x0f : U32).setWidth 8 &&& accAll = 0
    decide
  · rcases List.mem_singleton.mp hop with rfl
    trivial

/-- Only the default of a page is set. -/
theorem setPerm_page (mem : Mem) (perm : U32) :
    mem.setPerm 0x1000 0x1fff perm = (mem.withTable 0x1000).putPage 0x1000
      (((mem.withTable 0x1000).pageAt 0x1000).setDefAttr (perm.setWidth 8)) := by
  unfold Mem.setPerm
  dsimp only
  rw [if_neg (by decide), if_neg (by decide)]
  unfold setPermPages
  rw [pageLoop, if_pos (by decide)]
  dsimp only
  rw [if_neg (by decide), if_pos (by decide)]
  rfl

/-- A page that is marked as read before it is used. -/
theorem resetAccessStats_fails :
    ¬StatsReset (memAfter 7 [.setPerm 0x1000 0x1fff 0x17])
      (memAfter 7 [.setPerm 0x1000 0x1fff 0x17]).resetAccessStats := by
  intro hreset
  have hstale := hreset.stats 0x1000
  have hmem : memAfter 7 [.setPerm 0x1000 0x1fff 0x17] = (emuMemNew 7).setPerm 0x1000 0x1fff 0x17 :=
    rfl
  rw [hmem, setPerm_page] at hstale
  revert hstale
  decide

end X86Emu
