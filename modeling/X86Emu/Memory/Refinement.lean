import X86Emu.Memory.Acts

/-!
# The paged memory refines the flat memory

Every access of `vm_memio` to the paged memory does what the same access does to the flat memory,
which works byte by byte: it returns the same value, sets the same invalid flag and leaves the same
attribute and data at every address. So do all sequences of accesses from a new memory.
-/

namespace X86Emu

open Lib

/-! ## Packed reads of a page -/

section Packed

variable {mem : Mem} {addr : U32}

theorem addrs_two (addr : U32) : addrs 2 addr = [addr, addr + 1] := by
  show [addr + 0#32, _] = _
  rw [BitVec.add_zero]
  rfl

theorem addrs_four (addr : U32) : addrs 4 addr = [addr, addr + 1, addr + 2, addr + 3] := by
  show [addr + 0#32, _, _, _] = _
  rw [BitVec.add_zero]
  rfl

theorem attr16_eq (hlive : mem.Live addr) (hidx : (pageIdx addr).toNat + 2 ≤ 4096) :
    (mem.pageAt addr).attr16 (pageIdx addr) =
      (mem.flat (addr + 1)).attr ++ (mem.flat addr).attr := by
  have h₁ := attrAt_add hlive (k := 1) (by omega)
  unfold Page.attr16
  rw [(pageAt_cell hlive).1]
  exact congrArg (· ++ (mem.flat addr).attr) h₁

theorem attr32_eq (hlive : mem.Live addr) (hidx : (pageIdx addr).toNat + 4 ≤ 4096) :
    (mem.pageAt addr).attr32 (pageIdx addr) =
      ((mem.flat (addr + 3)).attr ++ (mem.flat (addr + 2)).attr) ++
        ((mem.flat (addr + 1)).attr ++ (mem.flat addr).attr) := by
  have h₂ := attrAt_add hlive (k := 2) (by omega)
  have h₃ := attrAt_add hlive (k := 3) (by omega)
  have hhi : (mem.pageAt addr).attr16 (pageIdx addr + 2) =
      (mem.flat (addr + 3)).attr ++ (mem.flat (addr + 2)).attr := by
    unfold Page.attr16
    rw [BitVec.add_assoc]
    exact congrArg₂ (· ++ ·) h₃ h₂
  unfold Page.attr32
  rw [hhi, attr16_eq hlive (by omega)]

theorem load16_eq (hlive : mem.Live addr) (hidx : (pageIdx addr).toNat + 2 ≤ 4096) :
    mem.load16 (mem.pageAt addr) (pageIdx addr) =
      (mem.flat (addr + 1)).data ++ (mem.flat addr).data := by
  have h₁ := load_add hlive (k := 1) (by omega)
  unfold Mem.load16
  rw [(pageAt_cell hlive).2]
  exact congrArg (· ++ (mem.flat addr).data) h₁

theorem load32_eq (hlive : mem.Live addr) (hidx : (pageIdx addr).toNat + 4 ≤ 4096) :
    mem.load32 (mem.pageAt addr) (pageIdx addr) =
      ((mem.flat (addr + 3)).data ++ (mem.flat (addr + 2)).data) ++
        ((mem.flat (addr + 1)).data ++ (mem.flat addr).data) := by
  have h₂ := load_add hlive (k := 2) (by omega)
  have h₃ := load_add hlive (k := 3) (by omega)
  have hhi : mem.load16 (mem.pageAt addr) (pageIdx addr + 2) =
      (mem.flat (addr + 3)).data ++ (mem.flat (addr + 2)).data := by
    unfold Mem.load16
    rw [BitVec.add_assoc]
    exact congrArg₂ (· ++ ·) h₃ h₂
  unfold Mem.load32
  rw [hhi, load16_eq hlive (by omega)]

theorem addrAttrs_two (m : U8) :
    addrAttrs mem 2 addr m =
      addrBytes 2 addr (((mem.flat (addr + 1)).attr ++ (mem.flat addr).attr) ||| perm16 m) := by
  unfold perm16
  rw [BitVec.or_append, addrBytes_append₂]
  unfold addrAttrs
  rw [addrs_two]
  rfl

theorem addrAttrs_four (m : U8) :
    addrAttrs mem 4 addr m =
      addrBytes 4 addr ((((mem.flat (addr + 3)).attr ++ (mem.flat (addr + 2)).attr) ++
        ((mem.flat (addr + 1)).attr ++ (mem.flat addr).attr)) ||| perm32 m) := by
  unfold perm32 perm16
  rw [BitVec.or_append, BitVec.or_append, BitVec.or_append, addrBytes_append₄]
  unfold addrAttrs
  rw [addrs_four]
  rfl

end Packed

/-! ## Words and dwords -/

section Wide

variable {w : Nat}

theorem acts_readByte (mem : Mem) (addr : U32) (d : U8) :
    Acts (fun _ => Cell.fetch permR accRead) [(addr, d)] mem [(vmRByte mem addr).1]
      (vmRByte mem addr).2 := acts_fetchByte mem permR accRead d addr

theorem acts_execByte (mem : Mem) (addr : U32) (d : U8) :
    Acts (fun _ => Cell.fetch permX accExec) [(addr, d)] mem [(vmXByte mem addr).1]
      (vmXByte mem addr).2 := acts_fetchByte mem permX accExec d addr

theorem acts_readWord (mem : Mem) (addr : U32) (x : BitVec w) :
    ∃ v₀ v₁, Acts (fun _ => Cell.fetch permR accRead) (addrBytes 2 addr x) mem [v₀, v₁]
      (vmRWord mem addr).2 ∧ (vmRWord mem addr).1 = v₁ ++ v₀ := by
  obtain ⟨m, hget, hlive, hflat, hinv, hloc⟩ := vmGetPage_spec mem addr
  unfold vmRWord
  rw [hget]
  dsimp only
  by_cases hslow : (pageIdx addr).toNat ≥ 4095 ∨ (m.pageAt addr).attr16 (pageIdx addr) &&&
      perm16 (permR ||| permValid) ≠ perm16 (permR ||| permValid)
  · rw [if_pos hslow, addrBytes_two]
    have h₀ := acts_readByte m addr (x.extractLsb' 0 8)
    have h₁ := acts_readByte (vmRByte m addr).2 (addr + 1) (x.extractLsb' 8 8)
    exact ⟨_, _, (h₀.two h₁).congr hflat hinv hloc, rfl⟩
  · rw [if_neg hslow]
    rw [not_or, ge_iff_le, Nat.not_le, ne_eq, Classical.not_not] at hslow
    have hidx : (pageIdx addr).toNat + 2 ≤ 4096 := by omega
    have htest := hslow.2
    rw [attr16_eq hlive hidx, perm16_test] at htest
    have hready : ∀ a ∈ addrs 2 addr, (m.flat a).attr.hasAll (permR ||| permValid) := by
      rw [addrs_two]
      simp only [List.forall_mem_cons, List.not_mem_nil, false_imp_iff, implies_true, and_true]
      exact ⟨htest.2, htest.1⟩
    have hacts := acts_fastRead hlive (by decide) hidx hready x
    rw [addrAttrs_two, addrs_two] at hacts
    rw [putPage_setAttr16 hlive (by omega), attr16_eq hlive hidx, load16_eq hlive hidx]
    exact ⟨_, _, hacts.congr hflat hinv hloc, rfl⟩

theorem acts_readDword (mem : Mem) (addr : U32) (x : BitVec w) :
    ∃ v₀ v₁ v₂ v₃, Acts (fun _ => Cell.fetch permR accRead) (addrBytes 4 addr x) mem
      [v₀, v₁, v₂, v₃] (vmRDword mem addr).2 ∧
      (vmRDword mem addr).1 = (v₃ ++ v₂) ++ (v₁ ++ v₀) := by
  obtain ⟨m, hget, hlive, hflat, hinv, hloc⟩ := vmGetPage_spec mem addr
  unfold vmRDword
  rw [hget]
  dsimp only
  by_cases hslow : (pageIdx addr).toNat ≥ 4093 ∨ (m.pageAt addr).attr32 (pageIdx addr) &&&
      perm32 (permR ||| permValid) ≠ perm32 (permR ||| permValid)
  · rw [if_pos hslow, addrBytes_four]
    have h₀ := acts_readByte m addr (x.extractLsb' 0 8)
    have h₁ := acts_readByte (vmRByte m addr).2 (addr + 1) (x.extractLsb' 8 8)
    refine ⟨_, _, _, _, Acts.congr ((h₀.two h₁).append
      (Acts.two (acts_readByte _ (addr + 2) (x.extractLsb' 16 8)) ?_)) hflat hinv hloc, rfl⟩
    exact acts_readByte _ (addr + 3) (x.extractLsb' 24 8)
  · rw [if_neg hslow]
    rw [not_or, ge_iff_le, Nat.not_le, ne_eq, Classical.not_not] at hslow
    have hidx : (pageIdx addr).toNat + 4 ≤ 4096 := by omega
    have htest := hslow.2
    rw [attr32_eq hlive hidx, perm32_test] at htest
    have hready : ∀ a ∈ addrs 4 addr, (m.flat a).attr.hasAll (permR ||| permValid) := by
      rw [addrs_four]
      simp only [List.forall_mem_cons, List.not_mem_nil, false_imp_iff, implies_true, and_true]
      exact ⟨htest.2.2, htest.2.1, htest.1.2, htest.1.1⟩
    have hacts := acts_fastRead hlive (by decide) hidx hready x
    rw [addrAttrs_four, addrs_four] at hacts
    rw [putPage_setAttr32 hlive (by omega), attr32_eq hlive hidx, load32_eq hlive hidx]
    exact ⟨_, _, _, _, hacts.congr hflat hinv hloc, rfl⟩

theorem acts_execWord (mem : Mem) (addr : U32) (d₀ d₁ : U8) :
    ∃ v₀ v₁, Acts (fun _ => Cell.fetch permX accExec) [(addr, d₀), (addr + 1, d₁)] mem [v₀, v₁]
      (vmXWord mem addr).2 ∧ (vmXWord mem addr).1 = v₁ ++ v₀ := by
  have h₀ := acts_execByte mem addr d₀
  have h₁ := acts_execByte (vmXByte mem addr).2 (addr + 1) d₁
  exact ⟨_, _, h₀.two h₁, rfl⟩

theorem acts_execDword (mem : Mem) (addr : U32) (x : BitVec w) :
    ∃ v₀ v₁ v₂ v₃, Acts (fun _ => Cell.fetch permX accExec) (addrBytes 4 addr x) mem
      [v₀, v₁, v₂, v₃] (vmXDword mem addr).2 ∧
      (vmXDword mem addr).1 = (v₃ ++ v₂) ++ (v₁ ++ v₀) := by
  obtain ⟨v₀, v₁, hlo, hlov⟩ := acts_execWord mem addr (x.extractLsb' 0 8) (x.extractLsb' 8 8)
  obtain ⟨v₂, v₃, hhi, hhiv⟩ :=
    acts_execWord (vmXWord mem addr).2 (addr + 2) (x.extractLsb' 16 8) (x.extractLsb' 24 8)
  refine ⟨v₀, v₁, v₂, v₃, ?_, ?_⟩
  · have hacts := hlo.append hhi
    rw [BitVec.add_assoc] at hacts
    rw [addrBytes_four]
    exact hacts
  · unfold vmXDword
    dsimp only
    rw [hlov, hhiv]

theorem acts_writeWord (mem : Mem) (addr : U32) (x : U16) :
    Acts Cell.write (addrBytes 2 addr x) mem ((addrBytes 2 addr x).map Prod.snd)
      (vmWWord mem addr x) := by
  obtain ⟨m, hget, hlive, hflat, hinv, hloc⟩ := vmGetPage_spec mem addr
  unfold vmWWord
  rw [hget]
  dsimp only
  refine Acts.congr ?_ hflat hinv hloc
  by_cases hslow : (pageIdx addr).toNat ≥ 4095 ∨ (m.pageAt addr).attr16 (pageIdx addr) &&&
      perm16 permW ≠ perm16 permW
  · rw [if_pos hslow, addrBytes_two]
    have h₀ := acts_writeByte m addr (x.extractLsb' 0 8)
    have h₁ := acts_writeByte (vmWByte m addr (x.extractLsb' 0 8)) (addr + 1) (x.extractLsb' 8 8)
    exact h₀.two h₁
  · rw [if_neg hslow]
    rw [not_or, ge_iff_le, Nat.not_le, ne_eq, Classical.not_not] at hslow
    have hidx : (pageIdx addr).toNat + 2 ≤ 4096 := by omega
    have htest := hslow.2
    rw [attr16_eq hlive hidx, perm16_test] at htest
    have hready : ∀ a ∈ addrs 2 addr, (m.flat a).attr.hasAll permW := by
      rw [addrs_two]
      simp only [List.forall_mem_cons, List.not_mem_nil, false_imp_iff, implies_true, and_true]
      exact ⟨htest.2, htest.1⟩
    have hacts := acts_fastWrite hlive (by decide) hidx hready x
    rw [addrAttrs_two] at hacts
    rw [putPage_setAttr16 hlive (by omega), attr16_eq hlive hidx, store16_eq (by omega)]
    exact hacts

theorem acts_writeDword (mem : Mem) (addr x : U32) :
    Acts Cell.write (addrBytes 4 addr x) mem ((addrBytes 4 addr x).map Prod.snd)
      (vmWDword mem addr x) := by
  obtain ⟨m, hget, hlive, hflat, hinv, hloc⟩ := vmGetPage_spec mem addr
  unfold vmWDword
  rw [hget]
  dsimp only
  refine Acts.congr ?_ hflat hinv hloc
  by_cases hslow : (pageIdx addr).toNat ≥ 4093 ∨ (m.pageAt addr).attr32 (pageIdx addr) &&&
      perm32 permW ≠ perm32 permW
  · rw [if_pos hslow, addrBytes_four]
    have h₀ := acts_writeByte m addr (x.extractLsb' 0 8)
    have h₁ := acts_writeByte (vmWByte m addr (x.extractLsb' 0 8)) (addr + 1) (x.extractLsb' 8 8)
    refine (h₀.two h₁).append (Acts.two (acts_writeByte _ (addr + 2) (x.extractLsb' 16 8)) ?_)
    exact acts_writeByte _ (addr + 3) (x.extractLsb' 24 8)
  · rw [if_neg hslow]
    rw [not_or, ge_iff_le, Nat.not_le, ne_eq, Classical.not_not] at hslow
    have hidx : (pageIdx addr).toNat + 4 ≤ 4096 := by omega
    have htest := hslow.2
    rw [attr32_eq hlive hidx, perm32_test] at htest
    have hready : ∀ a ∈ addrs 4 addr, (m.flat a).attr.hasAll permW := by
      rw [addrs_four]
      simp only [List.forall_mem_cons, List.not_mem_nil, false_imp_iff, implies_true, and_true]
      exact ⟨htest.2.2, htest.2.1, htest.1.2, htest.1.1⟩
    have hacts := acts_fastWrite hlive (by decide) hidx hready x
    rw [addrAttrs_four] at hacts
    rw [putPage_setAttr32 hlive (by omega), attr32_eq hlive hidx, store32_eq (by omega)]
    exact hacts

end Wide

/-! ## Accesses -/

theorem rule_keepsData {kind : MemioKind} {bits : MemioBits} (hkind : kind ≠ .w) :
    KeepsData (Cell.rule kind bits) := by
  cases kind with
  | r =>
    cases bits with
    | b8noperm => exact readNoperm_keepsData
    | _ => exact fetch_keepsData permR accRead
  | w => exact absurd rfl hkind
  | x => exact fetch_keepsData permX accExec
  | i => exact fun _ _ => rfl
  | o => exact fun _ _ => rfl

/-- A memory access of `vm_memio`: the value left and the invalid flag, and the memory. -/
def Mem.access (mem : Mem) (kind : MemioKind) (bits : MemioBits) (addr val : U32) :
    (U32 × Bool) × Mem :=
  let (v, mem) := vmMemAccess { mem with invalid := false } kind bits addr val
  ((v, mem.invalid), mem)

theorem addrBytes_one {w : Nat} (addr : U32) (x : BitVec w) :
    addrBytes 1 addr x = [(addr, x.extractLsb' 0 8)] := by
  show [(addr + 0#32, _)] = _
  rw [BitVec.add_zero]

/-- The bytes of a value that fit into `n` bytes. -/
theorem addrBytes_setWidth {w v n : Nat} (hn : 8 * n ≤ v) (addr : U32) (x : BitVec w) :
    addrBytes n addr (x.setWidth v) = addrBytes n addr x := by
  apply List.map_congr_left
  intro i hi
  rw [List.mem_range] at hi
  rw [BitVec.extractLsb'_setWidth_of_le (by omega)]

/-- An access without a result acts on its cells. -/
theorem memAccess_write (mem : Mem) (bits : MemioBits) (addr val : U32) :
    ∃ res, Acts (Cell.rule .w bits) (accessBytes .w bits addr val) mem res
      (vmMemAccess mem .w bits addr val).2 := by
  have hbyte : val.setWidth 8 = val.extractLsb' 0 8 := BitVec.setWidth_eq_extractLsb' (by decide)
  cases bits with
  | b8 =>
    have hacts := acts_writeByte mem addr (val.setWidth 8)
    rw [hbyte, ← addrBytes_one, ← hbyte] at hacts
    exact ⟨_, hacts⟩
  | b16 =>
    have hacts := acts_writeWord mem addr (val.setWidth 16)
    rw [addrBytes_setWidth (by decide)] at hacts
    exact ⟨_, hacts⟩
  | b32 => exact ⟨_, acts_writeDword mem addr val⟩
  | b8noperm =>
    have hacts := acts_writeNoperm mem addr (val.setWidth 8)
    rw [hbyte, ← addrBytes_one, ← hbyte] at hacts
    exact ⟨_, hacts⟩

/-- A read returns the little-endian number of the bytes it acts on. -/
theorem memAccess_read (mem : Mem) (bits : MemioBits) (addr val : U32) :
    ∃ res, Acts (Cell.rule .r bits) (accessBytes .r bits addr val) mem res
      (vmMemAccess mem .r bits addr val).2 ∧
      (vmMemAccess mem .r bits addr val).1 = leVal res := by
  cases bits with
  | b8 =>
    have hacts := acts_readByte mem addr (val.extractLsb' 0 8)
    rw [← addrBytes_one] at hacts
    exact ⟨_, hacts, rfl⟩
  | b16 =>
    obtain ⟨v₀, v₁, hacts, hval⟩ := acts_readWord mem addr val
    exact ⟨_, hacts, congrArg (BitVec.setWidth 32) hval⟩
  | b32 =>
    obtain ⟨v₀, v₁, v₂, v₃, hacts, hval⟩ := acts_readDword mem addr val
    exact ⟨_, hacts, hval⟩
  | b8noperm =>
    have hacts := acts_readNoperm mem addr (val.extractLsb' 0 8)
    rw [← addrBytes_one] at hacts
    exact ⟨_, hacts, rfl⟩

theorem memAccess_exec (mem : Mem) {bits : MemioBits} (hbits : bits ≠ .b8noperm)
    (addr val : U32) :
    ∃ res, Acts (Cell.rule .x bits) (accessBytes .x bits addr val) mem res
      (vmMemAccess mem .x bits addr val).2 ∧
      (vmMemAccess mem .x bits addr val).1 = leVal res := by
  cases bits with
  | b8 =>
    have hacts := acts_execByte mem addr (val.extractLsb' 0 8)
    rw [← addrBytes_one] at hacts
    exact ⟨_, hacts, rfl⟩
  | b16 =>
    obtain ⟨v₀, v₁, hacts, hval⟩ :=
      acts_execWord mem addr (val.extractLsb' 0 8) (val.extractLsb' 8 8)
    rw [← addrBytes_two] at hacts
    exact ⟨_, hacts, congrArg (BitVec.setWidth 32) hval⟩
  | b32 =>
    obtain ⟨v₀, v₁, v₂, v₃, hacts, hval⟩ := acts_execDword mem addr val
    exact ⟨_, hacts, hval⟩
  | b8noperm => exact absurd rfl hbits

/-- An access of no bytes. -/
theorem acts_nil (mem : Mem) (rule : Rule) : Acts rule [] mem [] mem :=
  ⟨rfl, fun _ => rfl, (Bool.or_false _).symm, fun _ => rfl, fun _ => rfl⟩

/-- Every access acts on its cells, and returns a value as the flat access does. -/
theorem memAccess_spec (mem : Mem) (kind : MemioKind) (bits : MemioBits)
    (addr val : U32) :
    ∃ res, Acts (Cell.rule kind bits) (accessBytes kind bits addr val) mem res
      (vmMemAccess mem kind bits addr val).2 ∧
      (vmMemAccess mem kind bits addr val).1 =
        if kind = .r ∨ kind = .x ∧ bits ≠ .b8noperm then leVal res else val := by
  cases kind with
  | r =>
    obtain ⟨res, hacts, hval⟩ := memAccess_read mem bits addr val
    exact ⟨res, hacts, by rw [hval, if_pos (Or.inl rfl)]⟩
  | w =>
    obtain ⟨res, hacts⟩ := memAccess_write mem bits addr val
    refine ⟨res, hacts, ?_⟩
    rw [if_neg (by simp)]
    cases bits <;> rfl
  | x =>
    by_cases hbits : bits = .b8noperm
    · subst hbits
      exact ⟨[], acts_nil mem _, rfl⟩
    · obtain ⟨res, hacts, hval⟩ := memAccess_exec mem hbits addr val
      exact ⟨res, hacts, by rw [hval, if_pos (Or.inr ⟨rfl, hbits⟩)]⟩
  | i => exact ⟨[], by cases bits <;> exact acts_nil mem _, by cases bits <;> rfl⟩
  | o => exact ⟨[], by cases bits <;> exact acts_nil mem _, by cases bits <;> rfl⟩

/-- Attributes and invalid flag after an access are those of the flat memory, wherever the pages are
mapped to. -/
theorem access_attr (mem : Mem) (kind : MemioKind) (bits : MemioBits)
    (addr val : U32) :
    (mem.access kind bits addr val).2.hostLoc = mem.hostLoc ∧
      (mem.access kind bits addr val).1.2 = (mem.flat.access kind bits addr val).1.2 ∧
      ∀ a, ((mem.access kind bits addr val).2.flat a).attr =
        ((mem.flat.access kind bits addr val).2 a).attr := by
  obtain ⟨res, hacts, _⟩ := memAccess_spec { mem with invalid := false } kind bits addr val
  exact ⟨hacts.hostLoc, hacts.invalid.trans (Bool.false_or _), hacts.attr⟩

/-- An access to the paged memory is the access to its flat memory, when the pages lie apart or the
access does not store. -/
theorem access_refines {mem : Mem} {kind : MemioKind} (hsafe : mem.Sep ∨ kind ≠ .w)
    (bits : MemioBits) (addr val : U32) :
    (mem.access kind bits addr val).1 = (mem.flat.access kind bits addr val).1 ∧
      (mem.access kind bits addr val).2.flat = (mem.flat.access kind bits addr val).2 := by
  obtain ⟨res, hacts, hval⟩ := memAccess_spec { mem with invalid := false } kind bits addr val
  have hsafe' : mem.SafeFor (Cell.rule kind bits) := hsafe.imp_right rule_keepsData
  refine ⟨?_, hacts.flat hsafe'⟩
  show ((vmMemAccess { mem with invalid := false } kind bits addr val).1,
    (vmMemAccess { mem with invalid := false } kind bits addr val).2.invalid) = _
  rw [hval, hacts.invalid, hacts.res hsafe', Bool.false_or]
  rfl

/-- An access that does not store leaves all data. -/
theorem access_data (mem : Mem) {kind : MemioKind} (hkind : kind ≠ .w) (bits : MemioBits)
    (addr val : U32) (a : U32) :
    ((mem.access kind bits addr val).2.flat a).data = (mem.flat a).data := by
  rw [(access_refines (Or.inr hkind) bits addr val).2]
  exact onCells_keeps (R := fun c c' : Cell => c'.data = c.data) (fun _ => rfl)
    (fun h₁ h₂ => h₂.trans h₁) (rule_keepsData hkind) _ mem.flat a

/-- The cell at an address of the access is changed once, by the byte rule. -/
theorem access_attr_at (mem : Mem) {kind : MemioKind} {bits : MemioBits} {addr : U32} (val : U32)
    {a : U32} (ha : a ∈ addrs (accessWidth kind bits) addr) :
    ∃ v, ((mem.access kind bits addr val).2.flat a).attr =
      (Cell.rule kind bits v (mem.flat a)).2.attr := by
  rw [← map_fst_addrBytes _ addr val, List.mem_map] at ha
  obtain ⟨⟨b, v⟩, hmem, rfl⟩ := ha
  refine ⟨v, ?_⟩
  rw [(access_attr mem kind bits addr val).2.2]
  exact congrArg Cell.attr (onCells_mem _ (accessBytes_nodup kind bits addr val) mem.flat hmem)

/-- The attributes at all other addresses stay. -/
theorem access_attr_frame (mem : Mem) {kind : MemioKind} {bits : MemioBits} {addr : U32} (val : U32)
    {a : U32} (ha : a ∉ addrs (accessWidth kind bits) addr) :
    ((mem.access kind bits addr val).2.flat a).attr = (mem.flat a).attr := by
  rw [← map_fst_addrBytes _ addr val] at ha
  rw [(access_attr mem kind bits addr val).2.2]
  exact congrArg Cell.attr (onCells_frame _ _ mem.flat ha)

/-! ## The handler -/

/-- What `vm_memio` returns for a memory access. -/
theorem vmMemio_result (inp : PortInput) (s : St) {kind : MemioKind}
    (hkind : kind = .r ∨ kind = .w ∨ kind = .x) (bits : MemioBits) (addr val : U32) :
    (vmMemio inp s kind bits addr val).1 = (s.mem.access kind bits addr val).1 := by
  rcases hkind with rfl | rfl | rfl <;> rfl

theorem access_port (mem : Mem) {kind : MemioKind} (hkind : kind = .i ∨ kind = .o)
    (bits : MemioBits) (addr val : U32) :
    (mem.access kind bits addr val).2 = { mem with invalid := false } := by
  rcases hkind with rfl | rfl <;> cases bits <;> rfl

/-- The memory `vm_memio` leaves; a port access leaves all of it. -/
theorem vmMemio_mem (inp : PortInput) (s : St) (kind : MemioKind) (bits : MemioBits)
    (addr val : U32) :
    (s.mem.access kind bits addr val).2.SameCells (vmMemio inp s kind bits addr val).2.mem := by
  have hport := vmPortAccess_mem inp { s with mem := { s.mem with invalid := false } }
  cases kind with
  | r => exact Mem.SameCells.refl _
  | w => exact Mem.SameCells.refl _
  | x => exact Mem.SameCells.refl _
  | i => exact (access_port s.mem (Or.inl rfl) bits addr val).symm ▸ hport .i bits addr val
  | o => exact (access_port s.mem (Or.inr rfl) bits addr val).symm ▸ hport .o bits addr val

theorem Mem.SameCells.flat {mem mem' : Mem} (h : mem.SameCells mem') : mem'.flat = mem.flat := by
  obtain ⟨b, rfl⟩ := h
  rfl

theorem Mem.SameCells.hostLoc {mem mem' : Mem} (h : mem.SameCells mem') :
    mem'.hostLoc = mem.hostLoc := by
  obtain ⟨b, rfl⟩ := h
  rfl

/-! ## Sequences of accesses -/

structure Access where
  kind : MemioKind
  bits : MemioBits
  addr : U32
  val : U32
  deriving DecidableEq, Repr

/-- What the accesses return, one after the other, and the memory after them. -/
def runAccesses {M : Type} (step : M → Access → (U32 × Bool) × M) :
    List Access → M → List (U32 × Bool) × M
  | [], m => ([], m)
  | a :: as, m =>
    let (res, m) := step m a
    let (out, m) := runAccesses step as m
    (res :: out, m)

def Mem.step (mem : Mem) (a : Access) : (U32 × Bool) × Mem :=
  mem.access a.kind a.bits a.addr a.val

def Flat.step (f : Flat) (a : Access) : (U32 × Bool) × Flat :=
  f.access a.kind a.bits a.addr a.val

theorem runAccesses_refines {mem : Mem} (hsep : mem.Sep) (as : List Access) :
    (runAccesses Mem.step as mem).1 = (runAccesses Flat.step as mem.flat).1 ∧
      (runAccesses Mem.step as mem).2.flat = (runAccesses Flat.step as mem.flat).2 := by
  induction as generalizing mem with
  | nil => exact ⟨rfl, rfl⟩
  | cons a as ih =>
    obtain ⟨hloc, _⟩ := access_attr mem a.kind a.bits a.addr a.val
    obtain ⟨hres, hflat⟩ := access_refines (Or.inl hsep : mem.Sep ∨ a.kind ≠ .w) a.bits
      a.addr a.val
    obtain ⟨hres', hflat'⟩ := ih (hsep.congr hloc)
    rw [hflat] at hres' hflat'
    refine ⟨?_, hflat'⟩
    show _ :: _ = _ :: _
    exact congrArg₂ List.cons hres hres'

theorem emuMemNew_sep (perm : U32) : (emuMemNew perm).Sep := by
  intro a b n ha
  cases ha

/-- The flat memory of a new one: the default attribute and zeros. -/
def Flat.new (perm : U32) : Flat := fun _ => ⟨perm.setWidth 8, 0⟩

/-- From a new memory every sequence of accesses returns the values and the invalid flags of the
flat memory, and leaves its attributes and data. -/
theorem accesses_from_new_refine (perm : U32) (as : List Access) :
    (runAccesses Mem.step as (emuMemNew perm)).1 = (runAccesses Flat.step as (Flat.new perm)).1 ∧
      (runAccesses Mem.step as (emuMemNew perm)).2.flat =
        (runAccesses Flat.step as (Flat.new perm)).2 :=
  runAccesses_refines (emuMemNew_sep perm) as

end X86Emu
