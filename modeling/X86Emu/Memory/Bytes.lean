import X86Emu.Memory.Protection

/-!
# The bytes of an access

What a permitted read returns, bit by bit, and what a permitted write leaves at every address.
-/

namespace X86Emu

open Lib

/-- Every address of an access has the permission. -/
def Mem.Permits (mem : Mem) (perm : U8) (n : Nat) (addr : U32) : Prop :=
  ∀ i < n, (mem.flat (addr + BitVec.ofNat 32 i)).attr.has perm = true

theorem mem_addrs {n : Nat} {addr a : U32} :
    a ∈ addrs n addr ↔ ∃ i < n, a = addr + BitVec.ofNat 32 i := by
  unfold addrs
  rw [List.mem_map]
  refine ⟨?_, ?_⟩
  · rintro ⟨i, hi, rfl⟩
    exact ⟨i, List.mem_range.mp hi, rfl⟩
  · rintro ⟨i, hi, rfl⟩
    exact ⟨i, List.mem_range.mpr hi, rfl⟩

theorem addr_add_inj (a : U32) {i j : Nat} (hi : i < 2 ^ 32) (hj : j < 2 ^ 32) :
    a + BitVec.ofNat 32 i = a + BitVec.ofNat 32 j ↔ i = j := by
  rw [BitVec.add_right_inj, ← BitVec.toNat_inj, BitVec.toNat_ofNat, BitVec.toNat_ofNat,
    Nat.mod_eq_of_lt hi, Nat.mod_eq_of_lt hj]

/-- The permissions after accesses by instructions are those before. -/
theorem Mem.Guarded.permits {mem mem' : Mem} (h : mem.Guarded mem') {perm : U8}
    (hperm : perm = permR ∨ perm = permW ∨ perm = permX) (n : Nat) (addr : U32) :
    mem'.Permits perm n addr ↔ mem.Permits perm n addr := by
  unfold Mem.Permits
  simp only [(h.cells _).has_eq hperm]

theorem fetch_permitted {perm acc : U8} {c : Cell} (hperm : c.attr.has perm = true) :
    (Cell.fetch perm acc c).1.1 = c.data := by
  unfold Cell.fetch
  rw [if_pos hperm]
  split <;> rfl

theorem write_permitted {c : Cell} (hperm : c.attr.has permW = true) (v : U8) :
    (Cell.write v c).2.data = v := by
  unfold Cell.write
  rw [if_pos hperm]

/-- Bit `k` of byte `i` of the number read. -/
theorem getLsbD_leVal {n : Nat} (hn : n = 1 ∨ n = 2 ∨ n = 4) (addr : U32) (data : U32 → U8)
    {i k : Nat} (hi : i < n) (hk : k < 8) :
    (leVal ((addrs n addr).map data)).getLsbD (8 * i + k) =
      (data (addr + BitVec.ofNat 32 i)).getLsbD k := by
  rcases hn with rfl | rfl | rfl
  · obtain rfl : i = 0 := by omega
    show ((data (addr + BitVec.ofNat 32 0)).setWidth 32).getLsbD (8 * 0 + k) = _
    rw [Nat.mul_zero, Nat.zero_add, BitVec.getLsbD_setWidth, decide_eq_true (by omega),
      Bool.true_and]
  · show ((data (addr + BitVec.ofNat 32 1) ++ data (addr + BitVec.ofNat 32 0)).setWidth 32).getLsbD
      (8 * i + k) = _
    rw [BitVec.getLsbD_setWidth, decide_eq_true (by omega), Bool.true_and, BitVec.getLsbD_append]
    obtain rfl | rfl : i = 0 ∨ i = 1 := by omega
    · rw [if_pos (by omega), Nat.mul_zero, Nat.zero_add]
    · rw [if_neg (by omega), Nat.mul_one, Nat.add_sub_cancel_left]
  · show ((data (addr + BitVec.ofNat 32 3) ++ data (addr + BitVec.ofNat 32 2)) ++
      (data (addr + BitVec.ofNat 32 1) ++ data (addr + BitVec.ofNat 32 0))).getLsbD (8 * i + k) = _
    simp only [BitVec.getLsbD_append]
    obtain rfl | rfl | rfl | rfl : i = 0 ∨ i = 1 ∨ i = 2 ∨ i = 3 := by omega
    · rw [if_pos (by omega), if_pos (by omega), Nat.mul_zero, Nat.zero_add]
    · rw [if_pos (by omega), if_neg (by omega), Nat.mul_one, Nat.add_sub_cancel_left]
    · rw [if_neg (by omega), if_pos (by omega), show 8 * 2 + k - (8 + 8) = k by omega]
    · rw [if_neg (by omega), if_neg (by omega), show 8 * 3 + k - (8 + 8) - 8 = k by omega]

/-- What a permitted read returns. -/
theorem access_read {mem : Mem} {bits : MemioBits} (hbits : bits ≠ .b8noperm) {addr : U32}
    (hread : mem.Permits permR (accessWidth .r bits) addr) (val : U32) :
    (mem.access .r bits addr val).1.1 =
      leVal ((addrs (accessWidth .r bits) addr).map fun a => (mem.flat a).data) := by
  rw [(access_refines (Or.inr (by decide)) bits addr val).1]
  unfold Flat.access
  dsimp only
  rw [if_pos (Or.inl rfl), onCells_results _ (accessBytes_nodup .r bits addr val), List.map_map]
  congr 1
  rw [← map_fst_addrBytes _ addr val, List.map_map]
  apply List.map_congr_left
  intro p hp
  have hmem : p.1 ∈ addrs (accessWidth .r bits) addr := by
    rw [← map_fst_addrBytes _ addr val]
    exact List.mem_map_of_mem hp
  obtain ⟨i, hi, hp1⟩ := mem_addrs.mp hmem
  show (Cell.rule .r bits p.2 (mem.flat p.1)).1.1 = (mem.flat p.1).data
  rw [rule_read hbits, fetch_permitted (hp1 ▸ hread i hi)]

/-- The bytes a permitted write stores. -/
theorem access_write {mem : Mem} (hsep : mem.Sep) {bits : MemioBits} (hbits : bits ≠ .b8noperm)
    {addr : U32} (hwrite : mem.Permits permW (accessWidth .w bits) addr) (val : U32) {i : Nat}
    (hi : i < accessWidth .w bits) :
    ((mem.access .w bits addr val).2.flat (addr + BitVec.ofNat 32 i)).data =
      val.extractLsb' (8 * i) 8 := by
  rw [(access_refines (Or.inl hsep) bits addr val).2]
  have hmem : (addr + BitVec.ofNat 32 i, val.extractLsb' (8 * i) 8) ∈
      accessBytes .w bits addr val :=
    List.mem_map.mpr ⟨i, List.mem_range.mpr hi, rfl⟩
  unfold Flat.access
  dsimp only
  rw [onCells_mem _ (accessBytes_nodup .w bits addr val) _ hmem, rule_write hbits,
    write_permitted (hwrite i hi)]

/-- A write leaves all other bytes. -/
theorem access_write_frame {mem : Mem} (hsep : mem.Sep) (bits : MemioBits) {addr : U32} (val : U32)
    {a : U32} (ha : ∀ i < accessWidth .w bits, a ≠ addr + BitVec.ofNat 32 i) :
    (mem.access .w bits addr val).2.flat a = mem.flat a := by
  rw [(access_refines (Or.inl hsep) bits addr val).2]
  apply onCells_frame
  rw [accessBytes, map_fst_addrBytes, mem_addrs]
  rintro ⟨i, hi, rfl⟩
  exact ha i hi rfl

/-- A memory with these bytes, in which everything is allowed. -/
def wholeMem (bytes : U32 → U8) : Mem :=
  { pdir := some fun i => some fun j =>
      { alloc := some
          { attr := fun _ => permRwx ||| permValid
            own := fun k => bytes (i ++ j ++ k) } } }

theorem flat_wholeMem (bytes : U32 → U8) (a : U32) :
    (wholeMem bytes).flat a = ⟨permRwx ||| permValid, bytes a⟩ := by
  have hbyte : (wholeMem bytes).flat a =
      ⟨permRwx ||| permValid, bytes (pdirIdx a ++ ptableIdx a ++ pageIdx a)⟩ := rfl
  rw [hbyte, ← addr_eq_append]

end X86Emu
