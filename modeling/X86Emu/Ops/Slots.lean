import X86Emu.Decode.SegLoad
import X86Emu.Ops.BitString
import X86Emu.Ops.Stack

/-!
# Numbers on the stack

Numbers in memory, and what becomes of them when other numbers are stored. A push writes the slot
below the stack pointer. The slots of the pushes that follow each other do not overlap, also where
the stack pointer wraps around in 16 bits, so that in writable memory all the numbers are found
there afterwards.
-/

namespace X86Emu

open Lib

/-! ## Numbers in memory -/

/-- The number that an instruction reads at a linear address. -/
def Mem.num (mem : Mem) (z : OpSize) (a : U32) : BitVec z.bits :=
  (mem.access .r z.width.bits a 0).1.1.setWidth z.bits

/-- The bytes at `n` addresses may be read and written. -/
def Mem.Ram (mem : Mem) (n : Nat) (a : U32) : Prop := mem.Permits permR n a ∧ mem.Permits permW n a

theorem Mem.Guarded.ram {mem mem' : Mem} (h : mem.Guarded mem') (n : Nat) (a : U32) :
    mem'.Ram n a ↔ mem.Ram n a :=
  and_congr (h.permits (Or.inl rfl) n a) (h.permits (Or.inr (Or.inl rfl)) n a)

theorem Mem.Marked.num {mem mem' : Mem} (h : mem.Marked mem') (z : OpSize) (a : U32) :
    mem'.num z a = mem.num z a := by
  unfold Mem.num
  rw [h.access_result (by decide)]

theorem Cell.Marked.guarded {c c' : Cell} (h : c.Marked c') : c.Guarded c' := by
  have hpart : ∀ a : U8, a &&& permRwx = (a &&& permAll) &&& permRwx := by
    intro a
    rw [BitVec.and_assoc, show permAll &&& permRwx = permRwx by decide]
  refine ⟨?_, fun hvalid => ?_, fun _ => h.data⟩
  · rw [hpart, h.perm, ← hpart]
  · rw [h.has_eq (by decide), hvalid]

theorem Mem.Marked.guarded {mem mem' : Mem} (h : mem.Marked mem') : mem.Guarded mem' :=
  ⟨h.hostLoc, fun a => (h.cells a).guarded⟩

/-- What an access that does not write returns depends on its cells only. -/
theorem access_congr {mem mem' : Mem} {kind : MemioKind} (hkind : kind ≠ .w) (bits : MemioBits)
    (addr val : U32)
    (h : ∀ a ∈ addrs (accessWidth kind bits) addr, (mem.flat a).Marked (mem'.flat a)) :
    (mem'.access kind bits addr val).1 = (mem.access kind bits addr val).1 := by
  rw [(access_refines (Or.inr hkind) bits addr val).1,
    (access_refines (Or.inr hkind) bits addr val).1]
  unfold Flat.access
  dsimp only
  rw [onCells_results _ (accessBytes_nodup kind bits addr val),
    onCells_results _ (accessBytes_nodup kind bits addr val)]
  have hcells : (accessBytes kind bits addr val).map (fun p => (Cell.rule kind bits p.2
      (mem'.flat p.1)).1) = (accessBytes kind bits addr val).map fun p => (Cell.rule kind bits p.2
      (mem.flat p.1)).1 := by
    apply List.map_congr_left
    intro p hp
    have hmem : p.1 ∈ addrs (accessWidth kind bits) addr := by
      rw [← map_fst_addrBytes _ addr val]
      exact List.mem_map_of_mem hp
    exact (rule_marked hkind bits p.2 (h p.1 hmem)).1
  rw [hcells]

/-- A number is the same when its cells are. -/
theorem num_congr {mem mem' : Mem} (z : OpSize) (a : U32)
    (h : ∀ i < z.bytes, mem'.flat (a + BitVec.ofNat 32 i) = mem.flat (a + BitVec.ofNat 32 i)) :
    mem'.num z a = mem.num z a := by
  unfold Mem.num
  rw [access_congr (by decide)]
  intro b hb
  obtain ⟨i, hi, rfl⟩ := mem_addrs.mp hb
  rw [(accessWidth_width z).1] at hi
  rw [h i hi]
  exact .refl _

/-- The number stored is the one read. -/
theorem num_stored {mem : Mem} (hsep : mem.Sep) {z : OpSize} {a : U32} (hram : mem.Ram z.bytes a)
    (v : BitVec z.bits) : (mem.access .w z.width.bits a (v.setWidth 32)).2.num z a = v := by
  obtain ⟨hread, hwrite⟩ := hram
  obtain ⟨hbits, hbytes⟩ := z.bits_eq
  have hguard : mem.Guarded (mem.access .w z.width.bits a (v.setWidth 32)).2 :=
    access_guarded hsep (fun h => width_ne_noperm z h.2) a _
  have hread' := (hguard.permits (Or.inl rfl) z.bytes a).mpr hread
  rw [← (accessWidth_width z).1] at hread'
  unfold Mem.num
  rw [access_read (width_ne_noperm z) hread', (accessWidth_width z).1]
  apply BitVec.eq_of_getLsbD_eq
  intro b hb
  rw [BitVec.getLsbD_setWidth, decide_eq_true hb, Bool.true_and, ← Nat.div_add_mod b 8,
    getLsbD_leVal hbytes _ _ (by omega) (by omega),
    access_write hsep (width_ne_noperm z) (by rwa [(accessWidth_width z).2]) _
      (by rw [(accessWidth_width z).2]; omega),
    BitVec.getLsbD_extractLsb', decide_eq_true (by omega), Bool.true_and, BitVec.getLsbD_setWidth,
    decide_eq_true (by omega), Bool.true_and]

/-- A store leaves the cells outside of it. -/
theorem flat_stored {mem : Mem} (hsep : mem.Sep) (z : OpSize) {a b : U32} (v : U32)
    (hb : ∀ i < z.bytes, b ≠ a + BitVec.ofNat 32 i) :
    (mem.access .w z.width.bits a v).2.flat b = mem.flat b :=
  access_write_frame hsep _ v (by rwa [(accessWidth_width z).2])

/-! ## Offsets below the stack pointer -/

/-- The linear address `m` bytes below the stack pointer, in the width of the stack. -/
def Cpu.below (c : Cpu) (m : Nat) : U32 := c.linear .ss (c.moveSp (-BitVec.ofNat 32 m)).spOfs

theorem spOfs_moveSp (c : Cpu) (d : U32) : (c.moveSp d).spOfs =
    if c.mode.stack32 then c.gen .sp + d else (c.get16 .sp + d.setWidth 16).setWidth 32 := by
  unfold Cpu.moveSp Cpu.spOfs
  cases hstack : c.mode.stack32 with
  | true =>
    rw [if_pos rfl, if_pos rfl]
    exact (if_pos hstack).trans (setGen_self .sp _ c)
  | false =>
    rw [if_neg Bool.false_ne_true, if_neg Bool.false_ne_true]
    refine (if_neg (hstack ▸ Bool.false_ne_true)).trans (congrArg (BitVec.setWidth 32) ?_)
    unfold Cpu.get16 Cpu.set16
    rw [setGen_self, setWidth_setLo16]

theorem moveSp_seg (c : Cpu) (d : U32) : (c.moveSp d).seg = c.seg := by
  unfold Cpu.moveSp
  split <;> rfl

theorem moveSp_mode (c : Cpu) (d : U32) : (c.moveSp d).mode = c.mode := by
  unfold Cpu.moveSp
  split <;> rfl

theorem setGen_setGen (c : Cpu) (r : Reg) (v w : U32) :
    (c.setGen r v).setGen r w = c.setGen r w := by
  unfold Cpu.setGen
  dsimp only
  rw [Function.update_idem]

theorem setGen_gen_self (c : Cpu) (r : Reg) : c.setGen r (c.gen r) = c := by
  unfold Cpu.setGen
  rw [Function.update_eq_self]

theorem moveSp_eq (c : Cpu) (d : U32) :
    c.moveSp d = c.setGen .sp (idxAdd c.mode.stack32 d (c.gen .sp)) := by
  unfold Cpu.moveSp idxAdd
  split <;> rfl

theorem moveSp_moveSp (c : Cpu) (d e : U32) : (c.moveSp d).moveSp e = c.moveSp (d + e) := by
  rw [moveSp_eq (c.moveSp d), moveSp_mode, moveSp_sp, idxAdd_idxAdd, moveSp_eq c d, setGen_setGen,
    moveSp_eq]

theorem moveSp_zero (c : Cpu) : c.moveSp 0 = c := by
  rw [moveSp_eq, idxAdd_zero, setGen_gen_self]

/-- The address below depends on the stack segment, the stack pointer and the width of the stack. -/
theorem below_congr {c c' : Cpu} (hseg : c'.seg .ss = c.seg .ss) (hsp : c'.gen .sp = c.gen .sp)
    (hmode : c'.mode.stack32 = c.mode.stack32) (m : Nat) : c'.below m = c.below m := by
  unfold Cpu.below Cpu.linear
  rw [hseg, spOfs_moveSp, spOfs_moveSp, hmode, hsp, Cpu.get16, Cpu.get16, hsp]

theorem below_moveSp (c : Cpu) (m n : Nat) :
    (c.moveSp (-BitVec.ofNat 32 m)).below n = c.below (m + n) := by
  unfold Cpu.below Cpu.linear
  rw [moveSp_moveSp, moveSp_seg, BitVec.ofNat_add, BitVec.neg_add, BitVec.sub_eq_add_neg]

theorem below_zero (c : Cpu) : c.below 0 = c.linear .ss c.spOfs := by
  unfold Cpu.below
  rw [show -BitVec.ofNat 32 0 = (0 : U32) from rfl, moveSp_zero]

/-- Bytes at different distances below the stack pointer are at different addresses. -/
theorem below_add_inj (c : Cpu) {m n i j : Nat} (hm : m ≤ 0x8000) (hn : n ≤ 0x8000) (hi : i ≤ 0x100)
    (hj : j ≤ 0x100) (heq : c.below m + BitVec.ofNat 32 i = c.below n + BitVec.ofNat 32 j) :
    i + n = j + m := by
  unfold Cpu.below Cpu.linear at heq
  rw [BitVec.add_assoc, BitVec.add_assoc, BitVec.add_right_inj, spOfs_moveSp,
    spOfs_moveSp] at heq
  split at heq
  · have hnat := congrArg BitVec.toNat heq
    simp only [BitVec.toNat_add, BitVec.toNat_neg, BitVec.toNat_ofNat] at hnat
    omega
  · have hnat := congrArg BitVec.toNat heq
    have hsp := (c.get16 .sp).isLt
    simp only [BitVec.toNat_add, BitVec.toNat_setWidth, BitVec.toNat_neg,
      BitVec.toNat_ofNat] at hnat
    omega

/-! ## Registers by their numbers -/

theorem ofBits_inj {i j : BitVec 3} : Reg.ofBits i = Reg.ofBits j ↔ i = j := by
  revert i j
  decide

theorem ofBits_sp {i : BitVec 3} : Reg.ofBits i = .sp ↔ i = 4 := ofBits_inj (j := 4)

theorem ofNat_ne {i j : Nat} (hi : i < 8) (hj : j < 8) (hne : i ≠ j) :
    Reg.ofBits (BitVec.ofNat 3 i) ≠ Reg.ofBits (BitVec.ofNat 3 j) := by
  intro heq
  have hnat := congrArg BitVec.toNat (ofBits_inj.mp heq)
  rw [BitVec.toNat_ofNat, BitVec.toNat_ofNat] at hnat
  omega

theorem ofNat_sp {i : Nat} (hi : i < 8) (hne : i ≠ 4) : Reg.ofBits (BitVec.ofNat 3 i) ≠ .sp :=
  ofNat_ne hi (j := 4) (by decide) hne

section

variable {z : OpSize} (hz : z ≠ .byte) (c : Cpu) (i : BitVec 3) (v : BitVec z.bits)

include hz

theorem setReg_setGen : ∃ x, c.setReg z i v = c.setGen (Reg.ofBits i) x ∧
    ∀ c' : Cpu, c'.gen (Reg.ofBits i) = c.gen (Reg.ofBits i) →
      c'.setReg z i v = c'.setGen (Reg.ofBits i) x := by
  cases z with
  | byte => exact absurd rfl hz
  | word =>
    refine ⟨setLo16 (c.gen (Reg.ofBits i)) v, rfl, fun c' hgen => ?_⟩
    rw [← hgen]
    rfl
  | long => exact ⟨v, rfl, fun _ _ => rfl⟩

theorem setReg_ne {r : Reg} (hr : r ≠ Reg.ofBits i) : (c.setReg z i v).gen r = c.gen r := by
  obtain ⟨x, hset, -⟩ := setReg_setGen hz c i v
  rw [hset]
  exact setGen_ne hr x c

theorem setReg_congr {c' : Cpu} (hgen : c'.gen (Reg.ofBits i) = c.gen (Reg.ofBits i)) :
    (c'.setReg z i v).gen (Reg.ofBits i) = (c.setReg z i v).gen (Reg.ofBits i) := by
  obtain ⟨x, hset, hset'⟩ := setReg_setGen hz c i v
  rw [hset, hset' c' hgen]
  exact (setGen_self _ x c').trans (setGen_self _ x c).symm

theorem setReg_rest : (c.setReg z i v).seg = c.seg ∧ (c.setReg z i v).mode = c.mode := by
  obtain ⟨x, hset, -⟩ := setReg_setGen hz c i v
  rw [hset]
  exact ⟨rfl, rfl⟩

theorem getReg_congr {c' : Cpu} (hgen : c'.gen (Reg.ofBits i) = c.gen (Reg.ofBits i)) :
    c'.getReg z i = c.getReg z i := by
  cases z with
  | byte => exact absurd rfl hz
  | word => exact congrArg (BitVec.setWidth 16) hgen
  | long => exact hgen

end

theorem moveSp_ne {c : Cpu} {r : Reg} (hr : r ≠ .sp) (d : U32) : (c.moveSp d).gen r = c.gen r := by
  rw [moveSp_eq]
  exact setGen_ne hr _ c

/-! ## Pushes -/

/-- The numbers are pushed one after the other. -/
def St.pushes (s : St) (z : OpSize) (vs : List (BitVec z.bits)) : St :=
  vs.foldl (fun s v => s.pushed z.width (v.setWidth 32)) s

/-- The address is one of those written by `n` pushes. -/
def Cpu.InSlots (c : Cpu) (z : OpSize) (n : Nat) (a : U32) : Prop :=
  ∃ i < n, ∃ j < z.bytes, a = c.below ((i + 1) * z.bytes) + BitVec.ofNat 32 j

/-- The bytes of `n` pushes may be read and written. -/
def St.StackRam (s : St) (z : OpSize) (n : Nat) : Prop :=
  ∀ i < n, s.mem.Ram z.bytes (s.cpu.below ((i + 1) * z.bytes))

theorem size_width (z : OpSize) : z.width.size = BitVec.ofNat 32 z.bytes := by
  cases z <;> rfl

section

variable {s : St} {z : OpSize}

theorem pushed_sp (s : St) (z : OpSize) (v : U32) :
    (s.pushed z.width v).cpu = s.cpu.moveSp (-BitVec.ofNat 32 z.bytes) := by
  rw [pushed_cpu, size_width]

theorem pushed_mem (s : St) (z : OpSize) (v : U32) : (s.pushed z.width v).mem =
    (s.mem.access .w z.width.bits (s.cpu.below z.bytes) v).2 := by
  unfold St.pushed
  rw [stored_mem, put_cpu, put_mem, size_width]
  unfold Cpu.below Cpu.linear
  rw [moveSp_seg]

theorem pushed_guarded (hsep : s.mem.Sep) (v : U32) : s.mem.Guarded (s.pushed z.width v).mem := by
  rw [pushed_mem]
  exact access_guarded hsep (fun h => width_ne_noperm z h.2) _ _

theorem pushed_below (s : St) (z : OpSize) (v : U32) (m : Nat) :
    (s.pushed z.width v).cpu.below m = s.cpu.below (z.bytes + m) := by
  rw [pushed_sp, below_moveSp]

theorem pushed_getReg (hz : z ≠ .byte) {i : BitVec 3} (hi : i ≠ 4) (s : St) (v : U32) :
    (s.pushed z.width v).cpu.getReg z i = s.cpu.getReg z i := by
  refine getReg_congr hz _ i ?_
  rw [pushed_cpu]
  exact moveSp_ne (fun h => hi (ofBits_sp.mp h)) _

theorem StackRam.pushed {n : Nat} (hsep : s.mem.Sep) (hram : s.StackRam z (n + 1)) (v : U32) :
    (s.pushed z.width v).StackRam z n := by
  intro i hi
  rw [pushed_below, (pushed_guarded hsep v).ram, Nat.add_comm, ← Nat.succ_mul]
  exact hram (i + 1) (by omega)

theorem pushes_cpu (s : St) (z : OpSize) (vs : List (BitVec z.bits)) :
    (s.pushes z vs).cpu = s.cpu.moveSp (-BitVec.ofNat 32 (vs.length * z.bytes)) := by
  induction vs generalizing s with
  | nil =>
    rw [List.length_nil, Nat.zero_mul, show -BitVec.ofNat 32 0 = (0 : U32) from rfl, moveSp_zero]
    rfl
  | cons v vs ih =>
    have hstep := ih (s.pushed z.width (v.setWidth 32))
    rw [pushed_sp, moveSp_moveSp] at hstep
    refine hstep.trans (congrArg s.cpu.moveSp ?_)
    rw [List.length_cons, Nat.succ_mul, Nat.add_comm, BitVec.ofNat_add, BitVec.neg_add,
      BitVec.sub_eq_add_neg]

theorem pushes_rest (s : St) (z : OpSize) (vs : List (BitVec z.bits)) :
    (s.pushes z vs).cpu.seg = s.cpu.seg ∧ (s.pushes z vs).cpu.mode = s.cpu.mode := by
  rw [pushes_cpu]
  exact ⟨moveSp_seg _ _, moveSp_mode _ _⟩

theorem pushes_guarded (hsep : s.mem.Sep) (vs : List (BitVec z.bits)) :
    s.mem.Guarded (s.pushes z vs).mem := by
  induction vs generalizing s with
  | nil => exact .refl s.mem
  | cons v vs ih =>
    have hguard := pushed_guarded (z := z) hsep (v.setWidth 32)
    exact hguard.trans (ih (hguard.sep hsep))

/-- Pushes leave all cells but those of their slots. -/
theorem pushes_flat (hsep : s.mem.Sep) (vs : List (BitVec z.bits)) {a : U32}
    (ha : ¬s.cpu.InSlots z vs.length a) : (s.pushes z vs).mem.flat a = s.mem.flat a := by
  induction vs generalizing s with
  | nil => rfl
  | cons v vs ih =>
    have hguard := pushed_guarded (z := z) hsep (v.setWidth 32)
    have hfirst : (s.pushed z.width (v.setWidth 32)).mem.flat a = s.mem.flat a := by
      rw [pushed_mem]
      refine flat_stored hsep z _ fun j hj heq => ha ⟨0, Nat.succ_pos _, j, hj, ?_⟩
      rw [Nat.zero_add, Nat.one_mul]
      exact heq
    refine (ih (hguard.sep hsep) ?_).trans hfirst
    rintro ⟨i, hi, j, hj, heq⟩
    refine ha ⟨i + 1, Nat.succ_lt_succ hi, j, hj, ?_⟩
    rw [pushed_below, Nat.add_comm, ← Nat.succ_mul] at heq
    exact heq

theorem bytes_le (z : OpSize) : 0 < z.bytes ∧ z.bytes ≤ 4 := by
  cases z <;> decide

/-- The first slot is apart from those of the later pushes. -/
theorem first_slot_apart (c : Cpu) (z : OpSize) {n : Nat} (hlen : (n + 1) * z.bytes ≤ 0x8000)
    {j : Nat} (hj : j < z.bytes) :
    ¬(c.moveSp (-BitVec.ofNat 32 z.bytes)).InSlots z n (c.below z.bytes + BitVec.ofNat 32 j) := by
  rintro ⟨k, hk, j', hj', heq⟩
  have hz := bytes_le z
  have hslots : (k + 1 + 1) * z.bytes ≤ (n + 1) * z.bytes := Nat.mul_le_mul_right _ (by omega)
  have hone : z.bytes ≤ (k + 1) * z.bytes := Nat.le_mul_of_pos_left _ k.succ_pos
  rw [Nat.succ_mul (k + 1)] at hslots
  rw [below_moveSp] at heq
  have hsame := below_add_inj c (by omega) (by omega) (by omega) (by omega) heq
  omega

/-- The numbers pushed are found in their slots. -/
theorem pushes_num (hsep : s.mem.Sep) (vs : List (BitVec z.bits)) (hram : s.StackRam z vs.length)
    (hlen : vs.length * z.bytes ≤ 0x8000) {i : Nat} (hi : i < vs.length) :
    (s.pushes z vs).mem.num z (s.cpu.below ((i + 1) * z.bytes)) = vs[i] := by
  induction vs generalizing s i with
  | nil => exact absurd hi (Nat.not_lt_zero i)
  | cons v vs ih =>
    have hguard := pushed_guarded (z := z) hsep (v.setWidth 32)
    cases i with
    | zero =>
      rw [Nat.zero_add, Nat.one_mul, List.getElem_cons_zero]
      have hkept : ((s.pushed z.width (v.setWidth 32)).pushes z vs).mem.num z
          (s.cpu.below z.bytes) =
          (s.pushed z.width (v.setWidth 32)).mem.num z (s.cpu.below z.bytes) := by
        refine num_congr z _ fun j hj => pushes_flat (hguard.sep hsep) vs ?_
        rw [pushed_sp]
        exact first_slot_apart s.cpu z hlen hj
      refine hkept.trans ?_
      rw [pushed_mem]
      have hfirst := hram 0 (Nat.succ_pos _)
      rw [Nat.zero_add, Nat.one_mul] at hfirst
      exact num_stored hsep hfirst v
    | succ i =>
      have hrest := ih (hguard.sep hsep) (StackRam.pushed hsep hram (v.setWidth 32))
        (le_trans (Nat.mul_le_mul_right _ (Nat.le_succ _)) hlen) (Nat.lt_of_succ_lt_succ hi)
      rw [pushed_below, Nat.add_comm, ← Nat.succ_mul] at hrest
      exact hrest

end

/-- A new memory in which everything is allowed. -/
theorem newMem_ram (n : Nat) (a : U32) : (emuMemNew 7).Ram n a := by
  have hhas : U8.has ((7 : U32).setWidth 8) permR = true ∧
      U8.has ((7 : U32).setWidth 8) permW = true := by
    decide
  exact ⟨fun _ _ => hhas.1, fun _ _ => hhas.2⟩

theorem fullMem_ram (bytes : BitVec 12 → U8) (n : Nat) (a : U32) : (fullMem bytes).Ram n a := by
  have hhas : U8.has (permRwx ||| permValid) permR = true ∧
      U8.has (permRwx ||| permValid) permW = true := by
    decide
  exact ⟨fun _ _ => hhas.1, fun _ _ => hhas.2⟩

theorem fullMem_sep (bytes : BitVec 12 → U8) : (fullMem bytes).Sep := by
  intro a b n ha
  cases ha

/-! ## Stack pointers -/

/-- The stack pointer of `c'` is `m` bytes below that of `c`, in the same stack. -/
structure Cpu.Down (c : Cpu) (m : Nat) (c' : Cpu) : Prop where
  sp : c'.gen .sp = (c.moveSp (-BitVec.ofNat 32 m)).gen .sp
  ss : c'.seg .ss = c.seg .ss
  stack32 : c'.mode.stack32 = c.mode.stack32

namespace Cpu.Down

variable {c c' c'' : Cpu} {m n : Nat}

theorem refl (c : Cpu) : c.Down 0 c :=
  ⟨by rw [show -BitVec.ofNat 32 0 = (0 : U32) from rfl, moveSp_zero], rfl, rfl⟩

theorem moveSp (c : Cpu) (m : Nat) : c.Down m (c.moveSp (-BitVec.ofNat 32 m)) :=
  ⟨rfl, by rw [moveSp_seg], by rw [moveSp_mode]⟩

theorem zero (h : c.Down 0 c') : c'.gen .sp = c.gen .sp := h.sp.trans (refl c).sp.symm

theorem below (h : c.Down m c') (n : Nat) : c'.below n = c.below (m + n) := by
  rw [← below_moveSp]
  refine below_congr ?_ h.sp ?_ n
  · rw [h.ss, moveSp_seg]
  · rw [h.stack32, moveSp_mode]

/-- A pop of `n` bytes. -/
theorem up (h : c.Down (m + n) c') : c.Down m (c'.moveSp (BitVec.ofNat 32 n)) := by
  refine ⟨?_, by rw [moveSp_seg, h.ss], by rw [moveSp_mode, h.stack32]⟩
  rw [moveSp_sp, h.sp, h.stack32, moveSp_sp, moveSp_sp, idxAdd_idxAdd, BitVec.ofNat_add,
    BitVec.neg_add, BitVec.sub_eq_add_neg, BitVec.add_assoc, BitVec.add_comm (-BitVec.ofNat 32 n),
    ← BitVec.sub_eq_add_neg, BitVec.sub_self, BitVec.add_zero]

theorem below_up (c : Cpu) (m : Nat) : (c.moveSp (BitVec.ofNat 32 m)).Down m c := by
  refine ⟨?_, by rw [moveSp_seg], by rw [moveSp_mode]⟩
  rw [moveSp_moveSp, ← BitVec.sub_eq_add_neg, BitVec.sub_self, show (0#32 : U32) = 0 from rfl,
    moveSp_zero]

theorem congr (h : c.Down m c') (hsp : c''.gen .sp = c'.gen .sp) (hss : c''.seg .ss = c'.seg .ss)
    (hstack : c''.mode.stack32 = c'.mode.stack32) : c.Down m c'' :=
  ⟨hsp.trans h.sp, hss.trans h.ss, hstack.trans h.stack32⟩

end Cpu.Down

theorem pushes_down (s : St) (z : OpSize) (vs : List (BitVec z.bits)) :
    s.cpu.Down (vs.length * z.bytes) (s.pushes z vs).cpu := by
  rw [pushes_cpu]
  exact .moveSp s.cpu _

/-! ## Pops -/

/-- The instructions in between, as the fetch of the next instruction, do not write memory and leave
the stack as it is. -/
structure Resumes (t u : St) : Prop where
  sp : u.cpu.gen .sp = t.cpu.gen .sp
  ss : u.cpu.seg .ss = t.cpu.seg .ss
  stack32 : u.cpu.mode.stack32 = t.cpu.mode.stack32
  mem : t.mem.Marked u.mem

theorem Resumes.trans {t u w : St} (h : Resumes t u) (h' : Resumes u w) : Resumes t w :=
  ⟨h'.sp.trans h.sp, h'.ss.trans h.ss, h'.stack32.trans h.stack32, h.mem.trans h'.mem⟩

theorem Resumes.of_view {t t' u : St} (h : Resumes t u) (hview : t.view = t'.view) :
    Resumes t' u := by
  obtain ⟨hcpu, hmem, -⟩ := view_parts hview
  exact ⟨hcpu ▸ h.sp, hcpu ▸ h.ss, hcpu ▸ h.stack32, hmem ▸ h.mem⟩

/-- The next instruction has 16 bit operands. -/
def St.narrow (s : St) : St := s.put fun c => { c with mode := { c.mode with data32 := false } }

theorem narrow_resumes (s : St) : Resumes s s.narrow := ⟨rfl, rfl, rfl, .refl _⟩

theorem narrow_gen (s : St) (r : Reg) : s.narrow.cpu.gen r = s.cpu.gen r := (rfl)

theorem narrow_data32 (s : St) : s.narrow.cpu.mode.data32 = false := (rfl)

theorem Resumes.down {c : Cpu} {m : Nat} {t u : St} (h : Resumes t u) (hdown : c.Down m t.cpu) :
    c.Down m u.cpu := hdown.congr h.sp h.ss h.stack32

theorem Resumes.below {t u : St} (h : Resumes t u) (m : Nat) : u.cpu.below m = t.cpu.below m :=
  below_congr h.ss h.sp h.stack32 m

/-- The same push later on. -/
theorem Resumes.pushed {t u : St} (h : Resumes t u) (hsep : t.mem.Sep) (z : OpSize) (v : U32) :
    Resumes (t.pushed z.width v) (u.pushed z.width v) := by
  refine ⟨?_, ?_, ?_, ?_⟩
  · rw [pushed_cpu, pushed_cpu, moveSp_sp, moveSp_sp, h.sp, h.stack32]
  · rw [pushed_cpu, pushed_cpu, moveSp_seg, moveSp_seg, h.ss]
  · rw [pushed_cpu, pushed_cpu, moveSp_mode, moveSp_mode, h.stack32]
  · rw [pushed_mem, pushed_mem, h.below]
    exact h.mem.store hsep (width_ne_noperm z) _ _

theorem Resumes.pushes {t u : St} (h : Resumes t u) (hsep : t.mem.Sep) {z : OpSize}
    (vs : List (BitVec z.bits)) : Resumes (t.pushes z vs) (u.pushes z vs) := by
  induction vs generalizing t u with
  | nil => exact h
  | cons v vs ih =>
    have hguard := pushed_guarded (z := z) hsep (v.setWidth 32)
    exact ih (h.pushed hsep z (v.setWidth 32)) (hguard.sep hsep)

theorem Resumes.num {t u : St} (h : Resumes t u) (z : OpSize) (a : U32) :
    u.mem.num z a = t.mem.num z a := h.mem.num z a

/-- The number that a pop returns. -/
theorem popVal_num (s : St) (z : OpSize) :
    (s.popVal z.width).setWidth z.bits = s.mem.num z (s.cpu.below 0) := by
  rw [below_zero]
  rfl

theorem Reads.resumes {s r : St} (h : Reads s r) : Resumes s r := by
  obtain ⟨eip, segDsSs, halted, hcpu⟩ := h.cpu
  refine ⟨?_, ?_, ?_, h.marked⟩ <;> rw [hcpu]

theorem popped_marked (s : St) (z : OpSize) : s.mem.Marked (s.popped z.width).mem := by
  unfold St.popped
  rw [put_mem, loaded_mem]
  exact .access (by decide) _ _ _ _

theorem popped_down {c : Cpu} {m : Nat} {s : St} {z : OpSize} (h : c.Down (m + z.bytes) s.cpu) :
    c.Down m (s.popped z.width).cpu := by
  rw [popped_cpu, size_width]
  exact h.up

/-- A load of `CS` and `EIP`. -/
def St.wentFar (s : St) (cs : U16) (eip : U32) : St :=
  (s.segLoaded (.seg .cs) cs).put fun c => { c with eip := eip }

theorem wentFar_eflg (s : St) (cs : U16) (eip : U32) :
    (s.wentFar cs eip).cpu.eflg = s.cpu.eflg := by
  obtain ⟨sel, hsel⟩ := segLoaded_cpu s (.seg .cs) cs
  show (s.segLoaded (.seg .cs) cs).cpu.eflg = s.cpu.eflg
  rw [hsel]
  rfl

section

variable {inp : PortInput} {h : Host} (hh : h.Blind inp)

include hh

theorem seen_pushSize {z : OpSize} (hz : z ≠ .byte) (v : BitVec z.bits) (s : St) :
    seen h (pushSize z v) s = ((), (s.pushed z.width (v.setWidth 32)).view) := by
  cases z with
  | byte => exact absurd rfl hz
  | word => exact seen_pushWord hh v s
  | long => exact (seen_pushLong hh v s).trans (by rw [BitVec.setWidth_eq]; rfl)

theorem seen_popSize {z : OpSize} (hz : z ≠ .byte) (s : St) :
    seen h (popSize z) s = (s.mem.num z (s.cpu.below 0), (s.popped z.width).view) := by
  rw [← popVal_num]
  cases z with
  | byte => exact absurd rfl hz
  | word => exact seen_popWord hh s
  | long => exact (seen_popLong hh s).trans (by rw [BitVec.setWidth_eq]; rfl)

theorem seen_popWord_num (s : St) :
    seen h popWord s = (s.mem.num .word (s.cpu.below 0), (s.popped .b16).view) :=
  seen_popSize hh (z := .word) (by decide) s

theorem seen_popLong_num (s : St) :
    seen h popLong s = (s.mem.num .long (s.cpu.below 0), (s.popped .b32).view) :=
  seen_popSize hh (z := .long) (by decide) s

theorem seen_popData {z : OpSize} {s : St} (hz : s.cpu.mode.opSize true = z) :
    seen h Op.popData s =
      ((s.mem.num z (s.cpu.below 0)).setWidth 32, (s.popped z.width).view) := by
  unfold Op.popData
  rw [seen_step hh (seen_getMode s), seen_ite]
  rcases opSize_cases s.cpu.mode with ⟨hdata, hsize⟩ | ⟨hdata, hsize⟩
  · obtain rfl : OpSize.long = z := hsize.symm.trans hz
    rw [hdata, if_pos rfl, seen_popLong_num hh s]
    exact congrArg (·, (s.popped .b32).view) (BitVec.setWidth_eq _).symm
  · obtain rfl : OpSize.word = z := hsize.symm.trans hz
    rw [hdata, if_neg Bool.false_ne_true, seen_step hh (seen_popWord_num hh s), seen_pure]
    rfl

theorem seen_farTransfer (cs : U16) (eip : U32) (s : St) :
    seen h (Op.farTransfer cs eip) s = ((), (s.wentFar cs eip).view) := by
  unfold Op.farTransfer
  rw [seen_step hh (seen_setSegRegister hh (.seg .cs) cs s), seen_setEip]
  rfl

end

end X86Emu
