import X86Emu.Ops.Results
import X86Emu.Ops.Slots

/-!
# A push and a pop of the same operand

`push` computes the address of its operand with the stack pointer before the push, `pop` before its
own pop. With `ESP` as base the second address is lower, and the number that is popped goes there.
-/

namespace X86Emu

open Lib

/-! ## Bytes of a cell -/

namespace Cell

/-- The byte that a data read returns. -/
def shown (c : Cell) : U8 := if c.attr.has permR then c.data else 0xff

/-- The byte that is left when `v` is written. -/
def kept (c : Cell) (v : U8) : U8 := if c.attr.has permW then v else c.data

/-- What is read back when `v` is written. -/
def through (c : Cell) (v : U8) : U8 := if c.attr.has permR then c.kept v else 0xff

theorem fetch_shown (c : Cell) : (c.fetch permR accRead).1.1 = c.shown := by
  unfold fetch shown
  split
  · split <;> rfl
  · rfl

theorem write_kept (c : Cell) (v : U8) : (c.write v).2.data = c.kept v := by
  unfold write kept
  split <;> rfl

theorem write_shown (c : Cell) (v : U8) : (c.write v).2.shown = c.through v := by
  have hread : (c.write v).2.attr.has permR = c.attr.has permR := by
    have hbits : ∀ m : U8, m &&& permR = 0 → (c.attr ||| m) &&& permR = c.attr &&& permR := by
      intro m hm
      rw [BitVec.and_or_distrib_right, hm]
      exact BitVec.or_zero
    unfold write U8.has
    split
    · rw [hbits _ (by decide)]
    · rw [hbits _ (by decide)]
  unfold shown through
  rw [hread, write_kept]

end Cell

section

variable {mem : Mem} (z : OpSize) (a : U32) {i : Nat} (hi : i < z.bytes)

theorem access_shown (mem : Mem) : (mem.access .r z.width.bits a 0).1.1 =
    leVal ((addrs z.bytes a).map fun a => (mem.flat a).shown) := by
  rw [(access_refines (Or.inr (by decide)) z.width.bits a 0).1]
  unfold Flat.access
  dsimp only
  rw [if_pos (Or.inl rfl), onCells_results _ (accessBytes_nodup .r z.width.bits a 0), List.map_map,
    ← (accessWidth_width z).1, ← map_fst_addrBytes _ a (0 : U32), List.map_map]
  congr 1
  apply List.map_congr_left
  intro p _
  show (Cell.rule .r z.width.bits p.2 (mem.flat p.1)).1.1 = (mem.flat p.1).shown
  rw [rule_read (width_ne_noperm z), Cell.fetch_shown]

include hi

/-- The bytes of a number read. -/
theorem num_byte (mem : Mem) :
    (mem.num z a).extractLsb' (8 * i) 8 = (mem.flat (a + BitVec.ofNat 32 i)).shown := by
  obtain ⟨hbits, hbytes⟩ := z.bits_eq
  unfold Mem.num
  rw [access_shown]
  apply BitVec.eq_of_getLsbD_eq
  intro k hk
  rw [BitVec.getLsbD_extractLsb', decide_eq_true hk, Bool.true_and, BitVec.getLsbD_setWidth,
    decide_eq_true (by omega), Bool.true_and]
  exact getLsbD_leVal hbytes a (fun a => (mem.flat a).shown) hi hk

/-- A cell after a store. -/
theorem access_cell (hsep : mem.Sep) (v : U32) :
    (mem.access .w z.width.bits a v).2.flat (a + BitVec.ofNat 32 i) =
      ((mem.flat (a + BitVec.ofNat 32 i)).write (v.extractLsb' (8 * i) 8)).2 := by
  rw [← (accessWidth_width z).2] at hi
  rw [(access_refines (Or.inl hsep) z.width.bits a v).2]
  have hmem : (a + BitVec.ofNat 32 i, v.extractLsb' (8 * i) 8) ∈ accessBytes .w z.width.bits a v :=
    List.mem_map.mpr ⟨i, List.mem_range.mpr hi, rfl⟩
  unfold Flat.access
  dsimp only
  rw [onCells_mem _ (accessBytes_nodup .w z.width.bits a v) _ hmem, rule_write (width_ne_noperm z)]

end

theorem extract_setWidth {z : OpSize} (v : BitVec z.bits) {i : Nat} (hi : i < z.bytes) :
    (v.setWidth 32).extractLsb' (8 * i) 8 = v.extractLsb' (8 * i) 8 := by
  obtain ⟨hbits, hbytes⟩ := z.bits_eq
  apply BitVec.eq_of_getLsbD_eq
  intro k hk
  rw [BitVec.getLsbD_extractLsb', BitVec.getLsbD_extractLsb', BitVec.getLsbD_setWidth,
    decide_eq_true (show 8 * i + k < 32 by omega), Bool.true_and]

/-- Numbers are equal when their bytes are. -/
theorem eq_of_bytes {z : OpSize} {v w : BitVec z.bits}
    (h : ∀ i < z.bytes, v.extractLsb' (8 * i) 8 = w.extractLsb' (8 * i) 8) : v = w := by
  obtain ⟨hbits, -⟩ := z.bits_eq
  apply BitVec.eq_of_getLsbD_eq
  intro b hb
  have hbyte := congrArg (fun x : U8 => x.getLsbD (b % 8)) (h (b / 8) (by omega))
  rw [BitVec.getLsbD_extractLsb', BitVec.getLsbD_extractLsb', Nat.div_add_mod] at hbyte
  simpa [Nat.mod_lt] using hbyte

/-! ## The two addresses -/

/-- The displacement of the memory operand. -/
def St.rmDisp (s : St) : U32 :=
  s.disp s.rmForm.disp (s.cpu.advance (if s.rmForm.sib then 2 else 1))

/-- The address of the operand after a push, which moves the stack pointer. -/
def St.rmAddressPushed (s : St) (z : OpSize) : U32 :=
  s.rmForm.address (s.cpu.moveSp (-BitVec.ofNat 32 z.bytes)) s.rmDisp

theorem rmAddress_eq (s : St) : s.rmAddress = s.rmForm.address s.cpu s.rmDisp := (rfl)

/-- The index of a form is never the stack pointer. -/
theorem addrForm_index {addr32 : Bool} {mod : BitVec 2} {rm : BitVec 3} {sib : U8} {r : Reg}
    {n : Nat} (h : (addrForm addr32 mod rm sib).index = some (r, n)) : r ≠ .sp := by
  rintro rfl
  unfold addrForm at h
  split at h
  · unfold addrForm32 at h
    split at h
    · unfold addrFormSib at h
      dsimp only at h
      split at h
      · cases h
      · next hindex =>
        have hreg : Reg.ofBits (sib.extractLsb' 3 3) = .sp := (Prod.mk.inj (Option.some.inj h)).1
        exact hindex (ofBits_sp.mp hreg)
    · split at h <;> cases h
  · by_cases hsix : rm = 6
    · subst hsix
      by_cases hmod : mod = 0
      · rw [show addrForm16 mod 6 = { disp := some .b16 } from if_pos hmod] at h
        cases h
      · rw [show addrForm16 mod 6 = { base := some .bp, disp := modDisp false mod } from
          if_neg hmod] at h
        cases h
    · rcases reg3_cases rm with rfl | rfl | rfl | rfl | rfl | rfl | rfl | rfl
      all_goals first | exact hsix rfl | cases h

theorem scaled_moveSp (s : St) (d : U32) :
    s.rmForm.scaled (s.cpu.moveSp d) = s.rmForm.scaled s.cpu := by
  unfold AddrForm.scaled
  cases hi : s.rmForm.index with
  | none => rfl
  | some p =>
    obtain ⟨r, scale⟩ := p
    show (s.cpu.moveSp d).gen r * _ = s.cpu.gen r * _
    rw [moveSp_ne (addrForm_index hi)]

theorem address_eq (form : AddrForm) (c : Cpu) (disp : U32) : form.address c disp =
    if c.mode.addr32 then form.base.elim 0 c.gen + form.scaled c + disp
    else ((form.base.elim 0 c.gen + form.scaled c + disp).setWidth 16).setWidth 32 := (rfl)

/-- The addresses are the same when the stack pointer is not the base. -/
theorem rmAddressPushed_eq (s : St) (z : OpSize) (hbase : s.rmForm.base ≠ some .sp) :
    s.rmAddressPushed z = s.rmAddress := by
  have hbases : s.rmForm.base.elim 0 (s.cpu.moveSp (-BitVec.ofNat 32 z.bytes)).gen =
      s.rmForm.base.elim 0 s.cpu.gen := by
    cases hb : s.rmForm.base with
    | none => rfl
    | some r => exact moveSp_ne (fun hr => hbase (hr ▸ hb)) _
  unfold St.rmAddressPushed
  rw [rmAddress_eq, address_eq, address_eq, moveSp_mode, hbases, scaled_moveSp]

/-! ## The instructions -/

/-- Everything in the register file but the general registers and the state of decoding. -/
def Cpu.others (c : Cpu) : Cpu :=
  { c with
    gen := fun _ => 0
    eip := 0
    mode := {}
    defaultSeg := none
    savedEip := 0
    savedCs := 0
    decodeSeg := [] }

theorem others_moveSp (c : Cpu) (d : U32) : (c.moveSp d).others = c.others := by
  rw [moveSp_eq]
  rfl

theorem others_setReg {z : OpSize} (hz : z ≠ .byte) (c : Cpu) (i : BitVec 3) (v : BitVec z.bits) :
    (c.setReg z i v).others = c.others := by
  obtain ⟨x, hset, -⟩ := setReg_setGen hz c i v
  rw [hset]
  rfl

theorem others_seg {c c' : Cpu} (h : c'.others = c.others) : c'.seg = c.seg :=
  show c'.others.seg = c.others.seg by rw [h]

theorem Reads.regs {s r : St} (h : Reads s r) :
    r.cpu.gen = s.cpu.gen ∧ r.cpu.others = s.cpu.others := by
  obtain ⟨eip, segDsSs, halted, hcpu⟩ := h.cpu
  rw [hcpu]
  exact ⟨rfl, rfl⟩

section

variable {inp : PortInput} {h : Host} (hh : h.Blind inp) {z : OpSize} {s : St}

include hh

/-- A push reads its operand and pushes it. -/
theorem seen_pushRm (op : U8) (hsize : s.cpu.mode.opSize true = z) (hreg : s.modrm.regh = 6) :
    ∃ r, Reads s r ∧ seen h (Op.opcFfWordRm op) s =
      ((), (r.pushed z.width (((s.rm z).val s).setWidth 32)).view) := by
  have hz : z ≠ .byte := hsize ▸ opSize_ne_byte _
  have hsize' : (s.fetched .b8).cpu.mode.opSize true = z := hsize
  have hgroup : seen h (Op.opcFfWordRm op) s = seen h (Op.pushRm s.modrm) (s.fetched .b8) := by
    unfold Op.opcFfWordRm
    rw [seen_step hh (seen_modrm hh s), hreg]
    exact seen_step hh (seen_opDecode _ _)
  rw [hgroup]
  unfold Op.pushRm St.rm
  rw [seen_step hh (seen_dataSize _), hsize', seen_ite]
  by_cases hmod : s.modrm.mod = 3
  · refine ⟨s.fetched .b8, Reads.refl.fetched .b8, ?_⟩
    rw [if_pos hmod, if_pos hmod, seen_step hh (seen_decodeReg z _ _),
      seen_step hh (seen_getReg z _ _)]
    exact seen_pushSize hh hz _ _
  · obtain ⟨hreads, -⟩ := rmLoaded_reads s z
    refine ⟨_, hreads, ?_⟩
    rw [if_neg hmod, if_neg hmod, seen_step hh (seen_opDecode _ _),
      seen_step hh (seen_rmAddress hh hmod),
      seen_step hh (seen_fetchDataSize hh z _ _), seen_pushSize hh hz, rmFetched_dataSeg,
      (rmFetched_reads s).dataVal]
    rfl

/-- A pop into its operand. -/
theorem seen_popRm (op : U8) (hsize : s.cpu.mode.opSize true = z) (hreg : s.modrm.regh = 0) :
    ∃ r, Reads s r ∧ seen h (Op.popRm op) s =
      ((), ((r.popped z.width).write (s.rm z) (r.mem.num z (r.cpu.below 0))).view) := by
  have hz : z ≠ .byte := hsize ▸ opSize_ne_byte _
  have hstart : seen h (Op.popRm op) s = seen h (if s.modrm.mod = 3 then do
      let z ← dataSize
      decodeReg z s.modrm.regl
      setReg z s.modrm.regl (← popSize z)
    else do
      let addr ← decodeRmAddress s.modrm.mod s.modrm.regl
      let z ← dataSize
      let val ← popSize z
      storeDataSize z addr val) (s.fetched .b8) := by
    unfold Op.popRm
    rw [seen_step hh (seen_opDecode _ s), seen_step hh (seen_modrm hh s), hreg]
    rfl
  rw [hstart, seen_ite]
  unfold St.rm
  by_cases hmod : s.modrm.mod = 3
  · refine ⟨s.fetched .b8, Reads.refl.fetched .b8, ?_⟩
    have hsize' : (s.fetched .b8).cpu.mode.opSize true = z := hsize
    rw [if_pos hmod, if_pos hmod, seen_step hh (seen_dataSize _), hsize',
      seen_step hh (seen_decodeReg z _ _), seen_step hh (seen_popSize hh hz _)]
    exact seen_setReg z _ _ _
  · have hsize' : s.rmFetched.cpu.mode.opSize true = z := by
      rw [(rmFetched_reads s).opSize]
      exact hsize
    have hseg : (s.rmFetched.popped z.width).cpu.dataSeg = s.rmSeg := by
      rw [popped_cpu, ← rmFetched_dataSeg, moveSp_eq]
      rfl
    refine ⟨s.rmFetched, rmFetched_reads s, ?_⟩
    rw [if_neg hmod, if_neg hmod, seen_step hh (seen_rmAddress hh hmod),
      seen_step hh (seen_dataSize _),
      hsize', seen_step hh (seen_popSize hh hz _), seen_storeDataSize hh, hseg]
    rfl

end

/-! ## The same operand again -/

/-- The operand after a push. -/
def St.rmPushed (s : St) (z : OpSize) : Operand z :=
  if s.modrm.mod = 3 then .reg s.modrm.regl else .mem s.rmSeg (s.rmAddressPushed z)

/-- The instruction at `u` goes on from `p`, and names its operand with the same bytes and prefixes
as the instruction at `s`. -/
structure SameOperand (s p u : St) : Prop where
  gen : u.cpu.gen = p.cpu.gen
  others : u.cpu.others = p.cpu.others
  mem : p.mem.Marked u.mem
  data32 : u.cpu.mode.data32 = s.cpu.mode.data32
  addr32 : u.cpu.mode.addr32 = s.cpu.mode.addr32
  stack32 : u.cpu.mode.stack32 = s.cpu.mode.stack32
  segDsSs : u.cpu.mode.segDsSs = s.cpu.mode.segDsSs
  defaultSeg : u.cpu.defaultSeg = s.cpu.defaultSeg
  mod : u.modrm.mod = s.modrm.mod
  regl : u.modrm.regl = s.modrm.regl
  form : s.modrm.mod ≠ 3 → u.rmForm = s.rmForm
  disp : s.modrm.mod ≠ 3 → u.rmDisp = s.rmDisp

theorem SameOperand.rmSeg {s p u : St} (h : SameOperand s p u) (hmod : s.modrm.mod ≠ 3) :
    u.rmSeg = s.rmSeg := by
  unfold St.rmSeg
  rw [h.defaultSeg, h.segDsSs, h.form hmod]

/-- With the registers of `c` the operand is at the address that it has there. -/
theorem SameOperand.rmAddress {s p u : St} (h : SameOperand s p u) (hmod : s.modrm.mod ≠ 3)
    {c : Cpu} (hgen : p.cpu.gen = c.gen) (haddr : c.mode = s.cpu.mode) :
    u.rmAddress = s.rmForm.address c s.rmDisp := by
  rw [rmAddress_eq, h.form hmod, h.disp hmod]
  exact address_congr (h.gen.trans hgen) (by rw [haddr, h.addr32]) _ _

/-- All is as in `s` again but the bytes that a push writes. -/
structure Undone (z : OpSize) (s t : St) : Prop where
  gen : t.cpu.gen = s.cpu.gen
  others : t.cpu.others = s.cpu.others
  operand : s.modrm.mod ≠ 3 → ∀ i < z.bytes,
    (t.mem.flat (s.cpu.linear s.rmSeg s.rmAddress + BitVec.ofNat 32 i)).data =
      (s.mem.flat (s.cpu.linear s.rmSeg s.rmAddress + BitVec.ofNat 32 i)).data
  mem : ∀ a, ¬s.cpu.InSlots z 1 a → (t.mem.flat a).data = (s.mem.flat a).data

theorem undone_view {z : OpSize} {s t t' : St} (hview : t.view = t'.view) :
    Undone z s t ↔ Undone z s t' := by
  obtain ⟨hcpu, hmem, -⟩ := view_parts hview
  constructor
  · exact fun ht => ⟨hcpu ▸ ht.gen, hcpu ▸ ht.others, hmem ▸ ht.operand, hmem ▸ ht.mem⟩
  · exact fun ht => ⟨hcpu ▸ ht.gen, hcpu ▸ ht.others, hmem ▸ ht.operand, hmem ▸ ht.mem⟩

/-- What comes back from the stack for a byte of the operand. -/
def St.returned (s : St) (z : OpSize) (i : Nat) : U8 :=
  (s.mem.flat (s.cpu.below z.bytes + BitVec.ofNat 32 i)).through
    (((s.rm z).val s).extractLsb' (8 * i) 8)

/-- Each byte that comes back finds its own value in the operand after the push, or cannot be
written there, or is written to the stack only. -/
def St.PopsBack (s : St) (z : OpSize) : Prop :=
  ∀ i < z.bytes, if s.modrm.mod = 3 then s.returned z i = ((s.rm z).val s).extractLsb' (8 * i) 8
    else
      let a := s.cpu.linear s.rmSeg (s.rmAddressPushed z) + BitVec.ofNat 32 i
      s.cpu.InSlots z 1 a ∨ (s.mem.flat a).attr.has permW = false ∨
        (s.mem.flat a).data = s.returned z i

theorem gen_moveSp {c c' : Cpu} (hgen : c'.gen = c.gen) (hstack : c'.mode.stack32 = c.mode.stack32)
    (d : U32) : (c'.moveSp d).gen = (c.moveSp d).gen := by
  rw [moveSp_eq, moveSp_eq, hstack, hgen]
  unfold Cpu.setGen
  rw [hgen]

section

variable {z : OpSize} {s : St}

/-- What the second instruction finds. -/
structure AfterPush (z : OpSize) (s u : St) : Prop where
  gen : u.cpu.gen = (s.cpu.moveSp (-BitVec.ofNat 32 z.bytes)).gen
  others : u.cpu.others = s.cpu.others
  stack32 : u.cpu.mode.stack32 = s.cpu.mode.stack32
  mem : (s.pushes z [(s.rm z).val s]).mem.Marked u.mem
  rm : u.rm z = s.rmPushed z

theorem SameOperand.afterPush {p u r : St} (h : SameOperand s p u) (hsep : s.mem.Sep)
    (hr : Reads s r) (hp : p.view = (r.pushed z.width (((s.rm z).val s).setWidth 32)).view) :
    AfterPush z s u := by
  obtain ⟨hgen, hothers⟩ := hr.regs
  obtain ⟨hpcpu, hpmem, -⟩ := view_parts hp
  have hugen : u.cpu.gen = (s.cpu.moveSp (-BitVec.ofNat 32 z.bytes)).gen := by
    rw [h.gen, hpcpu, pushed_sp]
    exact gen_moveSp hgen hr.resumes.stack32 _
  have huothers : u.cpu.others = s.cpu.others := by
    rw [h.others, hpcpu, pushed_sp, others_moveSp, hothers]
  refine ⟨hugen, huothers, h.stack32, ?_, ?_⟩
  · have hpush := (hr.resumes.pushes hsep [(s.rm z).val s]).mem
    have hmem := h.mem
    rw [hpmem] at hmem
    exact hpush.trans hmem
  · unfold St.rm St.rmPushed
    rw [h.mod, h.regl]
    by_cases hmod : s.modrm.mod = 3
    · rw [if_pos hmod, if_pos hmod]
    · have haddr : u.rmAddress = s.rmAddressPushed z :=
        h.rmAddress hmod (h.gen.symm.trans hugen) (moveSp_mode ..)
      rw [if_neg hmod, if_neg hmod, h.rmSeg hmod, haddr]

namespace AfterPush

variable {u q : St} (h : AfterPush z s u) (hq : Reads u q)

include h hq

theorem resumes : Resumes (s.pushes z [(s.rm z).val s]) q := by
  have hss : u.cpu.seg = s.cpu.seg := others_seg h.others
  refine Resumes.trans ⟨?_, ?_, ?_, h.mem⟩ hq.resumes
  · rw [h.gen, pushes_cpu, List.length_singleton, Nat.one_mul]
  · rw [hss, (pushes_rest _ _ _).1]
  · rw [h.stack32, (pushes_rest _ _ _).2]

/-- After the pop the registers are as before the push. -/
theorem popped : (q.popped z.width).cpu.gen = s.cpu.gen ∧
    (q.popped z.width).cpu.others = s.cpu.others := by
  obtain ⟨hgen, hothers⟩ := hq.regs
  have hstack : q.cpu.mode.stack32 = s.cpu.mode.stack32 := hq.resumes.stack32.trans h.stack32
  rw [popped_cpu, size_width]
  constructor
  · have hback := gen_moveSp (c := s.cpu.moveSp (-BitVec.ofNat 32 z.bytes)) (hgen.trans h.gen)
      (by rw [moveSp_mode, hstack]) (BitVec.ofNat 32 z.bytes)
    rw [hback, moveSp_moveSp, BitVec.add_comm, ← BitVec.sub_eq_add_neg, BitVec.sub_self]
    exact congrArg Cpu.gen (moveSp_zero s.cpu)
  · rw [others_moveSp, hothers, h.others]

/-- The bytes that are popped. -/
theorem num_byte (hsep : s.mem.Sep) {i : Nat} (hi : i < z.bytes) :
    (q.mem.num z (q.cpu.below 0)).extractLsb' (8 * i) 8 = s.returned z i := by
  have hrun := h.resumes hq
  have hbelow : q.cpu.below 0 = s.cpu.below z.bytes := by
    have hdown := pushes_down s z [(s.rm z).val s]
    rw [List.length_singleton, Nat.one_mul] at hdown
    exact (hrun.below 0).trans (hdown.below 0)
  have hmem : (s.pushes z [(s.rm z).val s]).mem = _ := pushed_mem s z _
  rw [hbelow, hrun.num, X86Emu.num_byte z _ hi, hmem, access_cell z _ hi hsep, Cell.write_shown,
    extract_setWidth _ hi]
  rfl

/-- The cells outside of the slot. -/
theorem cell (hsep : s.mem.Sep) {a : U32} (ha : ¬s.cpu.InSlots z 1 a) :
    (s.mem.flat a).Marked ((q.popped z.width).mem.flat a) := by
  have hmark := ((h.resumes hq).mem.trans (popped_marked q z)).cells a
  rwa [pushes_flat hsep [(s.rm z).val s] ha] at hmark

/-- A register operand. -/
theorem reg_iff (hsep : s.mem.Sep) (hz : z ≠ .byte) (hmod : s.modrm.mod = 3) :
    Undone z s ((q.popped z.width).write (.reg s.modrm.regl) (q.mem.num z (q.cpu.below 0))) ↔
      s.PopsBack z := by
  obtain ⟨hgen, hothers⟩ := h.popped hq
  have hval : (s.rm z).val s = s.cpu.getReg z s.modrm.regl := by
    unfold St.rm
    rw [if_pos hmod]
    rfl
  have hback : s.PopsBack z ↔ q.mem.num z (q.cpu.below 0) = s.cpu.getReg z s.modrm.regl := by
    unfold St.PopsBack
    rw [← hval]
    constructor
    · intro hbytes
      refine eq_of_bytes fun i hi => ?_
      have hbyte := hbytes i hi
      rw [if_pos hmod] at hbyte
      rw [h.num_byte hq hsep hi, hbyte]
    · intro heq i hi
      rw [if_pos hmod, ← h.num_byte hq hsep hi, heq]
  have hreg : ∀ c : Cpu, c.gen = s.cpu.gen →
      c.getReg z s.modrm.regl = s.cpu.getReg z s.modrm.regl :=
    fun c hc => getReg_congr hz s.cpu _ (congrFun hc _)
  rw [hback]
  constructor
  · intro hundone
    rw [← hreg _ hundone.gen]
    exact (Op2.getReg_setReg hz _ _ _).symm
  · intro heq
    refine ⟨?_, ?_, fun hmem => absurd hmod hmem, fun a ha => (h.cell hq hsep ha).data⟩
    · rw [heq, ← hreg _ hgen]
      show ((q.popped z.width).cpu.setReg z _ _).gen = _
      rw [setReg_getReg, hgen]
    · exact (others_setReg hz _ _ _).trans hothers

/-- An operand in memory. -/
theorem mem_iff (hsep : s.mem.Sep) (hmod : s.modrm.mod ≠ 3)
    (hapart : ∀ i < z.bytes,
      ¬s.cpu.InSlots z 1 (s.cpu.linear s.rmSeg s.rmAddress + BitVec.ofNat 32 i)) :
    Undone z s ((q.popped z.width).write (.mem s.rmSeg (s.rmAddressPushed z))
        (q.mem.num z (q.cpu.below 0))) ↔ s.PopsBack z := by
  obtain ⟨hgen, hothers⟩ := h.popped hq
  let t := (q.popped z.width).stored z.width s.rmSeg (s.rmAddressPushed z)
    ((q.mem.num z (q.cpu.below 0)).setWidth 32)
  let b := s.cpu.linear s.rmSeg (s.rmAddressPushed z)
  have hsep' : (q.popped z.width).mem.Sep :=
    ((h.resumes hq).mem.trans (popped_marked q z)).sep ((pushes_guarded hsep _).sep hsep)
  have htmem : t.mem = ((q.popped z.width).mem.access .w z.width.bits b
      ((q.mem.num z (q.cpu.below 0)).setWidth 32)).2 := by
    show (St.stored _ _ _ _ _).mem = _
    rw [stored_mem]
    unfold Cpu.linear
    rw [others_seg hothers]
    rfl
  -- the bytes that the pop writes
  have hin : ∀ i < z.bytes, ¬s.cpu.InSlots z 1 (b + BitVec.ofNat 32 i) →
      (t.mem.flat (b + BitVec.ofNat 32 i)).data =
        (s.mem.flat (b + BitVec.ofNat 32 i)).kept (s.returned z i) := by
    intro i hi hout
    have hcell := h.cell hq hsep hout
    rw [htmem, access_cell z b hi hsep', Cell.write_kept, extract_setWidth _ hi,
      h.num_byte hq hsep hi]
    unfold Cell.kept
    rw [hcell.has_eq (by decide), hcell.data]
  -- the other bytes
  have hrest : ∀ a, (∀ i < z.bytes, a ≠ b + BitVec.ofNat 32 i) → ¬s.cpu.InSlots z 1 a →
      (t.mem.flat a).data = (s.mem.flat a).data := by
    intro a ha hout
    rw [htmem, flat_stored hsep' z _ ha]
    exact (h.cell hq hsep hout).data
  have hkept : ∀ (c : Cell) v, c.kept v = c.data ↔ c.attr.has permW = false ∨ c.data = v := by
    intro c v
    unfold Cell.kept
    cases c.attr.has permW with
    | true =>
      rw [if_pos rfl]
      exact ⟨fun heq => Or.inr heq.symm, fun hor => (hor.resolve_left nofun).symm⟩
    | false => rw [if_neg Bool.false_ne_true]; exact ⟨fun _ => Or.inl rfl, fun _ => rfl⟩
  show Undone z s t ↔ _
  constructor
  · intro hundone i hi
    rw [if_neg hmod]
    dsimp only
    by_cases hslot : s.cpu.InSlots z 1 (b + BitVec.ofNat 32 i)
    · exact Or.inl hslot
    · exact Or.inr ((hkept _ _).mp ((hin i hi hslot).symm.trans (hundone.mem _ hslot)))
  · intro hback
    have hmem : ∀ a, ¬s.cpu.InSlots z 1 a → (t.mem.flat a).data = (s.mem.flat a).data := by
      intro a hout
      by_cases hbyte : ∃ i < z.bytes, a = b + BitVec.ofNat 32 i
      · obtain ⟨i, hi, rfl⟩ := hbyte
        have hi' := hback i hi
        rw [if_neg hmod] at hi'
        rw [hin i hi hout]
        exact (hkept _ _).mpr (hi'.resolve_left hout)
      · exact hrest a (fun i hi heq => hbyte ⟨i, hi, heq⟩) hout
    refine ⟨?_, ?_, fun _ i hi => hmem _ (hapart i hi), hmem⟩
    · show (St.stored _ _ _ _ _).cpu.gen = _
      rw [stored_cpu, hgen]
    · show (St.stored _ _ _ _ _).cpu.others = _
      rw [stored_cpu, hothers]

end AfterPush

end

section

variable {inp : PortInput} {h : Host} (hh : h.Blind inp) {s u : St}

include hh

/-- What the pop finds and what it does. -/
theorem popRm_after (hsep : s.mem.Sep) (hpush : s.modrm.regh = 6) (hpop : u.modrm.regh = 0)
    (hsame : SameOperand s ((Op.opcFfWordRm 0xff).run h s).2 u) :
    let z := s.cpu.mode.opSize true
    ∃ q, AfterPush z s u ∧ Reads u q ∧ ((Op.popRm 0x8f).run h u).2.view =
      ((q.popped z.width).write (s.rmPushed z) (q.mem.num z (q.cpu.below 0))).view := by
  intro z
  have hsize : u.cpu.mode.opSize true = z := by
    unfold Mode.opSize
    rw [hsame.data32]
    rfl
  obtain ⟨r, hr, hseen⟩ := seen_pushRm hh 0xff rfl hpush
  obtain ⟨q, hq, hseen'⟩ := seen_popRm hh 0x8f hsize hpop
  have hafter := hsame.afterPush hsep hr (congrArg Prod.snd hseen)
  rw [hafter.rm] at hseen'
  exact ⟨q, hafter, hq, congrArg Prod.snd hseen'⟩

/-- `push` and `pop` of the same operand: all is as before exactly when the bytes that come back
find their own values where the pop computes the operand to be. -/
theorem pushRm_popRm_iff (hsep : s.mem.Sep) (hpush : s.modrm.regh = 6) (hpop : u.modrm.regh = 0)
    (hsame : SameOperand s ((Op.opcFfWordRm 0xff).run h s).2 u)
    (hapart : s.modrm.mod ≠ 3 → ∀ i < (s.cpu.mode.opSize true).bytes,
      ¬s.cpu.InSlots (s.cpu.mode.opSize true) 1
        (s.cpu.linear s.rmSeg s.rmAddress + BitVec.ofNat 32 i)) :
    Undone (s.cpu.mode.opSize true) s ((Op.popRm 0x8f).run h u).2 ↔
      s.PopsBack (s.cpu.mode.opSize true) := by
  obtain ⟨q, hafter, hq, hview⟩ := popRm_after hh hsep hpush hpop hsame
  rw [undone_view hview]
  unfold St.rmPushed
  by_cases hmod : s.modrm.mod = 3
  · rw [if_pos hmod]
    exact hafter.reg_iff hq hsep (opSize_ne_byte _) hmod
  · rw [if_neg hmod]
    exact hafter.mem_iff hq hsep hmod (hapart hmod)

end

/-! ## In writable memory -/

section

variable {z : OpSize} {s : St}

/-- A stack in RAM returns the bytes as they are. -/
theorem returned_ram (hram : s.StackRam z 1) {i : Nat} (hi : i < z.bytes) :
    s.returned z i = ((s.rm z).val s).extractLsb' (8 * i) 8 := by
  obtain ⟨hread, hwrite⟩ := hram 0 (by decide)
  rw [Nat.zero_add, Nat.one_mul] at hread hwrite
  unfold St.returned Cell.through Cell.kept
  rw [if_pos (hread i hi), if_pos (hwrite i hi)]

/-- With a stack and an operand in RAM all is as before when the stack pointer is not the base, and
else when the bytes of the operand are found at the other address too. -/
theorem popsBack_ram (hram : s.StackRam z 1)
    (hread : s.modrm.mod ≠ 3 → s.mem.Permits permR z.bytes (s.cpu.linear s.rmSeg s.rmAddress)) :
    s.PopsBack z ↔ s.modrm.mod = 3 ∨ ∀ i < z.bytes,
      let a := s.cpu.linear s.rmSeg (s.rmAddressPushed z) + BitVec.ofNat 32 i
      s.cpu.InSlots z 1 a ∨ (s.mem.flat a).attr.has permW = false ∨
        (s.mem.flat a).data =
          (s.mem.flat (s.cpu.linear s.rmSeg s.rmAddress + BitVec.ofNat 32 i)).data := by
  unfold St.PopsBack
  by_cases hmod : s.modrm.mod = 3
  · refine iff_of_true (fun i hi => ?_) (Or.inl hmod)
    rw [if_pos hmod, returned_ram hram hi]
  · have hback : ∀ i < z.bytes, s.returned z i =
        (s.mem.flat (s.cpu.linear s.rmSeg s.rmAddress + BitVec.ofNat 32 i)).data := by
      intro i hi
      have hval : (s.rm z).val s = s.mem.num z (s.cpu.linear s.rmSeg s.rmAddress) := by
        unfold St.rm
        rw [if_neg hmod]
        rfl
      rw [returned_ram hram hi, hval, num_byte z _ hi]
      exact if_pos (hread hmod i hi)
    rw [or_iff_right hmod]
    refine forall_congr' fun i => forall_congr' fun hi => ?_
    rw [if_neg hmod, hback i hi]

theorem popsBack_base (hram : s.StackRam z 1)
    (hread : s.modrm.mod ≠ 3 → s.mem.Permits permR z.bytes (s.cpu.linear s.rmSeg s.rmAddress))
    (hbase : s.rmForm.base ≠ some .sp) : s.PopsBack z := by
  refine (popsBack_ram hram hread).mpr (Or.inr fun i _ => Or.inr (Or.inr ?_))
  rw [rmAddressPushed_eq s z hbase]

end

/-! ## The next instruction -/

/-- An instruction after its opcode at `eip`, with the prefixes of the one at `s`. -/
def St.again (s p : St) (eip : U32) : St :=
  p.put fun c => { c with eip := eip, mode := s.cpu.mode, defaultSeg := s.cpu.defaultSeg }

section

variable {s p : St} {eip : U32}

/-- When the bytes of the next instruction are left, so is the operand that they name. -/
theorem SameOperand.again (hseg : p.cpu.seg = s.cpu.seg)
    (hcells : ∀ n ≤ 2, ∀ i < 4,
      let a := s.cpu.linear .cs ((s.again s eip).cpu.advance n) + BitVec.ofNat 32 i
      (s.mem.flat a).Marked (p.mem.flat a))
    (hsame : SameOperand s s (s.again s eip)) :
    SameOperand s p (s.again p eip) ∧ (s.again p eip).modrm = (s.again s eip).modrm := by
  have hcode : ∀ n ≤ 2, ∀ width, (s.again p eip).code width ((s.again p eip).cpu.advance n) =
      (s.again s eip).code width ((s.again s eip).cpu.advance n) := by
    intro n hn width
    unfold St.code
    refine congrArg (fun x : U32 × Bool => x.1) ?_
    show (p.mem.access _ _ ((s.again p eip).cpu.linear .cs _) _).1 = _
    rw [show (s.again p eip).cpu.linear .cs ((s.again p eip).cpu.advance n) =
      s.cpu.linear .cs ((s.again s eip).cpu.advance n) from congrArg (fun seg : SegReg → Sel =>
        (seg .cs).base + (s.again s eip).cpu.advance n) hseg]
    refine access_congr (by decide) _ _ _ fun a ha => ?_
    obtain ⟨i, hi, rfl⟩ := mem_addrs.mp ha
    exact hcells n hn i (lt_of_lt_of_le hi (accessWidth_le _ _))
  have hmodrm : (s.again p eip).modrm = (s.again s eip).modrm := by
    have hfirst := hcode 0 (by decide) .b8
    rw [advance_zero, advance_zero] at hfirst
    unfold St.modrm
    rw [hfirst]
  have hform : (s.again p eip).rmForm = (s.again s eip).rmForm := by
    unfold St.rmForm
    rw [hmodrm, hcode 1 (by decide)]
    rfl
  have hdisp : (s.again p eip).rmDisp = (s.again s eip).rmDisp := by
    have hpos : (if (s.again s eip).rmForm.sib then 2 else 1) ≤ 2 := by split <;> decide
    unfold St.rmDisp St.disp
    rw [hform]
    simp only [hcode _ hpos]
  refine ⟨⟨rfl, rfl, .refl _, rfl, rfl, rfl, rfl, rfl, ?_, ?_, fun hm => ?_, fun hm => ?_⟩, hmodrm⟩
  · rw [hmodrm, hsame.mod]
  · rw [hmodrm, hsame.regl]
  · rw [hform, hsame.form hm]
  · rw [hdisp, hsame.disp hm]

/-- A push that does not write the bytes of the next instruction leaves them. -/
theorem again_same {inp : PortInput} {h : Host} (hh : h.Blind inp) (hsep : s.mem.Sep)
    (hpush : s.modrm.regh = 6)
    (hout : ∀ n ≤ 2, ∀ i < 4, ¬s.cpu.InSlots (s.cpu.mode.opSize true) 1
      (s.cpu.linear .cs ((s.again s eip).cpu.advance n) + BitVec.ofNat 32 i))
    (hsame : SameOperand s s (s.again s eip)) :
    let u := s.again ((Op.opcFfWordRm 0xff).run h s).2 eip
    SameOperand s ((Op.opcFfWordRm 0xff).run h s).2 u ∧ u.modrm = (s.again s eip).modrm := by
  obtain ⟨r, hr, hseen⟩ := seen_pushRm hh 0xff rfl hpush
  obtain ⟨hcpu, hmem, -⟩ := view_parts (congrArg Prod.snd hseen)
  have hmark := (hr.resumes.pushes hsep [(s.rm (s.cpu.mode.opSize true)).val s]).mem
  rw [show (r.pushes _ [_]).mem = _ from hmem.symm] at hmark
  refine SameOperand.again ?_ (fun n hn i hi => ?_) hsame
  · show ((Op.opcFfWordRm 0xff).run h s).2.cpu.seg = _
    rw [hcpu, pushed_sp, moveSp_seg]
    exact others_seg hr.regs.2
  · have hcell := hmark.cells
      (s.cpu.linear .cs ((s.again s eip).cpu.advance n) + BitVec.ofNat 32 i)
    rw [pushes_flat hsep _ (hout n hn i hi)] at hcell
    exact hcell

end

/-- All sizes are 32 bit. -/
def rmCpu : Cpu where
  gen := fun r => if r = .sp then 0x9010 else 0x5010
  seg := fun _ => { limit := 0xffffffff }
  mode := { data32 := true, addr32 := true, stack32 := true, code32 := true }

theorem rmCpu_code : ∀ n ≤ 2, ∀ i < 4, ¬rmCpu.InSlots .long 1
    (rmCpu.linear .cs (({ rmCpu with eip := 4 } : Cpu).advance n) + BitVec.ofNat 32 i) := by
  unfold Cpu.InSlots
  decide +kernel

/-- The page holds `modrm`, `b1` and `b2` twice, first for the push, and then for the pop, and its
other bytes hold their own offsets. -/
def rmState (modrm b1 b2 : U8) : St where
  cpu := rmCpu
  mem := fullMem fun a =>
    if a = 0 then modrm ||| 0x30 else if a = 4 then modrm
    else if a = 1 ∨ a = 5 then b1 else if a = 2 ∨ a = 6 then b2 else a.setWidth 8

/-- `[esi+8]` -/
theorem pushRm_popRm_iff_esi :
    let h := defaultHost fun _ _ _ => 0
    let s := rmState 0x46 8 0
    let u := s.again ((Op.opcFfWordRm 0xff).run h s).2 4
    Undone (s.cpu.mode.opSize true) s ((Op.popRm 0x8f).run h u).2 := by
  intro h s u
  have hh : h.Blind fun _ _ _ => 0 := (defaultHost_default _).blind
  have hpush : s.modrm.regh = 6 := by decide +kernel
  have hagain : SameOperand s s (s.again s 4) :=
    ⟨rfl, rfl, .refl _, rfl, rfl, rfl, rfl, rfl, by decide +kernel, by decide +kernel,
      fun _ => by decide +kernel, fun _ => by decide +kernel⟩
  have hapart : ∀ i < (s.cpu.mode.opSize true).bytes, ¬s.cpu.InSlots (s.cpu.mode.opSize true) 1
      (s.cpu.linear s.rmSeg s.rmAddress + BitVec.ofNat 32 i) := by
    unfold Cpu.InSlots
    decide +kernel
  obtain ⟨hsame, hmodrm⟩ := again_same hh (fullMem_sep _) hpush rmCpu_code hagain
  have hpop : u.modrm.regh = 0 := hmodrm.symm ▸ (by decide +kernel : (s.again s 4).modrm.regh = 0)
  exact (pushRm_popRm_iff hh (fullMem_sep _) hpush hpop hsame fun _ => hapart).mpr
    (popsBack_base (fun _ _ => fullMem_ram _ _ _) (fun _ => (fullMem_ram _ _ _).1)
      (by decide +kernel))

/-- `[esp+8]`: the pop goes to the four bytes below. -/
theorem pushRm_popRm_fails :
    let h := defaultHost fun _ _ _ => 0
    let s := rmState 0x44 0x24 8
    let u := s.again ((Op.opcFfWordRm 0xff).run h s).2 4
    SameOperand s ((Op.opcFfWordRm 0xff).run h s).2 u ∧ s.modrm.regh = 6 ∧ u.modrm.regh = 0 ∧
      s.StackRam (s.cpu.mode.opSize true) 1 ∧ ¬Undone (s.cpu.mode.opSize true) s
        ((Op.popRm 0x8f).run h u).2 := by
  intro h s u
  have hh : h.Blind fun _ _ _ => 0 := (defaultHost_default _).blind
  have hpush : s.modrm.regh = 6 := by decide +kernel
  have hagain : SameOperand s s (s.again s 4) :=
    ⟨rfl, rfl, .refl _, rfl, rfl, rfl, rfl, rfl, by decide +kernel, by decide +kernel,
      fun _ => by decide +kernel, fun _ => by decide +kernel⟩
  have hapart : ∀ i < (s.cpu.mode.opSize true).bytes, ¬s.cpu.InSlots (s.cpu.mode.opSize true) 1
      (s.cpu.linear s.rmSeg s.rmAddress + BitVec.ofNat 32 i) := by
    unfold Cpu.InSlots
    decide +kernel
  obtain ⟨hsame, hmodrm⟩ := again_same hh (fullMem_sep _) hpush rmCpu_code hagain
  have hpop : u.modrm.regh = 0 := hmodrm.symm ▸ (by decide +kernel : (s.again s 4).modrm.regh = 0)
  refine ⟨hsame, hpush, hpop, fun _ _ => fullMem_ram _ _ _, fun hundone => ?_⟩
  have hmod : s.modrm.mod ≠ 3 := by decide +kernel
  have hnot : ¬s.PopsBack (s.cpu.mode.opSize true) := by
    unfold St.PopsBack Cpu.InSlots
    decide +kernel
  obtain ⟨q, hafter, hq, hview⟩ := popRm_after hh (fullMem_sep _) hpush hpop hsame
  rw [undone_view hview, show s.rmPushed (s.cpu.mode.opSize true) = _ from if_neg hmod] at hundone
  exact hnot ((hafter.mem_iff hq (fullMem_sep _) hmod hapart).mp hundone)

end X86Emu
