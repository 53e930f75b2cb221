import X86Emu.Ops.Packed
import X86Emu.Ops.PushPop

/-!
# Moves of XMM registers

The stores and loads of XMM registers. The loads, and the stores of half a register, move the bytes
that they should. The stores of a whole register take the operand from the `reg` field and the
register from the `r/m` field, and write one word instead of 16 bytes.
-/

namespace X86Emu

open Lib

/-! ## Writes to memory -/

/-- The bytes `v` from an address on. -/
def bytesAt (n : Nat) (a : U32) (v : Nat → U8) : U32 → Option U8 :=
  fun b => if (b - a).toNat < n then some (v (b - a).toNat) else none

/-- `f` is written, where that is allowed. -/
structure Mem.Wrote (mem : Mem) (f : U32 → Option U8) (mem' : Mem) : Prop where
  guarded : mem.Guarded mem'
  data : ∀ a, (mem'.flat a).data = (f a).elim (mem.flat a).data (mem.flat a).kept

theorem ofNat_add_sub (a : U32) {i : Nat} (hi : i < 2 ^ 32) :
    (a + BitVec.ofNat 32 i - a).toNat = i := by
  rw [BitVec.add_comm, BitVec.add_sub_cancel, BitVec.toNat_ofNat, Nat.mod_eq_of_lt hi]

theorem add_ofNat_sub (a b : U32) : a + BitVec.ofNat 32 (b - a).toNat = b := by
  rw [BitVec.ofNat_toNat, BitVec.setWidth_eq, BitVec.add_comm, BitVec.sub_add_cancel]

namespace Mem.Wrote

variable {mem mem₁ mem₂ : Mem} {f g : U32 → Option U8}

theorem nothing (h : mem.Marked mem₁) : mem.Wrote (fun _ => none) mem₁ :=
  ⟨⟨h.hostLoc, fun a => (h.cells a).guarded⟩, fun a => (h.cells a).data⟩

/-- One write after another. -/
theorem trans (hf : mem.Wrote f mem₁) (hg : mem₁.Wrote g mem₂) :
    mem.Wrote (fun a => (g a).or (f a)) mem₂ := by
  refine ⟨hf.guarded.trans hg.guarded, fun a => ?_⟩
  have hperm : (mem₁.flat a).attr.has permW = (mem.flat a).attr.has permW :=
    (hf.guarded.cells a).has_eq (Or.inr (Or.inl rfl))
  have hdata := hf.data a
  rw [hg.data a]
  cases g a with
  | none => exact hdata
  | some v =>
    show (mem₁.flat a).kept v = (mem.flat a).kept v
    unfold Cell.kept at hdata ⊢
    rw [hperm]
    split
    · rfl
    · next hno =>
      rw [hdata]
      cases f a with
      | none => rfl
      | some w => exact if_neg hno

theorem congr (hf : mem.Wrote f mem₁) (h : ∀ a, f a = g a) : mem.Wrote g mem₁ := funext h ▸ hf

/-- A store writes its bytes. -/
theorem store (hsep : mem.Sep) (z : OpSize) (a v : U32) :
    mem.Wrote (bytesAt z.bytes a fun i => v.extractLsb' (8 * i) 8)
      (mem.access .w z.width.bits a v).2 := by
  refine ⟨access_guarded hsep (fun h => width_ne_noperm z h.2) a v, fun b => ?_⟩
  unfold bytesAt
  split
  · next hlt =>
    have hcell := access_cell z a hlt hsep v
    rw [add_ofNat_sub] at hcell
    rw [hcell]
    exact Cell.write_kept _ _
  · next hge =>
    rw [flat_stored hsep z v]
    · rfl
    · rintro i hi rfl
      have hz := (bytes_le z).2
      rw [ofNat_add_sub a (by omega)] at hge
      exact hge hi

end Mem.Wrote

theorem bytesAt_congr {n : Nat} (a : U32) {v w : Nat → U8} (h : ∀ i < n, v i = w i) :
    bytesAt n a v = bytesAt n a w := by
  funext b
  unfold bytesAt
  split
  · next hlt => rw [h _ hlt]
  · rfl

/-- Elsewhere nothing is written. -/
theorem bytesAt_apart {n : Nat} {a b : U32} {v : Nat → U8}
    (h : ∀ k < n, b ≠ a + BitVec.ofNat 32 k) : bytesAt n a v b = none :=
  if_neg fun hlt => h _ hlt (add_ofNat_sub a b).symm

/-- The later bytes at the same place stay. -/
theorem bytesAt_or (n : Nat) (a : U32) (v w : Nat → U8) (b : U32) :
    (bytesAt n a v b).or (bytesAt n a w b) = bytesAt n a v b := by
  unfold bytesAt
  split <;> rfl

/-- The first byte and those behind it. -/
theorem bytesAt_cons {n : Nat} (hn : n + 1 < 2 ^ 32) (a : U32) (v : Nat → U8) (b : U32) :
    (bytesAt n (a + 1) (fun i => v (i + 1)) b).or (bytesAt 1 a (fun _ => v 0) b) =
      bytesAt (n + 1) a v b := by
  obtain ⟨i, hi, rfl⟩ : ∃ i : Nat, i < 2 ^ 32 ∧ b = a + BitVec.ofNat 32 i :=
    ⟨(b - a).toNat, (b - a).isLt, (add_ofNat_sub a b).symm⟩
  have hofs : (a + BitVec.ofNat 32 i - (a + 1)).toNat = if i = 0 then 2 ^ 32 - 1 else i - 1 := by
    have hone : (1 : U32) = BitVec.ofNat 32 1 := rfl
    split <;> bv_omega
  unfold bytesAt
  rw [ofNat_add_sub a hi, hofs]
  by_cases hzero : i = 0
  · subst hzero
    rw [if_pos rfl, if_neg (show ¬2 ^ 32 - 1 < n by omega), if_pos (by decide), if_pos n.succ_pos]
    rfl
  · rw [if_neg hzero, if_neg (show ¬i < 1 by omega), Option.or_none]
    by_cases hlt : i < n + 1
    · rw [if_pos hlt, if_pos (show i - 1 < n by omega)]
      exact congrArg (fun j => some (v j)) (show i - 1 + 1 = i by omega)
    · rw [if_neg hlt, if_neg (show ¬i - 1 < n by omega)]

/-- Only memory is written, and the pending interrupt. -/
structure St.Wrote (s : St) (f : U32 → Option U8) (t : St) : Prop where
  cpu : t.cpu = s.cpu
  mem : s.mem.Wrote f t.mem

theorem stored_wrote {s : St} (hsep : s.mem.Sep) (z : OpSize) (seg : SegReg) (ofs v : U32) :
    s.Wrote (bytesAt z.bytes (s.cpu.linear seg ofs) fun i => v.extractLsb' (8 * i) 8)
      (s.stored z.width seg ofs v) := by
  refine ⟨stored_cpu .., ?_⟩
  rw [stored_mem]
  exact .store hsep z _ v

theorem seen_setXmm {h : Host} (r : BitVec 3) (v : Fin 16 → U8) (s : St) :
    seen h (setXmm r v) s = ((), (s.put (·.setXmm r v)).view) := (rfl)

theorem setXmm_setXmm (c : Cpu) (r : BitVec 3) (v w : Fin 16 → U8) :
    (c.setXmm r v).setXmm r w = c.setXmm r w := by
  unfold Cpu.setXmm
  simp only [Function.update_idem]

theorem setXmm_self (c : Cpu) (r : BitVec 3) : c.setXmm r (c.xmm r) = c := by
  unfold Cpu.setXmm
  rw [Function.update_eq_self]

theorem dataByte_congr {s t : St} (hmem : s.mem.Marked t.mem) (hseg : t.cpu.seg = s.cpu.seg)
    (seg : SegReg) (ofs : U32) : t.dataByte seg ofs = s.dataByte seg ofs := by
  unfold St.dataByte St.dataVal Cpu.linear
  rw [hseg, hmem.access_result (by decide)]

/-! ## The loops -/

section

variable {inp : PortInput} {h : Host} (hh : h.Blind inp)

include hh

/-- A byte stored as a word. -/
theorem seen_storeWord (ofs : U32) (v : U8) {s : St} (hsep : s.mem.Sep) :
    ∃ t : St, seen h (storeDataWord ofs (v.setWidth 16)) s = ((), t.view) ∧
      s.Wrote (bytesAt 2 (s.cpu.linear s.cpu.dataSeg ofs) fun i => if i = 0 then v else 0) t := by
  refine ⟨_, seen_storeDataSize hh .word ofs _ s, ?_⟩
  have hwrote := stored_wrote hsep .word s.cpu.dataSeg ofs ((v.setWidth 16).setWidth 32)
  refine ⟨hwrote.cpu, hwrote.mem.congr fun c => congrFun (bytesAt_congr _ fun i hi => ?_) c⟩
  have hi' : i < 2 := hi
  ext b hb
  obtain rfl | rfl : i = 0 ∨ i = 1 := by omega
  · simp [hb]
    omega
  · simp

/-- Word stores to one place: the last one is left. -/
theorem seen_storeWords (ofs : U32) (val : Fin 16 → U8) (n : Nat) {a : Nat} {s : St}
    (hsep : s.mem.Sep) :
    ∃ t : St, seen h (forLoop (n + 1)
        (fun i => storeDataWord ofs ((val (Fin.ofNat 16 i)).setWidth 16)) a) s = ((), t.view) ∧
      s.Wrote (bytesAt 2 (s.cpu.linear s.cpu.dataSeg ofs)
        fun i => if i = 0 then val (Fin.ofNat 16 (a + n)) else 0) t := by
  induction n generalizing a s with
  | zero => exact seen_storeWord hh ofs (val (Fin.ofNat 16 a)) hsep
  | succ n ih =>
    obtain ⟨t, hseen, hwrote⟩ := seen_storeWord hh ofs (val (Fin.ofNat 16 a)) hsep
    obtain ⟨u, hseen', hwrote'⟩ := ih (a := a + 1) (hwrote.mem.guarded.sep hsep)
    refine ⟨u, ?_, hwrote'.cpu.trans hwrote.cpu, ?_⟩
    · rw [forLoop, seen_step hh hseen]
      exact hseen'
    · have hlast := hwrote'.mem
      rw [hwrote.cpu, show a + 1 + n = a + (n + 1) by omega] at hlast
      exact (hwrote.mem.trans hlast).congr (bytesAt_or 2 _ _ _)

/-- Byte stores one behind the other. -/
theorem seen_storeByteLoop {body : Nat → Emu Unit} {ofs : U32} {v : Nat → U8} {c : Cpu}
    (hbody : ∀ i s, s.cpu = c → seen h (body i) s =
      ((), (s.stored .b8 c.dataSeg (ofs + BitVec.ofNat 32 i) ((v i).setWidth 32)).view))
    {n a : Nat} (hn : n < 2 ^ 32) {s : St} (hsep : s.mem.Sep) (hcpu : s.cpu = c) :
    ∃ t : St, seen h (forLoop n body a) s = ((), t.view) ∧
      s.Wrote (bytesAt n (c.linear c.dataSeg (ofs + BitVec.ofNat 32 a)) fun i => v (a + i)) t := by
  induction n generalizing a s with
  | zero => exact ⟨s, rfl, rfl, (Mem.Wrote.nothing (.refl _)).congr fun _ => rfl⟩
  | succ n ih =>
    have hone := stored_wrote hsep .byte c.dataSeg (ofs + BitVec.ofNat 32 a) ((v a).setWidth 32)
    obtain ⟨t, hseen, hwrote⟩ := ih (a := a + 1) (by omega) (hone.mem.guarded.sep hsep)
      (hone.cpu.trans hcpu)
    refine ⟨t, ?_, hwrote.cpu.trans hone.cpu, ?_⟩
    · rw [forLoop, seen_step hh (hbody a s hcpu)]
      exact hseen
    · have hnext : c.linear c.dataSeg (ofs + BitVec.ofNat 32 (a + 1)) =
          c.linear c.dataSeg (ofs + BitVec.ofNat 32 a) + 1 := by
        show _ + (ofs + _) = _ + (ofs + _) + BitVec.ofNat 32 1
        rw [BitVec.ofNat_add]
        ac_rfl
      have hfirst : ∀ i < 1, ((v a).setWidth 32).extractLsb' (8 * i) 8 = v a := by
        intro i hi
        obtain rfl : i = 0 := by omega
        ext b hb
        simp [hb]
        omega
      rw [hnext] at hwrote
      refine (hone.mem.trans hwrote.mem).congr fun b => ?_
      rw [hcpu, show OpSize.byte.bytes = 1 from rfl, bytesAt_congr _ hfirst,
        ← bytesAt_cons (by omega) _ (fun i => v (a + i)), bytesAt_congr _ fun i _ =>
          congrArg v (show a + 1 + i = a + (i + 1) by omega)]
      rfl

/-- Bytes loaded into a register one behind the other. -/
theorem seen_loadByteLoop {body : Nat → Emu Unit} {ofs : U32} {dst : BitVec 3} {first : Nat}
    (hbody : ∀ i s, seen h (body i) s = ((),
      ((s.loaded .b8 s.cpu.dataSeg (ofs + BitVec.ofNat 32 i)).put fun c =>
        c.setXmm dst (Function.update (c.xmm dst) (Fin.ofNat 16 (i + first))
          (s.dataByte s.cpu.dataSeg (ofs + BitVec.ofNat 32 i)))).view))
    {n a : Nat} (hn : a + n + first ≤ 16) (s : St) :
    ∃ t : St, seen h (forLoop n body a) s = ((), t.view) ∧ s.mem.Marked t.mem ∧
      t.cpu = s.cpu.setXmm dst fun k => if a + first ≤ k ∧ k < a + n + first then
        s.dataByte s.cpu.dataSeg (ofs + BitVec.ofNat 32 (k - first)) else s.cpu.xmm dst k := by
  induction n generalizing a s with
  | zero =>
    refine ⟨s, rfl, .refl _, ?_⟩
    have hnone : ∀ k : Fin 16, ¬(a + first ≤ k ∧ k < a + 0 + first) := fun k hk => by omega
    simp only [if_neg (hnone _)]
    exact (setXmm_self s.cpu dst).symm
  | succ n ih =>
    let seg := s.cpu.dataSeg
    let v := s.dataByte seg (ofs + BitVec.ofNat 32 a)
    let u := (s.loaded .b8 seg (ofs + BitVec.ofNat 32 a)).put fun c =>
      c.setXmm dst (Function.update (c.xmm dst) (Fin.ofNat 16 (a + first)) v)
    obtain ⟨t, hseen, hmark, hcpu⟩ := ih (a := a + 1) (by omega) u
    have hload : s.mem.Marked u.mem := (Reads.refl.loaded .b8 seg _).marked
    have hucpu : u.cpu =
        s.cpu.setXmm dst (Function.update (s.cpu.xmm dst) (Fin.ofNat 16 (a + first)) v) := by
      show (s.loaded _ _ _).cpu.setXmm _ _ = _
      rw [loaded_cpu]
    have hbytes : ∀ k, u.dataByte u.cpu.dataSeg k = s.dataByte seg k := by
      intro k
      rw [dataByte_congr hload (by rw [hucpu]; rfl), hucpu]
      rfl
    refine ⟨t, ?_, hload.trans hmark, ?_⟩
    · rw [forLoop, seen_step hh (hbody a s)]
      exact hseen
    · rw [hcpu, hucpu, setXmm_setXmm]
      refine congrArg (s.cpu.setXmm dst) (funext fun k => ?_)
      rw [← hucpu, hbytes, hucpu, setXmm_xmm, Function.update_self]
      have hofNat : (Fin.ofNat 16 (a + first)).val = a + first :=
        Nat.mod_eq_of_lt (show a + first < 16 by omega)
      by_cases hk : k = Fin.ofNat 16 (a + first)
      · subst hk
        rw [Function.update_self, hofNat, if_neg (by omega), if_pos (by omega), Nat.add_sub_cancel]
      · have hne : k.val ≠ a + first := fun h => hk (Fin.ext (h.trans hofNat.symm))
        rw [Function.update_of_ne hk]
        by_cases hin : a + 1 + first ≤ k ∧ k < a + 1 + n + first
        · rw [if_pos hin, if_pos (by omega)]
        · rw [if_neg hin, if_neg (by omega)]

end

/-! ## The moves -/

inductive SseMove
  | movups | movaps | movlps | movhps
  deriving DecidableEq, Repr

namespace SseMove

/-- The second opcode byte of the store, and that of the load. -/
def store : SseMove → U8
  | movups => 0x11
  | movaps => 0x29
  | movlps => 0x13
  | movhps => 0x17

def load : SseMove → U8
  | movups => 0x10
  | movaps => 0x28
  | movlps => 0x12
  | movhps => 0x16

/-- The first byte of the register that is moved. -/
def first : SseMove → Nat
  | movups | movaps | movlps => 0
  | movhps => 8

/-- The number of bytes that are moved. -/
def size : SseMove → Nat
  | movups | movaps => 16
  | movlps | movhps => 8

end SseMove

/-- The memory operand, as a linear address. -/
def St.rmLinear (s : St) : U32 := s.cpu.linear s.rmSeg s.rmAddress

/-- The store leads from `s` to `p`, and the load at `u` to `t`: the bytes of the register are those
of the operand and then those of the other register, and no others change. -/
structure SseMoved (mv : SseMove) (s p u t : St) : Prop where
  bytes : ∀ k < mv.size, (p.mem.flat (s.rmLinear + BitVec.ofNat 32 k)).data =
    s.cpu.xmm s.modrm.regh (Fin.ofNat 16 (mv.first + k))
  rest : ∀ a, (∀ k < mv.size, a ≠ s.rmLinear + BitVec.ofNat 32 k) →
    (p.mem.flat a).data = (s.mem.flat a).data
  xmm : ∀ r (k : Fin 16), t.cpu.xmm r k =
    if r = u.modrm.regh ∧ mv.first ≤ k ∧ k < mv.first + mv.size then s.cpu.xmm s.modrm.regh k
    else s.cpu.xmm r k
  mem : ∀ a, (t.mem.flat a).data = (p.mem.flat a).data

/-- A store between registers: from the register of the `reg` field to that of the `r/m` field. -/
structure SseCopied (s p : St) : Prop where
  xmm : p.cpu.xmm = Function.update s.cpu.xmm s.modrm.regl (s.cpu.xmm s.modrm.regh)
  mem : ∀ a, (p.mem.flat a).data = (s.mem.flat a).data

/-- What the store and the load should do. -/
def SseMove.Exact (mv : SseMove) (s p u t : St) : Prop :=
  if s.modrm.mod = 3 then SseCopied s p else SseMoved mv s p u t

/-! ## The fields exchanged -/

/-- The address form that the `reg` field names in the place of the `r/m` field. -/
def St.regForm (s : St) : AddrForm :=
  addrForm s.cpu.mode.addr32 s.modrm.mod s.modrm.regh
    ((s.code .b8 (s.cpu.advance 1)).setWidth 8)

def St.regAddress (s : St) : U32 :=
  s.regForm.address s.cpu (s.disp s.regForm.disp (s.cpu.advance (if s.regForm.sib then 2 else 1)))

def St.regSeg (s : St) : SegReg :=
  s.cpu.defaultSeg.getD (if s.cpu.mode.segDsSs || s.regForm.onStack then .ss else .ds)

def St.regLinear (s : St) : U32 := s.cpu.linear s.regSeg s.regAddress

/-- The word that is left by 16 stores to one address. -/
def St.sseWord (s : St) (i : Nat) : U8 := if i = 0 then s.cpu.xmm s.modrm.regl 15 else 0

/-- Byte `i` of the word goes to the address. -/
def St.SseWrites (s : St) (mv : SseMove) (i : Nat) (a : U32) : Prop :=
  Op2.misaligned mv.store s.regAddress = false ∧ a = s.regLinear + BitVec.ofNat 32 i

/-- With the fields exchanged, the word that is written belongs where it is written, and the rest of
the operand already holds the register. -/
structure St.StoreFits (s : St) (mv : SseMove) : Prop where
  inside : ∀ i < 2, ∀ k < 16, s.SseWrites mv i (s.rmLinear + BitVec.ofNat 32 k) →
    s.cpu.xmm s.modrm.regh (Fin.ofNat 16 k) = s.sseWord i
  outside : ∀ i < 2, ∀ a, s.SseWrites mv i a → (∀ k < 16, a ≠ s.rmLinear + BitVec.ofNat 32 k) →
    (s.mem.flat a).attr.has permW = true → (s.mem.flat a).data = s.sseWord i
  kept : ∀ k < 16, (∀ i < 2, ¬s.SseWrites mv i (s.rmLinear + BitVec.ofNat 32 k)) →
    (s.mem.flat (s.rmLinear + BitVec.ofNat 32 k)).data =
      s.cpu.xmm s.modrm.regh (Fin.ofNat 16 k)

/-- When the code does what the instructions should do. -/
def SseMove.Holds (mv : SseMove) (s : St) : Prop :=
  match mv with
  | movups | movaps =>
    if s.modrm.mod = 3 then s.cpu.xmm s.modrm.regh = s.cpu.xmm s.modrm.regl else s.StoreFits mv
  | movlps | movhps => True

/-! ## The stores -/

/-- What a store writes to memory. -/
def SseMove.written (mv : SseMove) (s : St) : U32 → Option U8 :=
  match mv with
  | movups | movaps =>
    if Op2.misaligned mv.store s.regAddress then fun _ => none else bytesAt 2 s.regLinear s.sseWord
  | movlps | movhps =>
    bytesAt 8 s.rmLinear fun k => s.cpu.xmm s.modrm.regh (Fin.ofNat 16 (mv.first + k))

/-- What a store leaves. -/
structure SseStored (mv : SseMove) (s p : St) : Prop where
  gen : p.cpu.gen = s.cpu.gen
  others : p.cpu.others = s.cpu.others
  mem : s.mem.Wrote (mv.written s) p.mem

theorem SseStored.of_view {mv : SseMove} {s p p' : St} (h : SseStored mv s p)
    (hview : p'.view = p.view) : SseStored mv s p' := by
  obtain ⟨hcpu, hmem, -⟩ := view_parts hview
  exact ⟨hcpu ▸ h.gen, hcpu ▸ h.others, hmem ▸ h.mem⟩

/-- After the operand is decoded. -/
theorem SseStored.of_reads {mv : SseMove} {s r p : St} {f : U32 → Option U8} {intr : Intr}
    (hr : Reads { s with intr := intr } r) (hp : r.Wrote f p) (hf : ∀ a, f a = mv.written s a) :
    SseStored mv s p := by
  obtain ⟨hgen, hothers⟩ := hr.regs
  refine ⟨by rw [hp.cpu, hgen], by rw [hp.cpu, hothers], ?_⟩
  have hmark : s.mem.Marked r.mem := hr.marked
  refine ((Mem.Wrote.nothing hmark).trans hp.mem).congr fun a => ?_
  rw [Option.or_none, hf]

section

variable {inp : PortInput} {h : Host} (hh : h.Blind inp) {s : St}

include hh

/-- The bytes of a memory operand when the fields are exchanged. -/
theorem seen_regAddress (hmod : s.modrm.mod ≠ 3) :
    seen h (decodeRmAddress s.modrm.mod s.modrm.regh) (s.fetched .b8) =
      (s.regAddress, ((s.fetched .b8).decoded s.regForm).view) := by
  have hform : addrForm (s.fetched .b8).cpu.mode.addr32 s.modrm.mod s.modrm.regh
      (((s.fetched .b8).code .b8 (s.fetched .b8).cpu.eip).setWidth 8) = s.regForm := by
    rw [fetched_code]
    rfl
  rw [seen_decodeRmAddress hh hmod, hform, ea_fetched]
  rfl

/-- The stores of a whole register. -/
theorem sseMovOps_stored {mv : SseMove} (hmv : mv = .movups ∨ mv = .movaps) (hsep : s.mem.Sep)
    (hmod : s.modrm.mod ≠ 3) : SseStored mv s ((Op2.sseMovOps mv.store).run h s).2 := by
  obtain ⟨intr, hcheck⟩ := seen_sseEnabledCheck hh s
  let s' : St := { s with intr := intr }
  have hmod' : s'.modrm.mod ≠ 3 := hmod
  let r := (s'.fetched .b8).decoded s'.regForm
  have hr : Reads s' r := (Reads.refl.fetched .b8).decoded s'.regForm
  have hstore : mv.store &&& 1 ≠ 0 := by rcases hmv with rfl | rfl <;> decide
  have hwritten : mv.written s = if Op2.misaligned mv.store s.regAddress then fun _ => none
      else bytesAt 2 s.regLinear s.sseWord := by
    rcases hmv with rfl | rfl <;> rfl
  have hstart : seen h (Op2.sseMovOps mv.store) s = seen h (if Op2.misaligned mv.store s'.regAddress
      then intrRaiseGp 0 else do
        let tmp ← Op2.getXmm s'.modrm.regl
        storeDataQlong s'.regAddress tmp) r := by
    unfold Op2.sseMovOps
    rw [seen_step hh (seen_opDecode _ s), seen_step hh hcheck, seen_step hh (seen_modrm hh s'),
      seen_ite, if_neg hmod', seen_ite, if_neg hstore, seen_step hh (seen_regAddress hh hmod'),
      seen_step hh (seen_opDecode _ _), seen_step hh (seen_decodeRmSseRegister hh _ _)]
  have hview : ((Op2.sseMovOps mv.store).run h s).2.view = _ := congrArg Prod.snd hstart
  rw [seen_ite] at hview
  by_cases hmis : Op2.misaligned mv.store s'.regAddress = true
  · rw [if_pos hmis, seen_intrRaiseGp] at hview
    refine SseStored.of_view (SseStored.of_reads hr (p := r.raisedGp 0) (f := fun _ => none)
      ⟨rfl, .nothing (.refl _)⟩ fun a => ?_) hview
    have hmis' : Op2.misaligned mv.store s.regAddress = true := hmis
    rw [hwritten, if_pos hmis']
  · have hseg : r.cpu.dataSeg = s.regSeg := decoded_dataSeg (s'.fetched .b8) s'.regForm
    have hlinear : r.cpu.linear r.cpu.dataSeg s.regAddress = s.regLinear := by
      rw [hseg]
      unfold Cpu.linear
      rw [others_seg hr.regs.2]
      rfl
    obtain ⟨p, hp, hwrote⟩ := seen_storeWords hh s.regAddress (s.cpu.xmm s.modrm.regl) 15 (a := 0)
      (hr.marked.sep hsep)
    rw [if_neg hmis, seen_step hh (seen_getXmm hh _ _), hr.xmm] at hview
    refine SseStored.of_view (SseStored.of_reads hr hwrote fun a => ?_)
      (hview.trans (congrArg Prod.snd hp))
    rw [hwritten, hlinear]
    exact (congrFun (if_neg hmis) a).symm

/-- The stores of half a register. -/
theorem sseMovPackedOps_stored {mv : SseMove} (hmv : mv = .movlps ∨ mv = .movhps)
    (hsep : s.mem.Sep) (hmod : s.modrm.mod ≠ 3) :
    SseStored mv s ((Op2.sseMovPackedOps mv.store).run h s).2 := by
  obtain ⟨text, htext⟩ : ∃ text, Op2.sseMovPackedText mv.store s.modrm.mod = some text := by
    rcases hmv with rfl | rfl
    · exact ⟨_, rfl⟩
    · exact ⟨_, rfl⟩
  obtain ⟨intr, hcheck⟩ := seen_sseEnabledCheck hh (s.fetched .b8)
  have hfetched : { s.fetched .b8 with intr := intr } =
      ({ s with intr := intr } : St).fetched .b8 := rfl
  let s' : St := { s with intr := intr }
  have hmod' : s'.modrm.mod ≠ 3 := hmod
  have hr : Reads s' s'.rmFetched := rmFetched_reads s'
  have hstore : mv.store &&& 1 ≠ 0 := by rcases hmv with rfl | rfl <;> decide
  have hview : ((Op2.sseMovPackedOps mv.store).run h s).2.view =
      (seen h (forLoop 8 (Op2.sseStorePackedByte mv.store s'.rmAddress s.modrm.regh))
        s'.rmFetched).2 := by
    refine congrArg Prod.snd (?_ : seen h (Op2.sseMovPackedOps mv.store) s = _)
    unfold Op2.sseMovPackedOps Op2.sseText
    rw [seen_step hh (seen_modrm hh s), htext, seen_step hh (seen_opDecode _ _),
      seen_step hh hcheck, hfetched, seen_ite, if_neg hmod, seen_ite, if_pos hstore]
    rw [show decodeRmAddress s.modrm.mod s.modrm.regl =
      decodeRmAddress s'.modrm.mod s'.modrm.regl from rfl, seen_step hh (seen_rmAddress hh hmod'),
      seen_step hh (seen_opDecode _ _), seen_step hh (seen_decodeRmSseRegister hh _ _)]
  have hlinear : s'.rmFetched.cpu.linear s'.rmFetched.cpu.dataSeg s'.rmAddress = s.rmLinear := by
    rw [rmFetched_dataSeg]
    unfold St.rmLinear Cpu.linear
    rw [others_seg hr.regs.2]
    rfl
  let v : Nat → U8 := fun k => s.cpu.xmm s.modrm.regh (Fin.ofNat 16 (mv.first + k))
  have hbody : ∀ i (u : St), u.cpu = s'.rmFetched.cpu →
      seen h (Op2.sseStorePackedByte mv.store s'.rmAddress s.modrm.regh i) u =
        ((), (u.stored .b8 s'.rmFetched.cpu.dataSeg (s'.rmAddress + BitVec.ofNat 32 i)
          ((v i).setWidth 32)).view) := by
    intro i u hu
    have hxmm : u.cpu.xmm = s.cpu.xmm := by rw [hu, hr.xmm]
    rw [← hu]
    unfold Op2.sseStorePackedByte
    rcases hmv with rfl | rfl
    · have hindex : v i = s.cpu.xmm s.modrm.regh (Fin.ofNat 16 i) :=
        congrArg (fun j => s.cpu.xmm s.modrm.regh (Fin.ofNat 16 j)) (Nat.zero_add i)
      rw [seen_ite, if_pos (by decide), seen_step hh (seen_getXmm hh _ u), hxmm, hindex]
      exact seen_storeDataSize hh .byte _ _ u
    · have hindex : v i = s.cpu.xmm s.modrm.regh (Fin.ofNat 16 (i + 8)) :=
        congrArg (fun j => s.cpu.xmm s.modrm.regh (Fin.ofNat 16 j)) (Nat.add_comm 8 i)
      rw [seen_ite, if_neg (by decide), seen_ite, if_pos (by decide),
        seen_step hh (seen_getXmm hh _ u), hxmm, hindex]
      exact seen_storeDataSize hh .byte _ _ u
  obtain ⟨p, hp, hwrote⟩ := seen_storeByteLoop hh hbody (n := 8) (a := 0) (by decide)
    (hr.marked.sep hsep) rfl
  refine SseStored.of_view (SseStored.of_reads hr hwrote fun a => ?_)
    (hview.trans (congrArg Prod.snd hp))
  have hzero : s'.rmAddress + BitVec.ofNat 32 0 = s'.rmAddress := BitVec.add_zero _
  have hwritten : mv.written s = bytesAt 8 s.rmLinear v := by rcases hmv with rfl | rfl <;> rfl
  rw [hzero, hlinear, hwritten]
  exact congrFun (bytesAt_congr _ fun i _ => congrArg v (Nat.zero_add i)) a

/-- Every store to memory. -/
theorem sse_stored (mv : SseMove) (hsep : s.mem.Sep) (hmod : s.modrm.mod ≠ 3) :
    SseStored mv s ((handlerAt x86emuOptab2 mv.store mv.store).run h s).2 := by
  cases mv with
  | movups => exact sseMovOps_stored hh (Or.inl rfl) hsep hmod
  | movaps => exact sseMovOps_stored hh (Or.inr rfl) hsep hmod
  | movlps => exact sseMovPackedOps_stored hh (Or.inl rfl) hsep hmod
  | movhps => exact sseMovPackedOps_stored hh (Or.inr rfl) hsep hmod

/-- A store between registers copies the register of the `r/m` field. -/
theorem seen_sseMovOps_reg (op2 : U8) (hmod : s.modrm.mod = 3) :
    ∃ intr r, Reads { s with intr := intr } r ∧ seen h (Op2.sseMovOps op2) s =
      ((), (r.put (·.setXmm s.modrm.regh (s.cpu.xmm s.modrm.regl))).view) := by
  obtain ⟨intr, hcheck⟩ := seen_sseEnabledCheck hh s
  let s' : St := { s with intr := intr }
  have hmod' : s'.modrm.mod = 3 := hmod
  have hr : Reads s' (s'.fetched .b8) := Reads.refl.fetched .b8
  refine ⟨intr, s'.fetched .b8, hr, ?_⟩
  unfold Op2.sseMovOps
  rw [seen_step hh (seen_opDecode _ s), seen_step hh hcheck, seen_step hh (seen_modrm hh s'),
    seen_ite, if_pos hmod', seen_step hh (seen_decodeRmSseRegister hh _ _),
    seen_step hh (seen_opDecode _ _), seen_step hh (seen_decodeRmSseRegister hh _ _),
    seen_step hh (seen_getXmm hh _ _), hr.xmm]
  exact seen_setXmm _ _ _

end

/-! ## The loads -/

/-- What a load leaves. -/
structure SseLoaded (mv : SseMove) (u t : St) : Prop where
  mem : u.mem.Marked t.mem
  xmm : ∀ r (k : Fin 16), t.cpu.xmm r k =
    if r = u.modrm.regh ∧ mv.first ≤ k ∧ k < mv.first + mv.size then
      u.dataByte u.rmSeg (u.rmAddress + BitVec.ofNat 32 (k - mv.first))
    else u.cpu.xmm r k

theorem SseLoaded.of_view {mv : SseMove} {u t t' : St} (h : SseLoaded mv u t)
    (hview : t'.view = t.view) : SseLoaded mv u t' := by
  obtain ⟨hcpu, hmem, -⟩ := view_parts hview
  exact ⟨hmem ▸ h.mem, hcpu ▸ h.xmm⟩

section

variable {inp : PortInput} {h : Host} (hh : h.Blind inp) {u : St}

include hh

/-- The loads of a whole register. -/
theorem sseMovOps_loaded {mv : SseMove} (hmv : mv = .movups ∨ mv = .movaps)
    (hmod : u.modrm.mod ≠ 3) (hmis : Op2.misaligned mv.load u.rmAddress = false) :
    SseLoaded mv u ((Op2.sseMovOps mv.load).run h u).2 := by
  obtain ⟨intr, hcheck⟩ := seen_sseEnabledCheck hh u
  let u' : St := { u with intr := intr }
  have hmod' : u'.modrm.mod ≠ 3 := hmod
  have hmis' : ¬Op2.misaligned mv.load u'.rmAddress = true := Bool.eq_false_iff.mp hmis
  have hload : mv.load &&& 1 = 0 := by rcases hmv with rfl | rfl <;> decide
  obtain ⟨r, hr, -, hfetch⟩ := seen_fetchDataQlong hh u'.rmAddress u'.rmFetched
  have hreads : Reads u' r := (rmFetched_reads u').trans hr
  have hview : ((Op2.sseMovOps mv.load).run h u).2.view =
      (r.put (·.setXmm u.modrm.regh (u.dataQlong u.rmSeg u.rmAddress))).view := by
    refine congrArg Prod.snd (?_ : seen h (Op2.sseMovOps mv.load) u = ((), _))
    unfold Op2.sseMovOps
    rw [seen_step hh (seen_opDecode _ u), seen_step hh hcheck, seen_step hh (seen_modrm hh u'),
      seen_ite, if_neg hmod', seen_ite, if_pos hload,
      seen_step hh (seen_decodeRmSseRegister hh _ _), seen_step hh (seen_opDecode _ _),
      seen_step hh (seen_rmAddress hh hmod'), seen_step hh hfetch, seen_ite, if_neg hmis',
      rmFetched_dataSeg, (rmFetched_reads u').dataQlong]
    exact seen_setXmm _ _ _
  refine SseLoaded.of_view (t := r.put _) ⟨hreads.marked, fun x k => ?_⟩ hview
  have hpart : mv.first ≤ k ∧ k < mv.first + mv.size := by
    rcases hmv with rfl | rfl <;> exact ⟨Nat.zero_le _, k.isLt⟩
  have hfirst : mv.first = 0 := by rcases hmv with rfl | rfl <;> rfl
  show Function.update r.cpu.xmm u.modrm.regh _ x k = _
  rw [hreads.xmm]
  by_cases hx : x = u.modrm.regh
  · subst hx
    rw [Function.update_self, if_pos ⟨rfl, hpart⟩, hfirst]
    rfl
  · rw [Function.update_of_ne hx, if_neg fun hor => hx hor.1]

/-- The loads of half a register. -/
theorem sseMovPackedOps_loaded {mv : SseMove} (hmv : mv = .movlps ∨ mv = .movhps)
    (hmod : u.modrm.mod ≠ 3) : SseLoaded mv u ((Op2.sseMovPackedOps mv.load).run h u).2 := by
  obtain ⟨text, htext⟩ : ∃ text, Op2.sseMovPackedText mv.load u.modrm.mod = some text := by
    rcases hmv with rfl | rfl
    · exact ⟨_, rfl⟩
    · exact ⟨_, rfl⟩
  obtain ⟨intr, hcheck⟩ := seen_sseEnabledCheck hh (u.fetched .b8)
  have hfetched : { u.fetched .b8 with intr := intr } =
      ({ u with intr := intr } : St).fetched .b8 := rfl
  let u' : St := { u with intr := intr }
  have hmod' : u'.modrm.mod ≠ 3 := hmod
  have hr : Reads u' u'.rmFetched := rmFetched_reads u'
  have hload : ¬(mv.load &&& 1 ≠ 0) := by rcases hmv with rfl | rfl <;> decide
  have hview : ((Op2.sseMovPackedOps mv.load).run h u).2.view =
      (seen h (forLoop 8 (Op2.sseLoadPackedByte mv.load u.modrm.regh u'.rmAddress))
        u'.rmFetched).2 := by
    refine congrArg Prod.snd (?_ : seen h (Op2.sseMovPackedOps mv.load) u = _)
    unfold Op2.sseMovPackedOps Op2.sseText
    rw [seen_step hh (seen_modrm hh u), htext, seen_step hh (seen_opDecode _ _),
      seen_step hh hcheck, hfetched, seen_ite, if_neg hmod, seen_ite, if_neg hload,
      seen_step hh (seen_decodeRmSseRegister hh _ _), seen_step hh (seen_opDecode _ _)]
    rw [show decodeRmAddress u.modrm.mod u.modrm.regl =
      decodeRmAddress u'.modrm.mod u'.modrm.regl from rfl, seen_step hh (seen_rmAddress hh hmod')]
  have hbody : ∀ i (w : St), seen h (Op2.sseLoadPackedByte mv.load u.modrm.regh u'.rmAddress i) w =
      ((), ((w.loaded .b8 w.cpu.dataSeg (u'.rmAddress + BitVec.ofNat 32 i)).put fun c =>
        c.setXmm u.modrm.regh (Function.update (c.xmm u.modrm.regh) (Fin.ofNat 16 (i + mv.first))
          (w.dataByte w.cpu.dataSeg (u'.rmAddress + BitVec.ofNat 32 i)))).view) := by
    intro i w
    have hbyte : seen h (fetchDataByte (u'.rmAddress + BitVec.ofNat 32 i)) w =
        (w.dataByte w.cpu.dataSeg (u'.rmAddress + BitVec.ofNat 32 i),
          (w.loaded .b8 w.cpu.dataSeg (u'.rmAddress + BitVec.ofNat 32 i)).view) :=
      seen_fetchDataSize hh .byte _ w
    unfold Op2.sseLoadPackedByte Op2.setXmmByte
    rcases hmv with rfl | rfl
    · rw [seen_ite, if_pos (by decide), seen_step hh hbyte, seen_step hh (seen_getXmm hh _ _)]
      exact seen_setXmm _ _ _
    · rw [seen_ite, if_neg (by decide), seen_ite, if_pos (by decide), seen_step hh hbyte,
        seen_step hh (seen_getXmm hh _ _)]
      exact seen_setXmm _ _ _
  have hfits : 0 + 8 + mv.first ≤ 16 := by rcases hmv with rfl | rfl <;> decide
  obtain ⟨t, ht, hmark, hcpu⟩ := seen_loadByteLoop hh hbody hfits u'.rmFetched
  refine SseLoaded.of_view ⟨hr.marked.trans hmark, fun x k => ?_⟩
    (hview.trans (congrArg Prod.snd ht))
  have hbyte : ∀ ofs,
      u'.rmFetched.dataByte u'.rmFetched.cpu.dataSeg ofs = u.dataByte u.rmSeg ofs := by
    intro ofs
    rw [rmFetched_dataSeg]
    exact congrArg (BitVec.setWidth 8) (hr.dataVal .b8 _ _)
  have hpart : 0 + mv.first ≤ k.val ∧ k.val < 0 + 8 + mv.first ↔
      mv.first ≤ k.val ∧ k.val < mv.first + mv.size := by
    have hsize : mv.size = 8 := by rcases hmv with rfl | rfl <;> rfl
    omega
  rw [hcpu, setXmm_xmm, hr.xmm]
  by_cases hx : x = u.modrm.regh
  · subst hx
    rw [Function.update_self, hbyte]
    simp only [hpart, true_and]
    rfl
  · rw [Function.update_of_ne hx, if_neg fun hor => hx hor.1]

/-- Every load from memory. -/
theorem sse_loaded (mv : SseMove) (hmod : u.modrm.mod ≠ 3)
    (hmis : mv = .movaps → u.rmAddress &&& 0xf = 0) :
    SseLoaded mv u ((handlerAt x86emuOptab2 mv.load mv.load).run h u).2 := by
  cases mv with
  | movups => exact sseMovOps_loaded hh (Or.inl rfl) hmod rfl
  | movaps =>
    refine sseMovOps_loaded hh (Or.inr rfl) hmod ?_
    unfold Op2.misaligned
    rw [hmis rfl]
    rfl
  | movlps => exact sseMovPackedOps_loaded hh (Or.inl rfl) hmod
  | movhps => exact sseMovPackedOps_loaded hh (Or.inr rfl) hmod

end

/-! ## When the moves are right -/

theorem dataByte_shown (s : St) (seg : SegReg) (ofs : U32) :
    s.dataByte seg ofs = (s.mem.flat (s.cpu.linear seg ofs)).shown := by
  have hbyte := num_byte .byte (s.cpu.linear seg ofs) (show 0 < OpSize.byte.bytes by decide) s.mem
  rw [show s.cpu.linear seg ofs + BitVec.ofNat 32 0 = s.cpu.linear seg ofs from
    BitVec.add_zero _] at hbyte
  rw [← hbyte]
  exact BitVec.extractLsb'_eq_self.symm

section

variable {mv : SseMove} {s p : St}

/-- The address is one of the operand. -/
theorem apart_or {n : Nat} (m a : U32) :
    (∃ k < n, a = m + BitVec.ofNat 32 k) ∨ ∀ k < n, a ≠ m + BitVec.ofNat 32 k := by
  by_cases hin : ∃ k < n, a = m + BitVec.ofNat 32 k
  · exact Or.inl hin
  · exact Or.inr fun k hk heq => hin ⟨k, hk, heq⟩

theorem written_cases (hmv : mv = .movups ∨ mv = .movaps) (a : U32) :
    (∃ i < 2, s.SseWrites mv i a ∧ mv.written s a = some (s.sseWord i)) ∨
      (∀ i < 2, ¬s.SseWrites mv i a) ∧ mv.written s a = none := by
  have hwritten : mv.written s = if Op2.misaligned mv.store s.regAddress then fun _ => none
      else bytesAt 2 s.regLinear s.sseWord := by
    rcases hmv with rfl | rfl <;> rfl
  rw [hwritten]
  by_cases hmis : Op2.misaligned mv.store s.regAddress = true
  · refine Or.inr ⟨fun i _ hw => ?_, by rw [if_pos hmis]⟩
    have hno := hw.1
    rw [hmis] at hno
    exact absurd hno (by decide)
  · rw [if_neg hmis]
    rcases apart_or (n := 2) s.regLinear a with ⟨i, hi, rfl⟩ | hout
    · refine Or.inl ⟨i, hi, ⟨Bool.eq_false_iff.mpr hmis, rfl⟩, ?_⟩
      unfold bytesAt
      rw [ofNat_add_sub _ (by omega), if_pos hi]
    · exact Or.inr ⟨fun i hi hw => hout i hi hw.2, bytesAt_apart hout⟩

/-- The stores of a whole register are right exactly when the word fits. -/
theorem fits_iff (hmv : mv = .movups ∨ mv = .movaps) (h : SseStored mv s p)
    (hwrite : s.mem.Permits permW 16 s.rmLinear) :
    ((∀ k < 16, (p.mem.flat (s.rmLinear + BitVec.ofNat 32 k)).data =
        s.cpu.xmm s.modrm.regh (Fin.ofNat 16 k)) ∧
      ∀ a, (∀ k < 16, a ≠ s.rmLinear + BitVec.ofNat 32 k) →
        (p.mem.flat a).data = (s.mem.flat a).data) ↔ s.StoreFits mv := by
  have hin : ∀ i < 2, ∀ a, s.SseWrites mv i a → (p.mem.flat a).data =
      (s.mem.flat a).kept (s.sseWord i) := by
    intro i hi a hw
    rcases written_cases (s := s) hmv a with ⟨i', hi', hw', hval⟩ | ⟨hnone, -⟩
    · have hofs := ofNat_add_sub s.regLinear (show i < 2 ^ 32 by omega)
      rw [← hw.2, hw'.2, ofNat_add_sub _ (by omega)] at hofs
      rw [h.mem.data, hval, hofs]
      rfl
    · exact absurd hw (hnone i hi)
  have hout : ∀ a, (∀ i < 2, ¬s.SseWrites mv i a) → (p.mem.flat a).data = (s.mem.flat a).data := by
    intro a hnone
    rcases written_cases (s := s) hmv a with ⟨i, hi, hw, -⟩ | ⟨-, hval⟩
    · exact absurd hw (hnone i hi)
    · rw [h.mem.data, hval]
      rfl
  constructor
  · rintro ⟨hbytes, hrest⟩
    refine ⟨fun i hi k hk hw => ?_, fun i hi a hw hapart hperm => ?_, fun k hk hnone => ?_⟩
    · rw [← hbytes k hk, hin i hi _ hw]
      exact if_pos (hwrite k hk)
    · rw [← hrest a hapart, hin i hi a hw]
      exact if_pos hperm
    · rw [← hbytes k hk, hout _ hnone]
  · intro hfits
    refine ⟨fun k hk => ?_, fun a hapart => ?_⟩
    · by_cases hw : ∃ i < 2, s.SseWrites mv i (s.rmLinear + BitVec.ofNat 32 k)
      · obtain ⟨i, hi, hw⟩ := hw
        rw [hin i hi _ hw, hfits.inside i hi k hk hw]
        exact if_pos (hwrite k hk)
      · have hnone : ∀ i < 2, ¬s.SseWrites mv i (s.rmLinear + BitVec.ofNat 32 k) :=
          fun i hi h => hw ⟨i, hi, h⟩
        rw [hout _ hnone, hfits.kept k hk hnone]
    · by_cases hw : ∃ i < 2, s.SseWrites mv i a
      · obtain ⟨i, hi, hw⟩ := hw
        rw [hin i hi a hw]
        unfold Cell.kept
        split
        · next hperm => exact (hfits.outside i hi a hw hapart hperm).symm
        · rfl
      · exact hout a fun i hi h => hw ⟨i, hi, h⟩

/-- The stores of half a register are right. -/
theorem half_stored (hmv : mv = .movlps ∨ mv = .movhps) (h : SseStored mv s p)
    (hwrite : s.mem.Permits permW 8 s.rmLinear) :
    (∀ k < 8, (p.mem.flat (s.rmLinear + BitVec.ofNat 32 k)).data =
        s.cpu.xmm s.modrm.regh (Fin.ofNat 16 (mv.first + k))) ∧
      ∀ a, (∀ k < 8, a ≠ s.rmLinear + BitVec.ofNat 32 k) →
        (p.mem.flat a).data = (s.mem.flat a).data := by
  have hwritten : mv.written s = bytesAt 8 s.rmLinear fun k =>
      s.cpu.xmm s.modrm.regh (Fin.ofNat 16 (mv.first + k)) := by
    rcases hmv with rfl | rfl <;> rfl
  have hdata := h.mem.data
  rw [hwritten] at hdata
  refine ⟨fun k hk => ?_, fun a hapart => ?_⟩
  · unfold bytesAt at hdata
    rw [hdata, ofNat_add_sub _ (by omega), if_pos hk]
    exact if_pos (hwrite k hk)
  · rw [hdata, bytesAt_apart hapart]
    rfl

/-- The matching load moves the bytes of the operand into the register. -/
theorem SseStored.moved {ld : SseMove} {u t : St} (hstored : SseStored mv s p)
    (hloaded : SseLoaded ld u t) (hpart : ld.first = mv.first ∧ ld.size = mv.size)
    (hsame : SameOperand s p u) (hmod : s.modrm.mod ≠ 3)
    (hread : s.mem.Permits permR mv.size s.rmLinear)
    (hbytes : ∀ k < mv.size, (p.mem.flat (s.rmLinear + BitVec.ofNat 32 k)).data =
      s.cpu.xmm s.modrm.regh (Fin.ofNat 16 (mv.first + k)))
    (hrest : ∀ a, (∀ k < mv.size, a ≠ s.rmLinear + BitVec.ofNat 32 k) →
      (p.mem.flat a).data = (s.mem.flat a).data) : SseMoved mv s p u t := by
  have hothers : u.cpu.others = s.cpu.others := hsame.others.trans hstored.others
  have hxmm : u.cpu.xmm = s.cpu.xmm := show u.cpu.others.xmm = s.cpu.others.xmm by rw [hothers]
  have haddr : u.rmAddress = s.rmAddress := hsame.rmAddress hmod hstored.gen rfl
  have hshown : ∀ k < mv.size, u.dataByte u.rmSeg (u.rmAddress + BitVec.ofNat 32 k) =
      s.cpu.xmm s.modrm.regh (Fin.ofNat 16 (mv.first + k)) := by
    intro k hk
    have hlinear : u.cpu.linear u.rmSeg (u.rmAddress + BitVec.ofNat 32 k) =
        s.rmLinear + BitVec.ofNat 32 k := by
      rw [haddr, hsame.rmSeg hmod]
      unfold St.rmLinear Cpu.linear
      rw [others_seg hothers]
      exact (BitVec.add_assoc _ _ _).symm
    have hperm : (u.mem.flat (s.rmLinear + BitVec.ofNat 32 k)).attr.has permR = true := by
      rw [(hsame.mem.cells _).has_eq (by decide),
        (hstored.mem.guarded.cells _).has_eq (Or.inl rfl)]
      exact hread k hk
    rw [dataByte_shown, hlinear, ← hbytes k hk, ← (hsame.mem.cells _).data]
    exact if_pos hperm
  refine ⟨hbytes, hrest, fun r k => ?_, fun a => ?_⟩
  · rw [hloaded.xmm r k, hpart.1, hpart.2, hxmm]
    by_cases hin : r = u.modrm.regh ∧ mv.first ≤ k ∧ k < mv.first + mv.size
    · rw [if_pos hin, if_pos hin, hshown _ (by omega)]
      congr 1
      apply Fin.ext
      rw [Nat.add_sub_cancel' hin.2.1]
      exact Nat.mod_eq_of_lt k.isLt
    · rw [if_neg hin, if_neg hin]
  · rw [(hloaded.mem.cells a).data, (hsame.mem.cells a).data]

/-- A whole register is moved exactly when the word fits. -/
theorem SseStored.whole_iff {ld : SseMove} {u t : St} (hmv : mv = .movups ∨ mv = .movaps)
    (hstored : SseStored mv s p) (hloaded : SseLoaded ld u t)
    (hpart : ld.first = mv.first ∧ ld.size = mv.size) (hsame : SameOperand s p u)
    (hmod : s.modrm.mod ≠ 3) (hram : s.mem.Ram mv.size s.rmLinear) :
    SseMoved mv s p u t ↔ mv.Holds s := by
  have hholds : mv.Holds s ↔ s.StoreFits mv := by
    unfold SseMove.Holds
    rcases hmv with rfl | rfl
    · rw [if_neg hmod]
    · rw [if_neg hmod]
  have hsize : mv.size = 16 := by rcases hmv with rfl | rfl <;> rfl
  have hfirst : mv.first = 0 := by rcases hmv with rfl | rfl <;> rfl
  have hfits := fits_iff hmv hstored (hsize ▸ hram.2)
  have hmoved := hstored.moved hloaded hpart hsame hmod hram.1
  simp only [hsize, hfirst, Nat.zero_add] at hmoved
  rw [hholds, ← hfits]
  constructor
  · rintro ⟨hbytes, hrest, -, -⟩
    simp only [hsize, hfirst, Nat.zero_add] at hbytes hrest
    exact ⟨hbytes, hrest⟩
  · rintro ⟨hbytes, hrest⟩
    exact hmoved hbytes hrest

/-- Half a register is always moved. -/
theorem SseStored.half_moved {ld : SseMove} {u t : St} (hmv : mv = .movlps ∨ mv = .movhps)
    (hstored : SseStored mv s p) (hloaded : SseLoaded ld u t)
    (hpart : ld.first = mv.first ∧ ld.size = mv.size) (hsame : SameOperand s p u)
    (hmod : s.modrm.mod ≠ 3) (hram : s.mem.Ram mv.size s.rmLinear) : SseMoved mv s p u t := by
  have hsize : mv.size = 8 := by rcases hmv with rfl | rfl <;> rfl
  have hmoved := hstored.moved hloaded hpart hsame hmod hram.1
  obtain ⟨hbytes, hrest⟩ := half_stored hmv hstored (hsize ▸ hram.2)
  simp only [hsize] at hmoved
  exact hmoved hbytes hrest

end

section

variable {inp : PortInput} {h : Host} (hh : h.Blind inp) {mv ld : SseMove} {s u : St}

include hh

/-- A store between registers is right exactly when the two are equal. -/
theorem sseMovOps_copied (op2 : U8) (hmod : s.modrm.mod = 3) :
    SseCopied s ((Op2.sseMovOps op2).run h s).2 ↔
      s.cpu.xmm s.modrm.regh = s.cpu.xmm s.modrm.regl := by
  obtain ⟨intr, r, hr, hseen⟩ := seen_sseMovOps_reg hh op2 hmod
  obtain ⟨hcpu, hmem, -⟩ := view_parts (congrArg Prod.snd hseen)
  have hxmm : ((Op2.sseMovOps op2).run h s).2.cpu.xmm =
      Function.update s.cpu.xmm s.modrm.regh (s.cpu.xmm s.modrm.regl) := by
    rw [show ((Op2.sseMovOps op2).run h s).2.cpu = _ from hcpu]
    exact congrArg (fun x => Function.update x _ _) hr.xmm
  constructor
  · intro hcopied
    have hsrc := congrFun (hxmm.symm.trans hcopied.xmm) s.modrm.regh
    rw [Function.update_self] at hsrc
    by_cases heq : s.modrm.regh = s.modrm.regl
    · rw [heq]
    · rw [Function.update_of_ne heq] at hsrc
      exact hsrc.symm
  · intro heq
    refine ⟨?_, fun a => ?_⟩
    · rw [hxmm, ← heq, Function.update_eq_self, heq, Function.update_eq_self]
    · rw [show ((Op2.sseMovOps op2).run h s).2.mem = _ from hmem]
      exact (hr.marked.cells a).data

theorem sse_copied (hmv : mv = .movups ∨ mv = .movaps) (hmod : s.modrm.mod = 3) :
    SseCopied s ((handlerAt x86emuOptab2 mv.store mv.store).run h s).2 ↔
      s.cpu.xmm s.modrm.regh = s.cpu.xmm s.modrm.regl := by
  rcases hmv with rfl | rfl
  · exact sseMovOps_copied hh _ hmod
  · exact sseMovOps_copied hh _ hmod

/-- A store and the matching load: the bytes are moved, or the register is copied, exactly when the
register of the `reg` field is equal to the other one, or when the word that is written for a whole
register fits. -/
theorem sse_moves_iff (hpart : ld.first = mv.first ∧ ld.size = mv.size)
    (hmem : mv.size = 8 → s.modrm.mod ≠ 3) (hsep : s.mem.Sep)
    (hram : s.modrm.mod ≠ 3 → s.mem.Ram mv.size s.rmLinear)
    (halign : s.modrm.mod ≠ 3 → mv = .movaps ∨ ld = .movaps → s.rmAddress &&& 0xf = 0)
    (hsame : s.modrm.mod ≠ 3 →
      SameOperand s ((handlerAt x86emuOptab2 mv.store mv.store).run h s).2 u) :
    mv.Exact s ((handlerAt x86emuOptab2 mv.store mv.store).run h s).2 u
      ((handlerAt x86emuOptab2 ld.load ld.load).run h u).2 ↔ mv.Holds s := by
  by_cases hmod : s.modrm.mod = 3
  · have hcopied : mv = .movups ∨ mv = .movaps →
        (SseCopied s ((handlerAt x86emuOptab2 mv.store mv.store).run h s).2 ↔ mv.Holds s) := by
      intro hmv
      rw [sse_copied hh hmv hmod]
      unfold SseMove.Holds
      rcases hmv with rfl | rfl
      · rw [if_pos hmod]
      · rw [if_pos hmod]
    unfold SseMove.Exact
    rw [if_pos hmod]
    cases mv with
    | movups => exact hcopied (Or.inl rfl)
    | movaps => exact hcopied (Or.inr rfl)
    | movlps => exact absurd hmod (hmem rfl)
    | movhps => exact absurd hmod (hmem rfl)
  · have hstored := sse_stored hh mv hsep hmod
    have hsame := hsame hmod
    have hmod' : u.modrm.mod ≠ 3 := hsame.mod ▸ hmod
    have hloaded := sse_loaded hh ld hmod' fun hld => by
      rw [show u.rmAddress = s.rmAddress from hsame.rmAddress hmod hstored.gen rfl]
      exact halign hmod (Or.inr hld)
    unfold SseMove.Exact
    rw [if_neg hmod]
    cases mv with
    | movups => exact hstored.whole_iff (Or.inl rfl) hloaded hpart hsame hmod (hram hmod)
    | movaps => exact hstored.whole_iff (Or.inr rfl) hloaded hpart hsame hmod (hram hmod)
    | movlps =>
      have hmoved := hstored.half_moved (Or.inl rfl) hloaded hpart hsame hmod (hram hmod)
      exact iff_of_true hmoved trivial
    | movhps =>
      have hmoved := hstored.half_moved (Or.inr rfl) hloaded hpart hsame hmod (hram hmod)
      exact iff_of_true hmoved trivial

end

/-! ## Two moves of `xmm0` -/

theorem Cell.Guarded.marked {c c' : Cell} (h : c.Guarded c') (hvalid : c.attr.has permValid = true)
    (hdata : c'.data = c.data) : c.Marked c' := by
  have hparts : ∀ a a' : U8, a' &&& permRwx = a &&& permRwx →
      a' &&& permValid = a &&& permValid → a' &&& permAll = a &&& permAll := by
    intro a a' hrwx hbit
    unfold permAll
    rw [BitVec.and_or_distrib_left, BitVec.and_or_distrib_left, hrwx, hbit]
  have hbit : ∀ a : U8, a.has permValid = true → a &&& permValid = permValid := by decide
  exact ⟨hparts _ _ h.perm ((hbit _ (h.valid hvalid)).trans (hbit _ hvalid).symm), hdata⟩

/-- A store that does not write the bytes of the next instruction leaves the operand they name. -/
theorem SseStored.again {mv : SseMove} {s p : St} {eip : U32} (h : SseStored mv s p)
    (hcells : ∀ n ≤ 2, ∀ i < 4,
      let a := s.cpu.linear .cs ((s.again s eip).cpu.advance n) + BitVec.ofNat 32 i
      (s.mem.flat a).attr.has permValid = true ∧ mv.written s a = none)
    (hsame : SameOperand s s (s.again s eip)) : SameOperand s p (s.again p eip) := by
  refine (SameOperand.again (others_seg h.others) (fun n hn i hi => ?_) hsame).1
  obtain ⟨hvalid, hnone⟩ := hcells n hn i hi
  refine (h.mem.guarded.cells _).marked hvalid ?_
  rw [h.mem.data, hnone]
  rfl

/-- SSE is enabled, and byte `k` of `xmm0` is `k + 1`. The page holds `modrm` and an offset twice,
first for the store, and then for the load. -/
def sseState (modrm : U8) : St where
  cpu := { rmCpu with
    crx := fun i => if i = 0 then 2 else 0x200
    xmm := fun r k => if r = 0 then BitVec.ofNat 8 (k + 1) else 0 }
  mem := fullMem fun a => if a = 0 ∨ a = 4 then modrm else if a = 1 ∨ a = 5 then 8 else 0

theorem sseState_code : ∀ n ≤ 2, ∀ i < 4, ∀ k < 8, (sseState 0x46).cpu.linear .cs
    (((sseState 0x46).again (sseState 0x46) 4).cpu.advance n) + BitVec.ofNat 32 i ≠
      0x5018 + BitVec.ofNat 32 k := by
  decide +kernel

/-- The store leaves the bytes of the load. -/
theorem sseState_same {mv : SseMove} (hmv : mv = .movups ∨ mv = .movhps) {p : St}
    (h : SseStored mv (sseState 0x46) p) :
    SameOperand (sseState 0x46) p ((sseState 0x46).again p 4) := by
  refine h.again (fun n hn i hi => ⟨?_, ?_⟩) ⟨rfl, rfl, .refl _, rfl, rfl, rfl, rfl, rfl,
    by decide +kernel, by decide +kernel, fun _ => by decide +kernel, fun _ => by decide +kernel⟩
  · have hhas : U8.has (permRwx ||| permValid) permValid = true := by decide
    exact hhas
  · have hrm : (sseState 0x46).rmLinear = 0x5018 ∧ (sseState 0x46).regLinear = 0x5018 := by
      decide +kernel
    have hapart := sseState_code n hn i hi
    rcases hmv with rfl | rfl
    · show bytesAt 2 _ _ _ = none
      rw [hrm.2]
      exact bytesAt_apart fun k hk => hapart k (by omega)
    · unfold SseMove.written
      rw [hrm.1]
      exact bytesAt_apart hapart

/-- `movhps [esi+8],xmm0` and `movhps xmm0,[esi+8]` -/
theorem sse_moves_iff_movhps :
    let h := defaultHost fun _ _ _ => 0
    let s := sseState 0x46
    let p := ((handlerAt x86emuOptab2 SseMove.movhps.store SseMove.movhps.store).run h s).2
    let u := s.again p 4
    SseMove.movhps.Exact s p u
      ((handlerAt x86emuOptab2 SseMove.movhps.load SseMove.movhps.load).run h u).2 := by
  intro h s p u
  have hh : h.Blind fun _ _ _ => 0 := (defaultHost_default _).blind
  have hmod : s.modrm.mod ≠ 3 := by decide +kernel
  have hsep : s.mem.Sep := fullMem_sep _
  have hstored : SseStored .movhps s p := sse_stored hh .movhps hsep hmod
  have hsame : SameOperand s p u := sseState_same (Or.inr rfl) hstored
  have haligned : s.modrm.mod ≠ 3 → SseMove.movhps = .movaps ∨ SseMove.movhps = .movaps →
      s.rmAddress &&& 0xf = 0 := by simp
  exact (sse_moves_iff hh ⟨rfl, rfl⟩ (fun _ => hmod) hsep (fun _ => fullMem_ram _ _ _) haligned
    fun _ => hsame).mpr trivial

/-- `movups [esi+8],xmm0` does not store `xmm0`, and `movups xmm1,xmm0` does not copy it. -/
theorem sse_moves_fail :
    let h := defaultHost fun _ _ _ => 0
    let s := sseState 0x46
    let p := ((handlerAt x86emuOptab2 SseMove.movups.store SseMove.movups.store).run h s).2
    let u := s.again p 4
    let s' := sseState 0xc1
    ((s.cpu.crx 0).getLsbD 1 = true ∧ (s.cpu.crx 0).getLsbD 2 = false ∧
      (s.cpu.crx 4).getLsbD 9 = true) ∧ s.mem.Ram 16 s.rmLinear ∧ SameOperand s p u ∧
      s.modrm.mod ≠ 3 ∧ s'.modrm.mod = 3 ∧
      ¬SseMove.movups.Exact s p u
        ((handlerAt x86emuOptab2 SseMove.movups.load SseMove.movups.load).run h u).2 ∧
      ¬SseMove.movups.Exact s'
        ((handlerAt x86emuOptab2 SseMove.movups.store SseMove.movups.store).run h s').2 s' s' := by
  intro h s p u s'
  have hh : h.Blind fun _ _ _ => 0 := (defaultHost_default _).blind
  have hmod : s.modrm.mod ≠ 3 := by decide +kernel
  have hmod' : s'.modrm.mod = 3 := by decide +kernel
  have hsep : s.mem.Sep := fullMem_sep _
  have hstored : SseStored .movups s p := sse_stored hh .movups hsep hmod
  have hsame : SameOperand s p u := sseState_same (Or.inl rfl) hstored
  refine ⟨by decide, fullMem_ram _ _ _, hsame, hmod, hmod', fun hexact => ?_, fun hexact => ?_⟩
  · unfold SseMove.Exact at hexact
    rw [if_neg hmod] at hexact
    have hbyte := hexact.bytes 0 (by decide)
    have hwritten : SseMove.movups.written s (s.rmLinear + BitVec.ofNat 32 0) = some 0 := by
      decide +kernel
    rw [hstored.mem.data, hwritten] at hbyte
    have hkept : (s.mem.flat (s.rmLinear + BitVec.ofNat 32 0)).kept 0 = 0 :=
      if_pos ((fullMem_ram _ 16 s.rmLinear).2 0 (by decide))
    have hxmm : s.cpu.xmm s.modrm.regh (Fin.ofNat 16 (SseMove.movups.first + 0)) = 1 := by
      decide +kernel
    exact absurd (hkept.symm.trans (hbyte.trans hxmm)) (by decide)
  · unfold SseMove.Exact at hexact
    rw [if_pos hmod'] at hexact
    have heq := congrFun ((sse_copied hh (Or.inl rfl) hmod').mp hexact) 0
    have hxmm : s'.cpu.xmm s'.modrm.regh 0 = 1 ∧ s'.cpu.xmm s'.modrm.regl 0 = 0 := by
      decide +kernel
    rw [hxmm.1, hxmm.2] at heq
    exact absurd heq (by decide)

end X86Emu
