import Mathlib.Data.Fin.VecNotation
import X86Emu.Decode.Rm
import X86Emu.Ops.Table

/-!
# Packed interleave and logic

`UNPCKLPS`, `UNPCKHPS`, `ANDPS`, `ANDNPS`, `ORPS` and `XORPS` against their definitions by lanes.
The handlers read both operands and write one register; `unpcklps` and `unpckhps` interleave bytes
instead of dwords and only write the lowest dword, and `andnps` complements the source.
-/

namespace X86Emu

open Lib

/-! ## The definitions by lanes -/

inductive PackedOp
  | unpcklps | unpckhps | andps | andnps | orps | xorps
  deriving DecidableEq, Repr

namespace PackedOp

/-- The second opcode byte. -/
def op2 : PackedOp → U8
  | unpcklps => 0x14
  | unpckhps => 0x15
  | andps => 0x54
  | andnps => 0x55
  | orps => 0x56
  | xorps => 0x57

end PackedOp

/-- Dword `k` of 16 bytes, and the 16 bytes of four dwords. -/
def dword (x : Fin 16 → U8) (k : Fin 4) : Fin 4 → U8 := fun j => x (Fin.ofNat 16 (4 * k + j))

def ofDwords (x : Fin 4 → Fin 4 → U8) : Fin 16 → U8 :=
  fun i => x (Fin.ofNat 4 (i / 4)) (Fin.ofNat 4 (i % 4))

/-- The result of the instruction for the destination `d` and the source `s`. -/
def PackedOp.result (op : PackedOp) (d s : Fin 16 → U8) : Fin 16 → U8 :=
  match op with
  | unpcklps => ofDwords ![dword d 0, dword s 0, dword d 1, dword s 1]
  | unpckhps => ofDwords ![dword d 2, dword s 2, dword d 3, dword s 3]
  | andps => fun i => d i &&& s i
  | andnps => fun i => ~~~d i &&& s i
  | orps => fun i => d i ||| s i
  | xorps => fun i => d i ^^^ s i

/-- The operands on which the handler computes the result. -/
def PackedOp.Holds (op : PackedOp) (d s : Fin 16 → U8) : Prop :=
  match op with
  | unpcklps => (s 0 = d 1 ∧ d 1 = d 2 ∧ s 1 = d 3) ∧
      dword d 1 = dword s 0 ∧ dword d 2 = dword d 1 ∧ dword d 3 = dword s 1
  | unpckhps => (d 2 = d 8 ∧ s 2 = d 9 ∧ d 3 = d 10 ∧ s 3 = d 11) ∧
      dword d 1 = dword s 2 ∧ dword d 2 = dword d 3 ∧ dword d 3 = dword s 3
  | andnps => d = s
  | andps | orps | xorps => True

/-- What the handler writes to the destination. -/
def PackedOp.computed (op : PackedOp) (d s : Fin 16 → U8) : Fin 16 → U8 :=
  match op with
  | unpcklps => Op2.unpack 0 d s
  | unpckhps => Op2.unpack 2 d s
  | andps | andnps | orps | xorps => fun i => Op2.sseLogical op.op2 (d i) (s i)

theorem andNot_eq_iff (x y : U8) : x &&& ~~~y = ~~~x &&& y ↔ x = y := by
  constructor
  · intro heq
    apply BitVec.eq_of_getLsbD_eq
    intro i hi
    have hbit := congrArg (·.getLsbD i) heq
    simp only [BitVec.getLsbD_and, BitVec.getLsbD_not, decide_eq_true hi, Bool.true_and] at hbit
    revert hbit
    cases x.getLsbD i <;> cases y.getLsbD i <;> simp
  · rintro rfl
    exact BitVec.and_comm _ _

theorem dword_ofDwords (x : Fin 4 → Fin 4 → U8) (k : Fin 4) : dword (ofDwords x) k = x k := by
  have hindex : ∀ k j : Fin 4, Fin.ofNat 4 ((Fin.ofNat 16 (4 * k + j) : Fin 16) / 4 : Nat) = k ∧
      Fin.ofNat 4 ((Fin.ofNat 16 (4 * k + j) : Fin 16) % 4 : Nat) = j := by
    decide
  funext j
  unfold dword ofDwords
  rw [(hindex k j).1, (hindex k j).2]

theorem ofDwords_dword (x : Fin 16 → U8) : ofDwords (dword x) = x := by
  have hindex : ∀ i : Fin 16, Fin.ofNat 16 (4 * (Fin.ofNat 4 (i / 4) : Fin 4) +
      (Fin.ofNat 4 (i % 4) : Fin 4)) = i := by
    decide
  funext i
  exact congrArg x (hindex i)

theorem forall_fin4 {P : Fin 4 → Prop} (h0 : P 0) (h1 : P 1) (h2 : P 2) (h3 : P 3) (k : Fin 4) :
    P k :=
  match k with
  | 0 => h0
  | 1 => h1
  | 2 => h2
  | 3 => h3

/-- The higher dwords are not written. -/
theorem dword_unpack (off : Nat) (d s : Fin 16 → U8) :
    ∀ k, k ≠ 0 → dword (Op2.unpack off d s) k = dword d k := by
  apply forall_fin4
  · exact fun hk => absurd rfl hk
  all_goals exact fun _ => funext (forall_fin4 rfl rfl rfl rfl)

theorem unpack_eq_iff (off : Nat) (d s : Fin 16 → U8) (x : Fin 4 → Fin 4 → U8) :
    Op2.unpack off d s = ofDwords x ↔
      (d (Fin.ofNat 16 off) = x 0 0 ∧ s (Fin.ofNat 16 off) = x 0 1 ∧
        d (Fin.ofNat 16 (off + 1)) = x 0 2 ∧ s (Fin.ofNat 16 (off + 1)) = x 0 3) ∧
      dword d 1 = x 1 ∧ dword d 2 = x 2 ∧ dword d 3 = x 3 := by
  have hhigh := dword_unpack off d s
  constructor
  · intro heq
    have hdword : ∀ k, dword (Op2.unpack off d s) k = x k := by
      intro k
      rw [heq, dword_ofDwords]
    refine ⟨⟨congrFun (hdword 0) 0, congrFun (hdword 0) 1, congrFun (hdword 0) 2,
      congrFun (hdword 0) 3⟩, ?_, ?_, ?_⟩
    · rw [← hdword 1, hhigh 1 (by decide)]
    · rw [← hdword 2, hhigh 2 (by decide)]
    · rw [← hdword 3, hhigh 3 (by decide)]
  · rintro ⟨⟨h0, h1, h2, h3⟩, hd1, hd2, hd3⟩
    rw [← ofDwords_dword (Op2.unpack off d s)]
    congr 1
    funext k
    induction k using forall_fin4 with
    | h0 => exact funext (forall_fin4 h0 h1 h2 h3)
    | h1 => exact (hhigh 1 (by decide)).trans hd1
    | h2 => exact (hhigh 2 (by decide)).trans hd2
    | h3 => exact (hhigh 3 (by decide)).trans hd3

theorem computed_eq_result_iff (op : PackedOp) (d s : Fin 16 → U8) :
    op.computed d s = op.result d s ↔ op.Holds d s := by
  cases op with
  | unpcklps =>
    refine (unpack_eq_iff 0 d s _).trans (and_congr ?_ ?_)
    · exact and_iff_right rfl
    · constructor
      · rintro ⟨h1, h2, h3⟩
        exact ⟨h1, h2, h3⟩
      · rintro ⟨h1, h2, h3⟩
        exact ⟨h1, h2, h3⟩
  | unpckhps => exact unpack_eq_iff 2 d s _
  | andps => exact iff_of_true rfl trivial
  | andnps =>
    rw [funext_iff]
    exact (forall_congr' fun i => andNot_eq_iff (d i) (s i)).trans funext_iff.symm
  | orps => exact iff_of_true rfl trivial
  | xorps => exact iff_of_true rfl trivial

/-! ## The operands -/

/-- The byte `fetch_data_byte` returns. -/
def St.dataByte (s : St) (seg : SegReg) (ofs : U32) : U8 := (s.dataVal .b8 seg ofs).setWidth 8

/-- The 16 bytes at an address, in the segment of data. -/
def St.dataQlong (s : St) (seg : SegReg) (ofs : U32) : Fin 16 → U8 :=
  fun i => s.dataByte seg (ofs + BitVec.ofNat 32 i)

/-- The register file with an XMM register replaced. -/
def Cpu.setXmm (c : Cpu) (r : BitVec 3) (v : Fin 16 → U8) : Cpu :=
  { c with xmm := Function.update c.xmm r v }

theorem setXmm_xmm (c : Cpu) (r : BitVec 3) (v : Fin 16 → U8) :
    (c.setXmm r v).xmm = Function.update c.xmm r v := rfl

/-- The second operand: a register or 16 bytes of memory. -/
def St.sseSrc (s : St) : Fin 16 → U8 :=
  if s.modrm.mod = 3 then s.cpu.xmm s.modrm.regl else s.dataQlong s.rmSeg s.rmAddress

theorem Reads.dataQlong {s t : St} (h : Reads s t) (seg : SegReg) (ofs : U32) :
    t.dataQlong seg ofs = s.dataQlong seg ofs := by
  funext i
  exact congrArg (BitVec.setWidth 8) (h.dataVal .b8 seg _)

theorem Reads.xmm {s t : St} (h : Reads s t) : t.cpu.xmm = s.cpu.xmm := by
  obtain ⟨eip, segDsSs, halted, hcpu⟩ := h.cpu
  rw [hcpu]

section

variable {inp : PortInput} {h : Host} (hh : h.Blind inp)

include hh

theorem seen_fetchBytes (n : Nat) (ofs : U32) (a : Nat) (s : St) :
    ∃ t, Reads s t ∧ t.cpu = s.cpu ∧ seen h (fetchBytes n ofs a) s =
      ((List.range' a n).map fun i => s.dataByte s.cpu.dataSeg (ofs + BitVec.ofNat 32 i),
        t.view) := by
  induction n generalizing a s with
  | zero => exact ⟨s, .refl, rfl, rfl⟩
  | succ n ih =>
    have hload := Reads.refl.loaded (s := s) .b8 s.cpu.dataSeg (ofs + BitVec.ofNat 32 a)
    obtain ⟨t, hreads, hcpu, hseen⟩ :=
      ih (a + 1) (s.loaded .b8 s.cpu.dataSeg (ofs + BitVec.ofNat 32 a))
    rw [loaded_cpu] at hcpu hseen
    refine ⟨t, hload.trans hreads, hcpu, ?_⟩
    have hbyte : seen h (fetchDataByte (ofs + BitVec.ofNat 32 a)) s =
        (s.dataByte s.cpu.dataSeg (ofs + BitVec.ofNat 32 a),
          (s.loaded .b8 s.cpu.dataSeg (ofs + BitVec.ofNat 32 a)).view) :=
      seen_fetchDataSize hh .byte _ s
    unfold fetchBytes
    rw [seen_step hh hbyte, seen_step hh hseen, seen_pure,
      List.range'_succ, List.map_cons]
    refine congrArg (fun l => (_ :: l, t.view)) (List.map_congr_left fun i _ => ?_)
    exact congrArg (BitVec.setWidth 8) (hload.dataVal .b8 _ _)

theorem seen_fetchDataQlong (ofs : U32) (s : St) :
    ∃ t, Reads s t ∧ t.cpu = s.cpu ∧
      seen h (fetchDataQlong ofs) s = (s.dataQlong s.cpu.dataSeg ofs, t.view) := by
  obtain ⟨t, hreads, hcpu, hseen⟩ := seen_fetchBytes hh 16 ofs 0 s
  refine ⟨t, hreads, hcpu, ?_⟩
  unfold fetchDataQlong
  rw [seen_step hh hseen, seen_pure]
  refine congrArg (·, t.view) (funext fun i => ?_)
  rw [List.getD_eq_getElem?_getD, List.getElem?_map, List.getElem?_range' i.isLt, Option.map_some,
    Option.getD_some, Nat.zero_add, Nat.one_mul]
  rfl

/-- The SSE check raises `#UD` or nothing, and the handlers go on. -/
theorem seen_sseEnabledCheck (s : St) :
    ∃ intr, seen h Op2.sseEnabledCheck s = ((), { s with intr := intr }.view) := by
  have hsecond : ∀ t : St, ∃ intr, seen h (do
      let cpu ← getCpu
      if !(cpu.crx 4).getLsbD 9 then intrRaiseUd) t = ((), { t with intr := intr }.view) := by
    intro t
    rw [seen_step hh (seen_getCpu t), seen_ite]
    split
    · exact ⟨_, seen_intrRaise _ _ _ t⟩
    · exact ⟨t.intr, rfl⟩
  unfold Op2.sseEnabledCheck
  rw [seen_step hh (seen_getCpu s)]
  dsimp only
  rw [seen_ite]
  split
  · obtain ⟨intr, hlast⟩ := hsecond (s.raised 0x06 (intrTypeFault ||| intrModeRestart) 0)
    exact ⟨intr, (seen_step hh (seen_intrRaise _ _ _ s)).trans hlast⟩
  · exact hsecond s

theorem seen_getXmm (r : BitVec 3) (s : St) : seen h (Op2.getXmm r) s = (s.cpu.xmm r, s.view) :=
  seen_step hh (seen_getCpu s)

theorem seen_decodeRmSseRegister (r : BitVec 3) (s : St) :
    seen h (decodeRmSseRegister r) s = (r, s.view) :=
  seen_step hh (seen_opDecode _ s)

/-- The operands of the packed operations. -/
theorem seen_fetchSseOperand (s : St) :
    ∃ t, Reads s t ∧ seen h (Op2.fetchSseOperand s.modrm) (s.fetched .b8) =
      ((s.modrm.regh, s.sseSrc), t.view) := by
  have hfetch : Reads s (s.fetched .b8) := Reads.refl.fetched .b8
  unfold Op2.fetchSseOperand St.sseSrc
  rw [seen_step hh (seen_decodeRmSseRegister hh _ _), seen_step hh (seen_opDecode _ _), seen_ite]
  by_cases hmod : s.modrm.mod = 3
  · refine ⟨s.fetched .b8, hfetch, ?_⟩
    rw [if_pos hmod, if_pos hmod, seen_step hh (seen_decodeRmSseRegister hh _ _),
      seen_step hh (seen_getXmm hh _ _), seen_pure, hfetch.xmm]
  · obtain ⟨t, hreads, -, hseen⟩ := seen_fetchDataQlong hh s.rmAddress s.rmFetched
    refine ⟨t, (rmFetched_reads s).trans hreads, ?_⟩
    rw [if_neg hmod, if_neg hmod, seen_step hh (seen_rmAddress hh hmod), seen_step hh hseen,
      seen_pure, rmFetched_dataSeg, (rmFetched_reads s).dataQlong]

/-! ## The handlers -/

/-- The handler writes what it computes from the operands, and the rest is as after reading. -/
theorem seen_packed (op : PackedOp) (s : St) :
    ∃ intr t, Reads { s with intr := intr } t ∧ seen h (handlerAt x86emuOptab2 op.op2 op.op2) s =
      ((), (t.put (·.setXmm s.modrm.regh
        (op.computed (s.cpu.xmm s.modrm.regh) s.sseSrc))).view) := by
  obtain ⟨intr, hcheck⟩ := seen_sseEnabledCheck hh s
  obtain ⟨t, hreads, hoperand⟩ := seen_fetchSseOperand hh { s with intr := intr }
  have hdst : t.cpu.xmm s.modrm.regh = s.cpu.xmm s.modrm.regh := by rw [hreads.xmm]
  have hpack : ∀ op2 text, Op2.ssePackText op2 = some text →
      seen h (Op2.ssePackOps op2) s = ((), (t.put (·.setXmm s.modrm.regh
        (Op2.unpack (if op2 = 0x14 then 0 else 2) (s.cpu.xmm s.modrm.regh) s.sseSrc))).view) := by
    intro op2 text htext
    unfold Op2.ssePackOps Op2.sseText
    rw [htext, seen_step hh (seen_opDecode text s), seen_step hh hcheck,
      seen_step hh (seen_modrm hh _), seen_step hh hoperand, seen_step hh (seen_getXmm hh _ _),
      ← hdst]
    rfl
  have hlogical : ∀ op2 text, Op2.sseLogicalText op2 = some text →
      seen h (Op2.sseLogicalOps op2) s = ((), (t.put (·.setXmm s.modrm.regh
        fun i => Op2.sseLogical op2 (s.cpu.xmm s.modrm.regh i) (s.sseSrc i))).view) := by
    intro op2 text htext
    unfold Op2.sseLogicalOps Op2.sseText
    rw [htext, seen_step hh (seen_opDecode text s), seen_step hh hcheck,
      seen_step hh (seen_modrm hh _), seen_step hh hoperand, seen_step hh (seen_getXmm hh _ _),
      ← hdst]
    rfl
  refine ⟨intr, t, hreads, ?_⟩
  have hhandler : (handlerAt x86emuOptab2 0x14 = Op2.ssePackOps ∧
      handlerAt x86emuOptab2 0x15 = Op2.ssePackOps) ∧
      handlerAt x86emuOptab2 0x54 = Op2.sseLogicalOps ∧
      handlerAt x86emuOptab2 0x55 = Op2.sseLogicalOps ∧
      handlerAt x86emuOptab2 0x56 = Op2.sseLogicalOps ∧
      handlerAt x86emuOptab2 0x57 = Op2.sseLogicalOps :=
    ⟨⟨rfl, rfl⟩, rfl, rfl, rfl, rfl⟩
  obtain ⟨⟨h14, h15⟩, h54, h55, h56, h57⟩ := hhandler
  cases op with
  | unpcklps => exact h14 ▸ hpack 0x14 "unpcklps " rfl
  | unpckhps => exact h15 ▸ hpack 0x15 "unpckhps " rfl
  | andps => exact h54 ▸ hlogical 0x54 "andps " rfl
  | andnps => exact h55 ▸ hlogical 0x55 "andnps " rfl
  | orps => exact h56 ▸ hlogical 0x56 "orps " rfl
  | xorps => exact h57 ▸ hlogical 0x57 "xorps " rfl

omit hh

/-- The destination gets the result of the instruction. All else that differs in the registers is
`EIP` and two bits of the mode, and no byte of memory differs. -/
structure PackedOp.Exact (op : PackedOp) (s t : St) : Prop where
  xmm : t.cpu.xmm = Function.update s.cpu.xmm s.modrm.regh
    (op.result (s.cpu.xmm s.modrm.regh) s.sseSrc)
  rest : ∃ eip segDsSs halted, t.cpu = { s.cpu with
    eip := eip, xmm := t.cpu.xmm, mode := { s.cpu.mode with segDsSs := segDsSs, halted := halted } }
  mem : ∀ a, (t.mem.flat a).data = (s.mem.flat a).data

/-- What the handler leaves of the state. -/
theorem packed_frame {inp : PortInput} {h : Host} (hh : h.Blind inp) (op : PackedOp) (s : St) :
    let t := ((handlerAt x86emuOptab2 op.op2 op.op2).run h s).2
    t.cpu.xmm = Function.update s.cpu.xmm s.modrm.regh
        (op.computed (s.cpu.xmm s.modrm.regh) s.sseSrc) ∧
      (∃ eip segDsSs halted, t.cpu = { s.cpu with
        eip := eip, xmm := t.cpu.xmm,
        mode := { s.cpu.mode with segDsSs := segDsSs, halted := halted } }) ∧
      ∀ a, (t.mem.flat a).data = (s.mem.flat a).data := by
  intro u
  obtain ⟨intr, t, hreads, hseen⟩ := seen_packed hh op s
  obtain ⟨eip, segDsSs, halted, hcpu⟩ := hreads.cpu
  have hview : u.view = _ := congrArg Prod.snd hseen
  have hucpu : u.cpu = t.cpu.setXmm s.modrm.regh (op.computed (s.cpu.xmm s.modrm.regh) s.sseSrc) :=
    congrArg St.cpu hview
  have humem : u.mem = t.mem := (congrArg St.mem hview : u.view.mem = _)
  refine ⟨?_, ⟨eip, segDsSs, halted, ?_⟩, ?_⟩
  · rw [hucpu, setXmm_xmm, hreads.xmm]
  · rw [hucpu, hcpu]
    rfl
  · intro a
    rw [humem]
    exact (hreads.marked.cells a).data

theorem PackedOp.Exact.holds {inp : PortInput} {h : Host} (hh : h.Blind inp) (op : PackedOp)
    {s : St} (hexact : op.Exact s ((handlerAt x86emuOptab2 op.op2 op.op2).run h s).2) :
    op.Holds (s.cpu.xmm s.modrm.regh) s.sseSrc := by
  have hdst := congrFun hexact.xmm s.modrm.regh
  rw [(packed_frame hh op s).1, Function.update_self, Function.update_self] at hdst
  exact (computed_eq_result_iff op _ _).mp hdst

/-- For every destination and every source, the handler computes the instruction exactly when the
operands are as `Holds` says: always for three of them. -/
theorem packed_exact_iff {inp : PortInput} {h : Host} (hh : h.Blind inp) (op : PackedOp) (s : St) :
    op.Exact s ((handlerAt x86emuOptab2 op.op2 op.op2).run h s).2 ↔
      op.Holds (s.cpu.xmm s.modrm.regh) s.sseSrc := by
  refine ⟨fun hexact => hexact.holds hh, fun hholds => ?_⟩
  obtain ⟨hxmm, hrest, hmem⟩ := packed_frame hh op s
  rw [(computed_eq_result_iff op _ _).mpr hholds] at hxmm
  exact ⟨hxmm, hrest, hmem⟩

end

/-- `xmm0` with all bytes 1, the other registers with all bytes 0, and the bytes of `xmm0,xmm1` as
operands of the instruction. -/
def onesState : St where
  cpu := { resetCpu with xmm := fun r _ => if r = 0 then 1 else 0 }
  mem := fullMem fun _ => 0xc1

theorem onesState_operands :
    onesState.modrm.regh = 0 ∧ onesState.sseSrc = fun _ => 0 := by
  have hmodrm : onesState.modrm = ⟨3, 0, 1⟩ := by decide +kernel
  unfold St.sseSrc
  rw [hmodrm]
  exact ⟨rfl, rfl⟩

/-- `orps xmm0,xmm1` -/
theorem packed_exact_iff_orps :
    PackedOp.orps.Exact onesState
      ((handlerAt x86emuOptab2 0x56 0x56).run (defaultHost fun _ _ _ => 0) onesState).2 :=
  (packed_exact_iff (defaultHost_default fun _ _ _ => 0).blind .orps onesState).mpr trivial

/-- `unpcklps xmm0,xmm1` and `andnps xmm0,xmm1` go wrong. -/
theorem packed_exact_fails :
    ¬PackedOp.unpcklps.Exact onesState
        ((handlerAt x86emuOptab2 0x14 0x14).run (defaultHost fun _ _ _ => 0) onesState).2 ∧
      ¬PackedOp.andnps.Exact onesState
        ((handlerAt x86emuOptab2 0x55 0x55).run (defaultHost fun _ _ _ => 0) onesState).2 := by
  obtain ⟨hdst, hsrc⟩ := onesState_operands
  have hblind := (defaultHost_default fun _ _ _ => 0).blind
  constructor
  · intro hexact
    have hholds := hexact.holds hblind .unpcklps
    rw [hdst, hsrc] at hholds
    exact absurd hholds.1.1 (by decide)
  · intro hexact
    have hholds := hexact.holds hblind .andnps
    rw [hdst, hsrc] at hholds
    exact absurd (congrFun hholds 0) (by decide)

end X86Emu
