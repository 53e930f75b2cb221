import X86Emu.Alu.Bits
import X86Emu.Decode.Effective
import X86Emu.Memory.Bytes
import X86Emu.Ops.Results
import X86Emu.Ops.Table

/-!
# Bit strings

`BT`, `BTS`, `BTR` and `BTC` on a bit of a register or of memory. In memory the bits from an address
on are a bit string without end in both directions: bit `n` is bit `n mod 8` of the byte
`floor (n / 8)` further on.
-/

namespace X86Emu

open Lib

/-! ## Bits of memory -/

/-- The byte of bit `n` of the bit string from `a` on. -/
def bitByte (a : U32) (n : Int) : U32 := a + BitVec.ofInt 32 (n / 8)

/-- The place of bit `n` in its byte. -/
def bitPlace (n : Int) : Nat := (n % 8).toNat

/-- Bit `k` of the byte at an address. -/
def Mem.bitOf (mem : Mem) (a : U32) (k : Nat) : Bool := (mem.flat a).data.getLsbD k

/-- One bit of memory becomes `b`, and no other changes. -/
def Mem.BitSet (mem : Mem) (a : U32) (k : Nat) (b : Bool) (mem' : Mem) : Prop :=
  ∀ a' k', k' < 8 → mem'.bitOf a' k' = if a' = a ∧ k' = k then b else mem.bitOf a' k'

/-! ## Bytes of an operand -/

/-- How many bytes an operand has. -/
def OpSize.bytes (z : OpSize) : Nat := z.bits / 8

theorem accessWidth_width (z : OpSize) :
    accessWidth .r z.width.bits = z.bytes ∧ accessWidth .w z.width.bits = z.bytes := by
  cases z <;> exact ⟨rfl, rfl⟩

theorem width_ne_noperm (z : OpSize) : z.width.bits ≠ .b8noperm := by
  cases z <;> decide

theorem OpSize.bits_eq (z : OpSize) :
    z.bits = 8 * z.bytes ∧ (z.bytes = 1 ∨ z.bytes = 2 ∨ z.bytes = 4) := by
  cases z <;> decide

namespace Op2

open Op

/-! ## One bit -/

namespace BitOp

/-- What the operation makes of the bit. -/
def onBit : BitOp → Bool → Bool
  | bt, b => b
  | bts, _ => true
  | btr, _ => false
  | btc, b => !b

theorem getLsbD_apply (op : BitOp) (val : U32) {b i : Nat} (hb : b < 32) (hi : i < 32) :
    (op.apply val (cShl 1 b)).getLsbD i =
      if i = b then op.onBit (val.getLsbD b) else val.getLsbD i := by
  cases op with
  | bt =>
    show val.getLsbD i = _
    split
    case isTrue h => rw [h]; rfl
    case isFalse => rfl
  | bts =>
    show (val ||| cShl 1 b).getLsbD i = _
    rw [BitVec.getLsbD_or, getLsbD_cShl_one hb]
    by_cases h : i = b <;> simp [h, onBit]
  | btr =>
    show (val &&& ~~~cShl 1 b).getLsbD i = _
    rw [BitVec.getLsbD_and, BitVec.getLsbD_not, getLsbD_cShl_one hb, decide_eq_true hi]
    by_cases h : i = b <;> simp [h, onBit]
  | btc =>
    show (val ^^^ cShl 1 b).getLsbD i = _
    rw [BitVec.getLsbD_xor, getLsbD_cShl_one hb]
    by_cases h : i = b <;> simp [h, onBit]

end BitOp

/-! ## The operation on memory -/

section

variable {inp : PortInput} {h : Host} (hh : h.Blind inp) (z : OpSize) (s : St)

/-- The value read, the flag set from it and the value stored. -/
def St.bitRead (s : St) (z : OpSize) (addr : U32) : U32 :=
  widen ((s.dataVal z.width s.cpu.dataSeg addr).setWidth z.bits)

/-- `CF` after the test. -/
def St.bitTested (s : St) (z : OpSize) (addr mask : U32) : St :=
  (s.loaded z.width s.cpu.dataSeg addr).put
    (·.flagged (condSet (decide (St.bitRead s z addr &&& mask ≠ 0)) .cf))

theorem bitTested_dataSeg (addr mask : U32) :
    (St.bitTested s z addr mask).cpu.dataSeg = s.cpu.dataSeg := by
  show (s.loaded z.width s.cpu.dataSeg addr).cpu.dataSeg = _
  rw [loaded_cpu]

include hh in
theorem seen_bitMem (op : BitOp) (addr mask : U32) :
    seen h (bitMem op z addr mask) s = ((), (if op = .bt then St.bitTested s z addr mask else
      (St.bitTested s z addr mask).stored z.width s.cpu.dataSeg addr
        (((op.apply (St.bitRead s z addr) mask).setWidth z.bits).setWidth 32)).view) := by
  unfold bitMem
  rw [seen_step hh (seen_fetchDataSize hh z addr s), seen_step hh (seen_flags _ _), seen_ite]
  by_cases hop : op = .bt
  · rw [if_neg (not_not.mpr hop), if_pos hop]
    rfl
  · rw [if_pos hop, if_neg hop, seen_storeDataSize hh]
    exact congrArg (fun seg => ((), (St.stored _ z.width seg addr _).view))
      (bitTested_dataSeg z s addr mask)

theorem cpu_mem_of_view {t u : St} (hview : t.view = u.view) : t.cpu = u.cpu ∧ t.mem = u.mem := by
  refine ⟨?_, ?_⟩
  · show t.view.cpu = u.view.cpu
    rw [hview]
  · show t.view.mem = u.view.mem
    rw [hview]

/-- Bit `k` of byte `i` of the value read. -/
theorem getLsbD_bitRead {addr : U32}
    (hread : s.mem.Permits permR z.bytes (s.cpu.linear s.cpu.dataSeg addr)) {i k : Nat}
    (hi : i < z.bytes) (hk : k < 8) :
    (St.bitRead s z addr).getLsbD (8 * i + k) =
      s.mem.bitOf (s.cpu.linear s.cpu.dataSeg addr + BitVec.ofNat 32 i) k := by
  obtain ⟨hbits, hbytes⟩ := z.bits_eq
  rw [← (accessWidth_width z).1] at hread
  unfold St.bitRead St.dataVal
  rw [getLsbD_widen (by omega), BitVec.getLsbD_setWidth, decide_eq_true (by omega), Bool.true_and,
    access_read (width_ne_noperm z) hread, (accessWidth_width z).1,
    getLsbD_leVal hbytes _ _ hi hk]
  rfl

/-- A read leaves all bits. -/
theorem loaded_bitOf (width : MemioWidth) (seg : SegReg) (addr a : U32) (k : Nat) :
    (s.loaded width seg addr).mem.bitOf a k = s.mem.bitOf a k := by
  unfold Mem.bitOf
  rw [loaded_mem, access_data s.mem (by decide)]

/-- A permitted store sets the bits of its bytes and leaves the others. -/
theorem stored_bitOf (addr val : U32) (hsep : s.mem.Sep) (seg : SegReg)
    (hwrite : s.mem.Permits permW z.bytes (s.cpu.linear seg addr)) (a : U32) {k : Nat}
    (hk : k < 8) :
    (∀ i < z.bytes, a = s.cpu.linear seg addr + BitVec.ofNat 32 i →
      (s.stored z.width seg addr val).mem.bitOf a k = val.getLsbD (8 * i + k)) ∧
    ((∀ i < z.bytes, a ≠ s.cpu.linear seg addr + BitVec.ofNat 32 i) →
      (s.stored z.width seg addr val).mem.bitOf a k = s.mem.bitOf a k) := by
  rw [← (accessWidth_width z).2] at hwrite ⊢
  unfold Mem.bitOf
  rw [stored_mem]
  refine ⟨?_, ?_⟩
  · rintro i hi rfl
    rw [access_write hsep (width_ne_noperm z) hwrite val hi, BitVec.getLsbD_extractLsb',
      decide_eq_true hk, Bool.true_and]
  · intro ha
    rw [access_write_frame hsep _ val ha]

include hh in
/-- What a permitted operation on memory does to the flag and to the bits of memory. -/
theorem bitMem_spec (op : BitOp) (addr : U32) {b : Nat} (hb : b < z.bits) (hsep : s.mem.Sep)
    (hread : s.mem.Permits permR z.bytes (s.cpu.linear s.cpu.dataSeg addr))
    (hwrite : op ≠ .bt → s.mem.Permits permW z.bytes (s.cpu.linear s.cpu.dataSeg addr)) :
    let a := s.cpu.linear s.cpu.dataSeg addr + BitVec.ofNat 32 (b / 8)
    let t := ((bitMem op z addr (cShl 1 b)).run h s).2
    t.cpu.eflg.getLsbD Flag.cf.bit = s.mem.bitOf a (b % 8) ∧
      s.mem.BitSet a (b % 8) (op.onBit (s.mem.bitOf a (b % 8))) t.mem := by
  intro a t
  obtain ⟨hbits, hbytes⟩ := z.bits_eq
  have hview : t.view = _ := congrArg Prod.snd (seen_bitMem hh z s op addr (cShl 1 b))
  have hold : (St.bitRead s z addr).getLsbD b = s.mem.bitOf a (b % 8) := by
    have hbit := getLsbD_bitRead z s hread (i := b / 8) (k := b % 8) (by omega) (by omega)
    rw [Nat.div_add_mod] at hbit
    exact hbit
  have htested : (St.bitTested s z addr (cShl 1 b)).cpu.eflg.getLsbD Flag.cf.bit =
      s.mem.bitOf a (b % 8) := by
    rw [← hold, ← and_cShl_one (St.bitRead s z addr) (by omega)]
    exact (getLsbD_condSet _ .cf _ _).trans (if_pos rfl)
  have hkept : ∀ a' k, (St.bitTested s z addr (cShl 1 b)).mem.bitOf a' k = s.mem.bitOf a' k :=
    fun a' k => loaded_bitOf s z.width s.cpu.dataSeg addr a' k
  by_cases hop : op = .bt
  · rw [if_pos hop] at hview
    obtain ⟨hcpu, hmem⟩ := cpu_mem_of_view hview
    rw [hcpu]
    refine ⟨htested, fun a' k' _ => ?_⟩
    rw [hmem, hkept, hop]
    split
    case isTrue h => rw [h.1, h.2]; rfl
    case isFalse => rfl
  · rw [if_neg hop] at hview
    obtain ⟨hcpu, hmem⟩ := cpu_mem_of_view hview
    have hguard : s.mem.Guarded (St.bitTested s z addr (cShl 1 b)).mem := by
      show s.mem.Guarded (s.loaded z.width s.cpu.dataSeg addr).mem
      rw [loaded_mem]
      exact access_guarded hsep (fun hw => by cases hw.1) _ _
    have hlinear : (St.bitTested s z addr (cShl 1 b)).cpu.linear s.cpu.dataSeg addr =
        s.cpu.linear s.cpu.dataSeg addr := by
      show (s.loaded z.width s.cpu.dataSeg addr).cpu.linear s.cpu.dataSeg addr = _
      rw [loaded_cpu]
    rw [hcpu, stored_cpu]
    refine ⟨htested, fun a' k' hk' => ?_⟩
    obtain ⟨hin, hout⟩ := stored_bitOf z (St.bitTested s z addr (cShl 1 b)) addr
      (((op.apply (St.bitRead s z addr) (cShl 1 b)).setWidth z.bits).setWidth 32)
      (hguard.sep hsep) s.cpu.dataSeg
      (by rw [hlinear]; exact (hguard.permits (Or.inr (Or.inl rfl)) _ _).mpr (hwrite hop)) a' hk'
    rw [hlinear] at hin hout
    rw [hmem]
    by_cases hbyte : ∃ i < z.bytes, a' = s.cpu.linear s.cpu.dataSeg addr + BitVec.ofNat 32 i
    · obtain ⟨i, hi, ha'⟩ := hbyte
      have hsame : (a' = a ∧ k' = b % 8) ↔ 8 * i + k' = b := by
        rw [ha', addr_add_inj _ (by omega) (by omega)]
        omega
      rw [hin i hi ha', BitVec.getLsbD_setWidth, decide_eq_true (by omega), Bool.true_and,
        BitVec.getLsbD_setWidth, decide_eq_true (by omega), Bool.true_and,
        BitOp.getLsbD_apply op _ (by omega) (by omega), hold]
      by_cases hb' : 8 * i + k' = b
      · rw [if_pos hb', if_pos (hsame.mpr hb')]
      · rw [if_neg hb', if_neg (fun h => hb' (hsame.mp h)), getLsbD_bitRead z s hread hi hk', ha']
    · have hne : ∀ i < z.bytes, a' ≠ s.cpu.linear s.cpu.dataSeg addr + BitVec.ofNat 32 i :=
        fun i hi ha' => hbyte ⟨i, hi, ha'⟩
      rw [hout hne, hkept, if_neg]
      rintro ⟨ha', -⟩
      exact hne (b / 8) (by omega) ha'

end

/-! ## The operation on a register -/

theorem getReg_setReg {z : OpSize} (hz : z ≠ .byte) (c : Cpu) (r : BitVec 3) (v : BitVec z.bits) :
    (c.setReg z r v).getReg z r = v := by
  cases z with
  | byte => exact absurd rfl hz
  | word =>
    show ((c.set16 (Reg.ofBits r) v).get16 (Reg.ofBits r)) = v
    unfold Cpu.set16 Cpu.get16 Cpu.setGen
    dsimp only
    rw [Function.update_self, setWidth_setLo16]
  | long => exact Function.update_self _ _ _

section

variable {inp : PortInput} {h : Host} (hh : h.Blind inp) {z : OpSize} (s : St)

/-- `CF` after the test of a register. -/
def St.regTested (s : St) (z : OpSize) (r : BitVec 3) (mask : U32) : St :=
  s.put (·.flagged (condSet (decide (widen (s.cpu.getReg z r) &&& mask ≠ 0)) .cf))

theorem getReg_regTested (r : BitVec 3) (mask : U32) :
    (St.regTested s z r mask).cpu.getReg z r = s.cpu.getReg z r := by
  cases z <;> rfl

include hh in
theorem seen_bitReg (op : BitOp) (r : BitVec 3) (mask : U32) :
    seen h (bitReg op z r mask) s = ((), (if op = .bt then St.regTested s z r mask else
      (St.regTested s z r mask).put (·.setReg z r
        ((op.apply (widen (s.cpu.getReg z r)) mask).setWidth z.bits))).view) := by
  unfold bitReg
  rw [seen_step hh (seen_getReg z r s), seen_step hh (seen_flags _ s), seen_ite]
  by_cases hop : op = .bt
  · rw [if_neg (not_not.mpr hop), if_pos hop]
    rfl
  · rw [if_pos hop, if_neg hop, seen_step hh (seen_getReg z r _), seen_setReg]
    exact congrArg (fun v : BitVec z.bits => ((), ((St.regTested s z r mask).put (·.setReg z r
      ((op.apply (widen v) mask).setWidth z.bits))).view)) (getReg_regTested s r mask)

include hh in
/-- What the operation on a register does to the flag and to the bits of the register. -/
theorem bitReg_spec (hz : z ≠ .byte) (op : BitOp) (r : BitVec 3) {b : Nat} (hb : b < 32) :
    let t := ((bitReg op z r (cShl 1 b)).run h s).2
    t.cpu.eflg.getLsbD Flag.cf.bit = (s.cpu.getReg z r).getLsbD b ∧
      (∀ i < z.bits, (t.cpu.getReg z r).getLsbD i =
        if i = b then op.onBit ((s.cpu.getReg z r).getLsbD b) else (s.cpu.getReg z r).getLsbD i) ∧
      t.mem = s.mem := by
  intro t
  obtain ⟨hbits, hbytes⟩ := z.bits_eq
  have hwiden : ∀ i < 32, (widen (s.cpu.getReg z r)).getLsbD i = (s.cpu.getReg z r).getLsbD i := by
    intro i hi
    unfold widen
    rw [BitVec.getLsbD_setWidth, decide_eq_true hi, Bool.true_and]
  have hview : t.view = _ := congrArg Prod.snd (seen_bitReg hh s op r (cShl 1 b))
  have htested : (St.regTested s z r (cShl 1 b)).cpu.eflg.getLsbD Flag.cf.bit =
      (s.cpu.getReg z r).getLsbD b := by
    rw [← hwiden b hb, ← and_cShl_one (widen (s.cpu.getReg z r)) hb]
    exact (getLsbD_condSet _ .cf _ _).trans (if_pos rfl)
  by_cases hop : op = .bt
  · rw [if_pos hop] at hview
    obtain ⟨hcpu, hmem⟩ := cpu_mem_of_view hview
    rw [hcpu, hmem]
    refine ⟨htested, fun i _ => ?_, rfl⟩
    rw [getReg_regTested, hop]
    split
    case isTrue hi => rw [hi]; rfl
    case isFalse => rfl
  · rw [if_neg hop] at hview
    obtain ⟨hcpu, hmem⟩ := cpu_mem_of_view hview
    rw [hcpu, hmem]
    refine ⟨?_, fun i hi => ?_, rfl⟩
    · rw [← htested]
      cases z <;> rfl
    · rw [put_cpu, getReg_setReg hz, BitVec.getLsbD_setWidth, decide_eq_true hi, Bool.true_and,
        BitOp.getLsbD_apply op _ hb (by omega), hwiden b hb, hwiden i (by omega)]

end

/-! ## The forms of the instructions -/

/-- The handlers differ in how far they shift the bit offset for a word operand. -/
def BitOp.wordShift (op : BitOp) : Nat := if op = .bt then 4 else 5

/-- The forms: what is left of the handler once the operands are decoded. -/
inductive BitForm
  | reg (r rh : BitVec 3)
  | regImm (r : BitVec 3) (imm : U8)
  | mem (addr : U32) (rh : BitVec 3)
  | memImm (addr : U32) (imm : U8)

namespace BitForm

def run (op : BitOp) (z : OpSize) : BitForm → Emu Unit
  | reg r rh => do bitReg op z r (bitMask z (widen (← getReg z rh)))
  | regImm r imm => bitReg op z r (bitMask .long (widen imm))
  | mem addr rh => do
    let disp : U32 := (← getReg z rh).signExtend 32
    let shift := if z = .long then 5 else op.wordShift
    bitMem op z (addr + disp.sshiftRight shift) (bitMask z disp)
  | memImm addr imm => bitMem op z addr (bitMask z (widen imm))

/-- The bit offset: a register with sign, or an immediate byte. -/
def offset (c : Cpu) (z : OpSize) : BitForm → Int
  | reg _ rh | mem _ rh => (c.getReg z rh).toInt
  | regImm _ imm | memImm _ imm => imm.toNat

/-- `CF` is the old bit of the register, which becomes what the operation makes of it. -/
structure RegExact (op : BitOp) (z : OpSize) (r : BitVec 3) (b : Nat) (s t : St) : Prop where
  carry : t.cpu.eflg.getLsbD Flag.cf.bit = (s.cpu.getReg z r).getLsbD b
  bits : ∀ i < z.bits, (t.cpu.getReg z r).getLsbD i =
    if i = b then op.onBit ((s.cpu.getReg z r).getLsbD b) else (s.cpu.getReg z r).getLsbD i
  mem : t.mem = s.mem

/-- `CF` is the old bit of memory, which becomes what the operation makes of it. -/
structure MemExact (op : BitOp) (a : U32) (k : Nat) (s t : St) : Prop where
  carry : t.cpu.eflg.getLsbD Flag.cf.bit = s.mem.bitOf a k
  bits : s.mem.BitSet a k (op.onBit (s.mem.bitOf a k)) t.mem

/-- The operation on the bit the offset says: modulo the operand size, or in memory with a
register, in the bit string from the address on. -/
def Exact (op : BitOp) (z : OpSize) (form : BitForm) (s t : St) : Prop :=
  let n := form.offset s.cpu z
  match form with
  | reg r _ | regImm r _ => RegExact op z r (n % z.bits).toNat s t
  | mem addr _ => MemExact op (bitByte (s.cpu.linear s.cpu.dataSeg addr) n) (bitPlace n) s t
  | memImm addr _ =>
    MemExact op (bitByte (s.cpu.linear s.cpu.dataSeg addr) (n % z.bits)) (bitPlace (n % z.bits)) s t

/-- The address of the word or dword the handler works on. -/
def element (op : BitOp) (z : OpSize) (c : Cpu) : BitForm → Option U32
  | reg _ _ | regImm _ _ => none
  | mem addr rh =>
    let disp : U32 := (c.getReg z rh).signExtend 32
    some (addr + disp.sshiftRight (if z = .long then 5 else op.wordShift))
  | memImm addr _ => some addr

/-- Memory may be read, and written by the operations that do. -/
def Allowed (op : BitOp) (z : OpSize) (form : BitForm) (s : St) : Prop :=
  ∀ e, form.element op z s.cpu = some e →
    s.mem.Permits permR z.bytes (s.cpu.linear s.cpu.dataSeg e) ∧
      (op ≠ .bt → s.mem.Permits permW z.bytes (s.cpu.linear s.cpu.dataSeg e))

/-- The operation neither sees nor makes a difference between the two bits. -/
def Blurs (op : BitOp) (used wanted : Bool) : Prop := used = wanted ∧ op.onBit wanted = wanted

/-- A register offset must lie in the first element, as the displacement of the element is not
scaled to its size, and an immediate for a word register below 16; else the bit used must not
differ from the one meant, and be left as it is. -/
def Holds (op : BitOp) (z : OpSize) (form : BitForm) (s : St) : Prop :=
  let n := form.offset s.cpu z
  match form with
  | reg _ _ | memImm _ _ => True
  | regImm r imm =>
    imm.toNat % 32 < z.bits ∨ Blurs op false ((s.cpu.getReg z r).getLsbD (n % z.bits).toNat)
  | mem addr rh =>
    let disp : U32 := (s.cpu.getReg z rh).signExtend 32
    let e := addr + disp.sshiftRight (if z = .long then 5 else op.wordShift)
    0 ≤ n ∧ n < z.bits ∨
      Blurs op
        (s.mem.bitOf (s.cpu.linear s.cpu.dataSeg e + BitVec.ofNat 32 ((n % z.bits).toNat / 8))
          (bitPlace n))
        (s.mem.bitOf (bitByte (s.cpu.linear s.cpu.dataSeg addr) n) (bitPlace n))

/-! ### Another bit than the one meant -/

theorem memExact_iff {op : BitOp} {a a' : U32} {k : Nat} (hk : k < 8) {s t : St}
    (hcarry : t.cpu.eflg.getLsbD Flag.cf.bit = s.mem.bitOf a' k)
    (hbits : s.mem.BitSet a' k (op.onBit (s.mem.bitOf a' k)) t.mem) :
    MemExact op a k s t ↔ a' = a ∨ Blurs op (s.mem.bitOf a' k) (s.mem.bitOf a k) := by
  by_cases ha : a' = a
  · subst ha
    exact ⟨fun _ => Or.inl rfl, fun _ => ⟨hcarry, hbits⟩⟩
  · rw [or_iff_right ha]
    refine ⟨?_, ?_⟩
    · rintro ⟨hcarry', hbits'⟩
      have hat := hbits a k hk
      rw [hbits' a k hk, if_pos ⟨rfl, rfl⟩, if_neg (fun h => ha h.1.symm)] at hat
      exact ⟨hcarry.symm.trans hcarry', hat⟩
    · rintro ⟨hsame, hkeep⟩
      refine ⟨hcarry.trans hsame, fun x j hj => ?_⟩
      rw [hbits x j hj, hsame, hkeep]
      split_ifs with hused hwanted hwanted
      · rfl
      · rw [hused.1, hused.2, hsame]
      · rw [hwanted.1, hwanted.2]
      · rfl

theorem regExact_iff {op : BitOp} {z : OpSize} {r : BitVec 3} {b b' : Nat} (hb : b < z.bits)
    {s t : St} (h : RegExact op z r b' s t) :
    RegExact op z r b s t ↔ b' = b ∨ Blurs op ((s.cpu.getReg z r).getLsbD b')
      ((s.cpu.getReg z r).getLsbD b) := by
  by_cases hbb : b' = b
  · subst hbb
    exact ⟨fun _ => Or.inl rfl, fun _ => h⟩
  · rw [or_iff_right hbb]
    refine ⟨?_, ?_⟩
    · rintro ⟨hcarry, hbits, -⟩
      have hat := h.bits b hb
      rw [hbits b hb, if_pos rfl, if_neg (Ne.symm hbb)] at hat
      exact ⟨h.carry.symm.trans hcarry, hat⟩
    · rintro ⟨hsame, hkeep⟩
      refine ⟨h.carry.trans hsame, fun i hi => ?_, h.mem⟩
      rw [h.bits i hi, hsame, hkeep]
      split_ifs with hused hwanted hwanted
      · rfl
      · rw [hused, hsame]
      · rw [hwanted]
      · rfl

end BitForm

/-! ### The bit of an offset -/

/-- With or without sign, the offset is the same modulo the operand size. -/
theorem toInt_emod {m d : Nat} (x : BitVec m) (hd : d ∣ 2 ^ m) :
    (x.toInt % d).toNat = x.toNat % d := by
  obtain ⟨k, hk⟩ := hd
  have hmod : x.toInt % d = (x.toNat % d : Nat) := by
    rw [BitVec.toInt_eq_toNat_cond, hk]
    push_cast
    split
    case isTrue => rfl
    case isFalse => exact Int.sub_mul_emod_self_left _ _ _
  rw [hmod]
  rfl

theorem bits_dvd {z : OpSize} {m : Nat} (hm : 5 ≤ m) : z.bits ∣ 2 ^ m := by
  have h32 : z.bits ∣ 2 ^ 5 := by cases z <;> decide
  exact h32.trans (pow_dvd_pow 2 hm)

theorem bitMask_eq (z : OpSize) (n : U32) : bitMask z n = cShl 1 (n.toInt % z.bits).toNat := by
  unfold bitMask
  rw [toInt_emod n (bits_dvd (by decide))]

theorem widen_emod {z : OpSize} (v : BitVec z.bits) :
    ((widen v).toInt % z.bits).toNat = (v.toInt % z.bits).toNat := by
  have h5 : 5 ≤ z.bits := by cases z <;> decide
  rw [toInt_emod _ (bits_dvd (by decide)), toInt_emod _ (bits_dvd h5)]
  unfold widen
  rw [BitVec.toNat_setWidth_of_le (by cases z <;> decide)]

theorem emod_lt (z : OpSize) (n : Int) : (n % z.bits).toNat < z.bits := by
  have hpos : (0 : Int) < z.bits := by cases z <;> decide
  have hlt := Int.emod_lt_of_pos n hpos
  have hnonneg := Int.emod_nonneg n (Int.ne_of_gt hpos)
  omega

theorem run_getReg (z : OpSize) (r : BitVec 3) (h : Host) (s : St) :
    (getReg z r).run h s = (s.cpu.getReg z r, s) := by
  cases z <;> rfl

section Forms

open BitForm

variable {inp : PortInput} {h : Host} (hh : h.Blind inp) {z : OpSize} (hz : z ≠ .byte) (op : BitOp)
  {s : St}

include hh

include hz in
theorem reg_exact (r rh : BitVec 3) :
    (BitForm.reg r rh).Exact op z s (((BitForm.reg r rh).run op z).run h s).2 := by
  have hlt := emod_lt z (s.cpu.getReg z rh).toInt
  have hw : z.bits ≤ 32 := by cases z <;> decide
  have hspec := bitReg_spec hh s hz op r (b := ((s.cpu.getReg z rh).toInt % z.bits).toNat)
    (by omega)
  have hrun : ((BitForm.reg r rh).run op z).run h s =
      (bitReg op z r (cShl 1 ((s.cpu.getReg z rh).toInt % z.bits).toNat)).run h s := by
    rw [← widen_emod, ← bitMask_eq]
    show (bitReg op z r (bitMask z (widen ((getReg z rh).run h s).1))).run h
      ((getReg z rh).run h s).2 = _
    rw [run_getReg]
  rw [hrun]
  exact ⟨hspec.1, hspec.2.1, hspec.2.2⟩

include hz in
theorem regImm_exact_iff (r : BitVec 3) (imm : U8) :
    (BitForm.regImm r imm).Exact op z s (((BitForm.regImm r imm).run op z).run h s).2 ↔
      (BitForm.regImm r imm).Holds op z s := by
  have hlt := emod_lt z imm.toNat
  have hw : z.bits = 16 ∨ z.bits = 32 := by
    cases z with
    | byte => exact absurd rfl hz
    | word => exact Or.inl rfl
    | long => exact Or.inr rfl
  have hmask : bitMask .long (widen imm) = cShl 1 (imm.toNat % 32) := by
    unfold bitMask widen
    rw [BitVec.toNat_setWidth_of_le (by decide)]
  obtain ⟨hcarry, hbits, hmem⟩ := bitReg_spec hh s hz op r (b := imm.toNat % 32) (by omega)
  rw [← hmask] at hcarry hbits hmem
  refine (regExact_iff hlt ⟨hcarry, hbits, hmem⟩).trans ?_
  have hcast : ((imm.toNat : Int) % z.bits).toNat = imm.toNat % z.bits := rfl
  show _ ∨ Blurs op _ ((s.cpu.getReg z r).getLsbD ((imm.toNat : Int) % z.bits).toNat) ↔
    imm.toNat % 32 < z.bits ∨ Blurs op false _
  rw [hcast]
  by_cases hin : imm.toNat % 32 < z.bits
  · have heq : imm.toNat % 32 = imm.toNat % z.bits := by
      rcases hw with hw | hw
      · rw [hw] at hin ⊢
        omega
      · rw [hw]
    exact ⟨fun _ => Or.inl hin, fun _ => Or.inl heq⟩
  · rw [or_iff_right hin, or_iff_right (by omega), BitVec.getLsbD_of_ge _ _ (by omega)]
    exact Iff.rfl

theorem memImm_exact (hsep : s.mem.Sep) (addr : U32) (imm : U8)
    (hallow : (BitForm.memImm addr imm).Allowed op z s) :
    (BitForm.memImm addr imm).Exact op z s (((BitForm.memImm addr imm).run op z).run h s).2 := by
  obtain ⟨hread, hwrite⟩ := hallow addr rfl
  have hlt : imm.toNat % z.bits < z.bits := emod_lt z imm.toNat
  have hmask : bitMask z (widen imm) = cShl 1 (imm.toNat % z.bits) := by
    unfold bitMask widen
    rw [BitVec.toNat_setWidth_of_le (by decide)]
  obtain ⟨hcarry, hbits⟩ := bitMem_spec hh z s op addr hlt hsep hread hwrite
  rw [← hmask] at hcarry hbits
  exact ⟨hcarry, hbits⟩

omit hh in
/-- The displacement of the element as a number. -/
theorem sshiftRight_eq_ofInt (x : U32) (n : Nat) :
    x.sshiftRight n = BitVec.ofInt 32 (x.toInt / 2 ^ n) := by
  have hof := BitVec.ofInt_toInt (x := x.sshiftRight n)
  rw [BitVec.toInt_sshiftRight, Int.shiftRight_eq_div_pow] at hof
  exact_mod_cast hof.symm

omit hh in
theorem ofInt_inj {x y : Int} (hx : -2 ^ 31 ≤ x ∧ x < 2 ^ 31) (hy : -2 ^ 31 ≤ y ∧ y < 2 ^ 31) :
    BitVec.ofInt 32 x = BitVec.ofInt 32 y ↔ x = y := by
  refine ⟨fun heq => ?_, fun heq => by rw [heq]⟩
  have hint := congrArg BitVec.toInt heq
  rw [BitVec.toInt_ofInt, BitVec.toInt_ofInt, Int.bmod_eq_of_le (by omega) (by omega),
    Int.bmod_eq_of_le (by omega) (by omega)] at hint
  exact hint

omit hh in
include hz in
/-- The element and the bit in it are those of the bit string for the offsets in the first
element only. -/
theorem used_eq_iff (v : BitVec z.bits) (a : U32) :
    a + ((v.signExtend 32).sshiftRight (if z = .long then 5 else op.wordShift) +
        BitVec.ofNat 32 ((v.toInt % z.bits).toNat / 8)) = bitByte a v.toInt ↔
      0 ≤ v.toInt ∧ v.toInt < z.bits := by
  have hlow := BitVec.le_toInt v
  have hhigh := BitVec.toInt_lt (x := v)
  have hsign : (v.signExtend 32).toInt = v.toInt :=
    BitVec.toInt_signExtend_of_le (by cases z <;> decide)
  have hshift : op.wordShift = 4 ∨ op.wordShift = 5 := by cases op <;> decide
  unfold bitByte
  rw [BitVec.add_right_inj, sshiftRight_eq_ofInt, hsign, ← BitVec.ofInt_natCast, ← BitVec.ofInt_add]
  cases z with
  | byte => exact absurd rfl hz
  | word =>
    rw [if_neg (by decide)]
    simp only [OpSize.bits] at *
    rcases hshift with hs | hs
    · rw [hs, ofInt_inj (by omega) (by omega)]
      omega
    · rw [hs, ofInt_inj (by omega) (by omega)]
      omega
  | long =>
    rw [if_pos rfl]
    simp only [OpSize.bits] at *
    rw [ofInt_inj (by omega) (by omega)]
    omega

omit hh in
/-- The bit in its byte, of the bit in the element. -/
theorem place_in_element (n : Int) : (n % z.bits).toNat % 8 = bitPlace n := by
  unfold bitPlace
  cases z with
  | byte => exact Nat.mod_eq_of_lt (emod_lt .byte n)
  | word =>
    simp only [OpSize.bits]
    omega
  | long =>
    simp only [OpSize.bits]
    omega

include hz in
theorem mem_exact_iff (hsep : s.mem.Sep) (addr : U32) (rh : BitVec 3)
    (hallow : (BitForm.mem addr rh).Allowed op z s) :
    (BitForm.mem addr rh).Exact op z s (((BitForm.mem addr rh).run op z).run h s).2 ↔
      (BitForm.mem addr rh).Holds op z s := by
  obtain ⟨hread, hwrite⟩ := hallow _ rfl
  have hsign : ((s.cpu.getReg z rh).signExtend 32).toInt = (s.cpu.getReg z rh).toInt :=
    BitVec.toInt_signExtend_of_le (by cases z <;> decide)
  have hrun : ((BitForm.mem addr rh).run op z).run h s =
      (bitMem op z (addr + ((s.cpu.getReg z rh).signExtend 32).sshiftRight
          (if z = .long then 5 else op.wordShift))
        (cShl 1 ((s.cpu.getReg z rh).toInt % z.bits).toNat)).run h s := by
    rw [← hsign, ← bitMask_eq]
    unfold BitForm.run
    rw [Prog.run_bind, run_getReg]
  obtain ⟨hcarry, hbits⟩ := bitMem_spec hh z s op _ (emod_lt z (s.cpu.getReg z rh).toInt) hsep
    hread hwrite
  rw [← hrun, place_in_element] at hcarry hbits
  have hplace : bitPlace (s.cpu.getReg z rh).toInt < 8 := by
    unfold bitPlace
    omega
  refine (memExact_iff hplace hcarry hbits).trans (or_congr ?_ Iff.rfl)
  refine Iff.trans ?_ (used_eq_iff hz op (s.cpu.getReg z rh) (s.cpu.linear s.cpu.dataSeg addr))
  have hassoc : ∀ base x y : U32, base + (addr + x) + y = base + addr + (x + y) := by
    intro base x y
    rw [← BitVec.add_assoc base addr x, BitVec.add_assoc (base + addr) x y]
  unfold Cpu.linear
  rw [hassoc]
  exact Iff.rfl

end Forms

/-! ## The handlers -/

theorem bitR_eq (op : BitOp) : bitR op op.wordShift = (do
    opDecode op.text
    let m ← fetchDecodeModrm
    if m.mod = 3 then
      let z ← dataSize
      decodeReg z m.regl
      opDecode ","
      decodeReg z m.regh
      BitForm.run op z (.reg m.regl m.regh)
    else
      let addr ← decodeRmAddress m.mod m.regl
      opDecode ","
      let z ← dataSize
      decodeReg z m.regh
      BitForm.run op z (.mem addr m.regh)) := by
  rfl

theorem btXOperand_eq (op : BitOp) (m : ModRm) : btXOperand op m = (do
    if m.mod = 3 then
      let z ← dataSize
      decodeReg z m.regl
      opDecode ","
      let imm ← fetchImmByte
      BitForm.run op z (.regImm m.regl imm)
    else
      let addr ← decodeRmAddress m.mod m.regl
      opDecode ","
      let imm ← fetchImmByte
      let z ← dataSize
      BitForm.run op z (.memImm addr imm)) := by
  rfl

/-- The opcode for a bit offset in a register. -/
def BitOp.opcode : BitOp → U8
  | bt => 0xa3
  | bts => 0xab
  | btr => 0xb3
  | btc => 0xbb

theorem handlerAt_bitR (op : BitOp) :
    handlerAt x86emuOptab2 op.opcode op.opcode = bitR op op.wordShift := by
  cases op <;> rfl

/-- The state in which the operands of an instruction that starts in `s` are decoded. -/
def BitForm.decoded (s : St) : BitForm → St
  | reg _ _ => s.fetched .b8
  | regImm _ _ => (s.fetched .b8).fetched .b8
  | mem _ _ => s.rmFetched
  | memImm _ _ => s.rmFetched.fetched .b8

theorem decoded_reads (s : St) (form : BitForm) : Reads s (form.decoded s) := by
  cases form with
  | reg _ _ => exact Reads.refl.fetched .b8
  | regImm _ _ => exact (Reads.refl.fetched .b8).fetched .b8
  | mem _ _ => exact rmFetched_reads s
  | memImm _ _ => exact (rmFetched_reads s).fetched .b8

/-- The instructions: the handler, the operation and the form. -/
inductive BitInstr (s : St) : Emu Unit → BitOp → BitForm → Prop
  | reg (op : BitOp) (hmod : s.modrm.mod = 3) :
      BitInstr s (handlerAt x86emuOptab2 op.opcode op.opcode) op (.reg s.modrm.regl s.modrm.regh)
  | mem (op : BitOp) (hmod : s.modrm.mod ≠ 3) :
      BitInstr s (handlerAt x86emuOptab2 op.opcode op.opcode) op (.mem s.rmAddress s.modrm.regh)
  | regImm {op : BitOp} (hop : btXOp s.modrm.regh = some op) (hmod : s.modrm.mod = 3) :
      BitInstr s (handlerAt x86emuOptab2 0xba 0xba) op
        (.regImm s.modrm.regl (s.immAt .byte s.rmLength))
  | memImm {op : BitOp} (hop : btXOp s.modrm.regh = some op) (hmod : s.modrm.mod ≠ 3) :
      BitInstr s (handlerAt x86emuOptab2 0xba 0xba) op
        (.memImm s.rmAddress (s.immAt .byte s.rmLength))

section Instr

variable {inp : PortInput} {h : Host} (hh : h.Blind inp)

include hh

theorem seen_btXI {s : St} {op : BitOp} (hop : btXOp s.modrm.regh = some op) :
    seen h (handlerAt x86emuOptab2 0xba 0xba) s =
      seen h (btXOperand op s.modrm) (s.fetched .b8) := by
  show seen h (btXI 0xba) s = _
  unfold btXI
  rw [seen_step hh (seen_modrm hh s), hop, seen_step hh (seen_opDecode _ _)]

/-- The handlers decode their operands and go on with the form. -/
theorem BitInstr.run {s : St} {x : Emu Unit} {op : BitOp} {form : BitForm}
    (hinstr : BitInstr s x op form) {z : OpSize} (hz : s.cpu.mode.opSize true = z) :
    seen h x s = seen h (form.run op z) (form.decoded s) := by
  have hone : Reads s (s.fetched .b8) := Reads.refl.fetched .b8
  have hrm := rmFetched_reads s
  cases hinstr with
  | reg _ hmod =>
    rw [handlerAt_bitR, bitR_eq, seen_step hh (seen_opDecode _ s), seen_step hh (seen_modrm hh s),
      seen_ite, if_pos hmod, seen_step hh (seen_dataSize _), hone.opSize, hz,
      seen_step hh (seen_decodeReg z _ _), seen_step hh (seen_opDecode _ _),
      seen_step hh (seen_decodeReg z _ _)]
    rfl
  | mem _ hmod =>
    rw [handlerAt_bitR, bitR_eq, seen_step hh (seen_opDecode _ s), seen_step hh (seen_modrm hh s),
      seen_ite, if_neg hmod, seen_step hh (seen_rmAddress hh hmod),
      seen_step hh (seen_opDecode _ _), seen_step hh (seen_dataSize _), hrm.opSize, hz,
      seen_step hh (seen_decodeReg z _ _)]
    rfl
  | regImm hop hmod =>
    have heip : (s.fetched .b8).cpu.eip = s.cpu.advance s.rmLength := by
      rw [St.rmLength, if_pos hmod]
      rfl
    rw [seen_btXI hh hop, btXOperand_eq, seen_ite, if_pos hmod, seen_step hh (seen_dataSize _),
      hone.opSize, hz, seen_step hh (seen_decodeReg z _ _), seen_step hh (seen_opDecode _ _),
      seen_step hh (seen_countImm hh hone heip)]
    rfl
  | memImm hop hmod =>
    rw [seen_btXI hh hop, btXOperand_eq, seen_ite, if_neg hmod,
      seen_step hh (seen_rmAddress hh hmod), seen_step hh (seen_opDecode _ _),
      seen_step hh (seen_countImm hh hrm (rmFetched_eip hmod)), seen_step hh (seen_dataSize _),
      (hrm.fetched .b8).opSize, hz]
    rfl

end Instr

/-- The log is not looked at. -/
theorem exact_view (op : BitOp) (z : OpSize) (form : BitForm) (s t : St) :
    form.Exact op z s t.view ↔ form.Exact op z s t := by
  cases form with
  | reg r rh => exact ⟨fun ht => ⟨ht.carry, ht.bits, ht.mem⟩, fun ht => ⟨ht.carry, ht.bits, ht.mem⟩⟩
  | regImm r imm =>
    exact ⟨fun ht => ⟨ht.carry, ht.bits, ht.mem⟩, fun ht => ⟨ht.carry, ht.bits, ht.mem⟩⟩
  | mem addr rh => exact ⟨fun ht => ⟨ht.carry, ht.bits⟩, fun ht => ⟨ht.carry, ht.bits⟩⟩
  | memImm addr imm => exact ⟨fun ht => ⟨ht.carry, ht.bits⟩, fun ht => ⟨ht.carry, ht.bits⟩⟩

/-- The forms work on the bit of the offset exactly when `Holds`. -/
theorem form_exact_iff {inp : PortInput} {h : Host} (hh : h.Blind inp) (op : BitOp) {z : OpSize}
    (hz : z ≠ .byte) (form : BitForm) {s : St} (hsep : s.mem.Sep) (hallow : form.Allowed op z s) :
    form.Exact op z s (seen h (form.run op z) s).2 ↔ form.Holds op z s := by
  refine (exact_view op z form s _).trans ?_
  cases form with
  | reg r rh => exact ⟨fun _ => trivial, fun _ => reg_exact hh hz op r rh⟩
  | regImm r imm => exact regImm_exact_iff hh hz op r imm
  | mem addr rh => exact mem_exact_iff hh hz op hsep addr rh hallow
  | memImm addr imm => exact ⟨fun _ => trivial, fun _ => memImm_exact hh op hsep addr imm hallow⟩

/-- The instructions work on the bit of the offset exactly when `Holds`. -/
theorem bit_exact_iff {inp : PortInput} {h : Host} (hh : h.Blind inp) {s : St} {x : Emu Unit}
    {op : BitOp} {form : BitForm} (hinstr : BitInstr s x op form) {z : OpSize}
    (hz : s.cpu.mode.opSize true = z) (hsep : s.mem.Sep)
    (hallow : form.Allowed op z (form.decoded s)) :
    form.Exact op z (form.decoded s) (seen h x s).2 ↔ form.Holds op z (form.decoded s) := by
  have hne : z ≠ .byte := hz ▸ opSize_ne_byte s.cpu.mode
  rw [hinstr.run hh hz]
  exact form_exact_iff hh op hne form ((decoded_reads s form).marked.sep hsep) hallow

/-- A state with a new memory in which everything is allowed; there the code is 0. -/
def newState (gen : U32) (data32 : Bool) : St :=
  { cpu := { gen := fun _ => gen, mode := { data32 := data32 } }, mem := emuMemNew 7 }

theorem newState_allowed (gen : U32) (data32 : Bool) (op : BitOp) (z : OpSize) (form : BitForm) :
    form.Allowed op z (form.decoded (newState gen data32)) := by
  have hhas : U8.has ((7 : U32).setWidth 8) permR = true ∧
      U8.has ((7 : U32).setWidth 8) permW = true := by
    decide
  have hcells := (decoded_reads (newState gen data32) form).marked.cells
  refine fun _ _ => ⟨fun _ _ => ?_, fun _ _ _ => ?_⟩
  · rw [(hcells _).has_eq (by decide)]
    exact hhas.1
  · rw [(hcells _).has_eq (by decide)]
    exact hhas.2

/-- `[BX+SI]` and `AX`, or the registers of 32 bits. -/
theorem newState_instr (gen : U32) (data32 : Bool) (op : BitOp) :
    BitInstr (newState gen data32) (handlerAt x86emuOptab2 op.opcode op.opcode) op
      (.mem (newState gen data32).rmAddress 0) := by
  have hcode : (newState gen data32).modrm = ⟨0, 0, 0⟩ :=
    calc (newState gen data32).modrm = (newState 0 true).modrm :=
          congrArg (fun v : U32 => ModRm.ofByte (v.setWidth 8))
            (code_congr (s := newState 0 true) (t := newState gen data32) (.refl _) rfl .b8 0)
      _ = ⟨0, 0, 0⟩ := by decide +kernel
  have hinstr := BitInstr.mem (s := newState gen data32) op (by rw [hcode]; decide)
  rw [hcode] at hinstr
  exact hinstr

/-- `btc [bx+si],eax` with bit 31. -/
theorem bit_exact_iff_btc :
    let s : St := newState 31 true
    (BitForm.mem s.rmAddress 0).Exact .btc .long ((BitForm.mem s.rmAddress 0).decoded s)
        (seen (defaultHost fun _ _ _ => 0) (handlerAt x86emuOptab2 0xbb 0xbb) s).2 ↔
      (BitForm.mem s.rmAddress 0).Holds .btc .long ((BitForm.mem s.rmAddress 0).decoded s) :=
  bit_exact_iff (defaultHost_default _).blind (newState_instr 31 true .btc) rfl (emuMemNew_sep 7)
    (newState_allowed 31 true .btc .long _)

/-- `bts [bx+si],ax` with bit 16 of a bit string in words. -/
theorem bit_exact_fails :
    let s : St := newState 16 false
    ¬(BitForm.mem s.rmAddress 0).Exact .bts .word ((BitForm.mem s.rmAddress 0).decoded s)
      (seen (defaultHost fun _ _ _ => 0) (handlerAt x86emuOptab2 0xab 0xab) s).2 := by
  intro s hexact
  have hread := decoded_reads s (.mem s.rmAddress 0)
  have hrun := (newState_instr 16 false .bts).run (defaultHost_default fun _ _ _ => 0).blind
    (z := .word) rfl
  rw [show BitOp.opcode .bts = 0xab from rfl] at hrun
  rw [hrun] at hexact
  have hholds := (form_exact_iff (defaultHost_default fun _ _ _ => 0).blind .bts (by decide)
    (.mem s.rmAddress 0) (hread.marked.sep (emuMemNew_sep 7))
    (newState_allowed 16 false .bts .word _)).mp hexact
  have hofs : (((BitForm.mem s.rmAddress 0).decoded s).cpu.getReg .word 0).toInt = 16 := by
    rw [hread.getReg .word 0]
    decide
  unfold BitForm.Holds BitForm.offset at hholds
  dsimp only at hholds
  rw [hofs] at hholds
  rcases hholds with ⟨-, hlt⟩ | ⟨-, hkeep⟩
  · exact absurd hlt (by decide)
  · revert hkeep
    decide +kernel

end Op2

end X86Emu
