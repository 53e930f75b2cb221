import X86Emu.Decode.Seen

/-!
# Effective addresses

The address forms of a ModRM byte by the tables of the architecture: a base, a scaled index and a
displacement. `decode_rm_address` fetches the SIB byte and the displacement of the form and nothing
else, and returns the address of the form.
-/

namespace X86Emu

open Lib

/-! ## The tables -/

/-- A memory operand: base register, index register with its scale, width of the displacement. -/
structure AddrForm where
  sib : Bool := false
  base : Option Reg := none
  index : Option (Reg × Nat) := none
  disp : Option MemioWidth := none
  deriving DecidableEq, Repr

/-- The displacement that `mod` asks for. -/
def modDisp (addr32 : Bool) (mod : BitVec 2) : Option MemioWidth :=
  match mod.toNat with
  | 1 => some .b8
  | 2 => some (if addr32 then .b32 else .b16)
  | _ => none

/-- 16 bit addressing. -/
def addrForm16 (mod : BitVec 2) (rm : BitVec 3) : AddrForm :=
  let disp := modDisp false mod
  match rm.toNat with
  | 0 => { base := some .bx, index := some (.si, 0), disp }
  | 1 => { base := some .bx, index := some (.di, 0), disp }
  | 2 => { base := some .bp, index := some (.si, 0), disp }
  | 3 => { base := some .bp, index := some (.di, 0), disp }
  | 4 => { base := some .si, disp }
  | 5 => { base := some .di, disp }
  | 6 => if mod = 0 then { disp := some .b16 } else { base := some .bp, disp }
  | _ => { base := some .bx, disp }

/-- The forms with a SIB byte. -/
def addrFormSib (mod : BitVec 2) (sib : U8) : AddrForm :=
  let base : BitVec 3 := sib.extractLsb' 0 3
  let index : BitVec 3 := sib.extractLsb' 3 3
  let scale : BitVec 2 := sib.extractLsb' 6 2
  { sib := true
    base := if base = 5 ∧ mod = 0 then none else some (Reg.ofBits base)
    index := if index = 4 then none else some (Reg.ofBits index, scale.toNat)
    disp := if base = 5 ∧ mod = 0 then some .b32 else modDisp true mod }

/-- 32 bit addressing. -/
def addrForm32 (mod : BitVec 2) (rm : BitVec 3) (sib : U8) : AddrForm :=
  if rm = 4 then addrFormSib mod sib
  else if rm = 5 ∧ mod = 0 then { disp := some .b32 }
  else { base := some (Reg.ofBits rm), disp := modDisp true mod }

def addrForm (addr32 : Bool) (mod : BitVec 2) (rm : BitVec 3) (sib : U8) : AddrForm :=
  if addr32 then addrForm32 mod rm sib else addrForm16 mod rm

namespace AddrForm

/-- `base + index * 2^scale + disp`, modulo 2^32 or modulo 2^16. -/
def address (form : AddrForm) (c : Cpu) (disp : U32) : U32 :=
  let base := form.base.elim 0 c.gen
  let index := form.index.elim 0 fun (r, scale) => c.gen r * BitVec.ofNat 32 (2 ^ scale)
  let sum := base + index + disp
  if c.mode.addr32 then sum else (sum.setWidth 16).setWidth 32

/-- How many bytes follow the ModRM byte. -/
def length (form : AddrForm) : Nat :=
  (if form.sib then 1 else 0) + form.disp.elim 0 fun width => width.size.toNat

/-- The base register is `BP`, `EBP` or `ESP`. -/
def onStack (form : AddrForm) : Bool := form.base == some .bp || form.base == some .sp

end AddrForm

/-! ## Instruction bytes -/

/-- The sign-extended displacement at a value of `EIP`. -/
def St.disp (s : St) (width : Option MemioWidth) (eip : U32) : U32 :=
  match width with
  | none => 0
  | some .b8 => ((s.code .b8 eip).setWidth 8).signExtend 32
  | some .b16 => ((s.code .b16 eip).setWidth 16).signExtend 32
  | some .b32 => s.code .b32 eip

theorem fetched_marked (s : St) (width : MemioWidth) : s.mem.Marked (s.fetched width).mem :=
  .access (by decide) _ _ _ s.mem

theorem code_congr {s t : St} (hmem : s.mem.Marked t.mem) (hseg : t.cpu.seg = s.cpu.seg)
    (width : MemioWidth) (eip : U32) : t.code width eip = s.code width eip := by
  unfold St.code Cpu.linear
  rw [hseg, hmem.access_result (by decide)]

theorem setLo16_setLo16 (v : U32) (x y : U16) : setLo16 (setLo16 v x) y = setLo16 v y := by
  unfold setLo16
  rw [BitVec.extractLsb'_append_eq_left]

theorem setWidth_setLo16 (v : U32) (x : U16) : (setLo16 v x).setWidth 16 = x := by
  unfold setLo16
  rw [BitVec.setWidth_eq_extractLsb' (by decide), BitVec.extractLsb'_append_eq_right]

theorem setLo16_self (v : U32) : setLo16 v (v.setWidth 16) = v := by
  unfold setLo16
  rw [BitVec.setWidth_eq_extractLsb' (by decide),
    BitVec.extractLsb'_append_extractLsb'_eq_extractLsb' (by decide)]
  exact BitVec.extractLsb'_eq_self

/-- `EIP` over `m` bytes and then over `n` more. -/
theorem advance_add (c : Cpu) (m n : Nat) (mode : Mode) (hmode : mode.code32 = c.mode.code32) :
    ({ c with eip := c.advance m, mode := mode } : Cpu).advance n = c.advance (m + n) := by
  unfold Cpu.advance Cpu.ip
  dsimp only
  rw [hmode]
  split
  · rw [BitVec.add_assoc, BitVec.ofNat_add_ofNat]
  · rw [setWidth_setLo16, setLo16_setLo16, BitVec.add_assoc, BitVec.ofNat_add_ofNat]

theorem advance_zero (c : Cpu) : c.advance 0 = c.eip := by
  unfold Cpu.advance Cpu.ip
  split
  · exact BitVec.add_zero _
  · rw [BitVec.add_zero]
    exact setLo16_self c.eip

/-! ## The forms of the code -/

/-- The displacement is fetched. -/
def St.fetchedDisp (s : St) (width : Option MemioWidth) : St := width.elim s s.fetched

@[simp] theorem fetchedDisp_gen (s : St) (width : Option MemioWidth) :
    (s.fetchedDisp width).cpu.gen = s.cpu.gen := by
  cases width <;> rfl

theorem ea16_congr {c c' : Cpu} (hgen : c'.gen = c.gen) (rm : BitVec 3) :
    ea16 rm c' = ea16 rm c := by
  unfold ea16 Cpu.get16
  rw [hgen]

/-- The state after the bytes of a form are fetched. -/
def St.decoded (s : St) (form : AddrForm) : St :=
  let s := (if form.sib then s.fetched .b8 else s).fetchedDisp form.disp
  if form.onStack then s.put Cpu.setSegDsSs else s

theorem twoPow_eq_ofNat (w i : Nat) : BitVec.twoPow w i = BitVec.ofNat w (2 ^ i) := by
  apply BitVec.eq_of_toNat_eq
  rw [BitVec.toNat_twoPow, BitVec.toNat_ofNat]

theorem reg3_cases (rm : BitVec 3) :
    rm = 0 ∨ rm = 1 ∨ rm = 2 ∨ rm = 3 ∨ rm = 4 ∨ rm = 5 ∨ rm = 6 ∨ rm = 7 := by
  revert rm
  decide

/-- The low half of a sum is the sum of the low halves. -/
theorem setWidth_sum (x y z : U32) :
    (x + y + z).setWidth 16 = x.setWidth 16 + y.setWidth 16 + z.setWidth 16 := by
  rw [BitVec.setWidth_add _ _ (by decide), BitVec.setWidth_add _ _ (by decide)]

/-- The table of the 16 bit forms in the code. -/
theorem ea16_form (mod : BitVec 2) {rm : BitVec 3} (hform : ¬(mod = 0 ∧ rm = 6)) {c : Cpu}
    (haddr : c.mode.addr32 = false) (disp : U32) :
    ((ea16 rm c).2.1 + disp.setWidth 16).setWidth 32 = (addrForm16 mod rm).address c disp ∧
      (ea16 rm c).2.2 = (addrForm16 mod rm).onStack ∧
      (addrForm16 mod rm).disp = modDisp false mod ∧ (addrForm16 mod rm).sib = false := by
  unfold AddrForm.address
  rw [haddr]
  simp only [Bool.false_eq_true, if_false, setWidth_sum]
  rcases reg3_cases rm with rfl | rfl | rfl | rfl | rfl | rfl | rfl | rfl
  all_goals simp [ea16, addrForm16, Cpu.get16, AddrForm.onStack]
  all_goals simp_all

theorem decoded_eip (s : St) (form : AddrForm) :
    (s.decoded form).cpu.eip = s.cpu.advance form.length := by
  have hon : (s.decoded form).cpu.eip =
      ((if form.sib then s.fetched .b8 else s).fetchedDisp form.disp).cpu.eip := by
    unfold St.decoded
    cases form.onStack <;> rfl
  rw [hon]
  unfold AddrForm.length
  cases form.sib with
  | false =>
    cases form.disp with
    | none => exact (advance_zero s.cpu).symm
    | some width =>
      show s.cpu.advance width.size.toNat = s.cpu.advance (0 + width.size.toNat)
      rw [Nat.zero_add]
  | true =>
    cases form.disp with
    | none => rfl
    | some width => exact advance_add s.cpu 1 width.size.toNat _ rfl

theorem decoded_dataSeg (s : St) (form : AddrForm) : (s.decoded form).cpu.dataSeg =
    s.cpu.defaultSeg.getD (if s.cpu.mode.segDsSs || form.onStack then .ss else .ds) := by
  unfold St.decoded
  cases form.onStack with
  | false =>
    rw [Bool.or_false]
    cases form.sib <;> cases form.disp <;> rfl
  | true =>
    rw [Bool.or_true]
    cases form.sib <;> cases form.disp <;> rfl

/-- The address of a form in a state, when its bytes are the next ones. -/
def St.ea (s : St) (form : AddrForm) : U32 :=
  form.address s.cpu (s.disp form.disp (if form.sib then s.cpu.advance 1 else s.cpu.eip))

theorem ea_plain (s : St) {form : AddrForm} (hsib : form.sib = false) :
    s.ea form = form.address s.cpu (s.disp form.disp s.cpu.eip) := by
  unfold St.ea
  rw [hsib]
  rfl

theorem decoded_plain (s : St) {form : AddrForm} (hsib : form.sib = false) :
    s.decoded form = if form.onStack then (s.fetchedDisp form.disp).put Cpu.setSegDsSs
      else s.fetchedDisp form.disp := by
  unfold St.decoded
  rw [hsib]
  rfl

/-- The index of a form, scaled. -/
def AddrForm.scaled (form : AddrForm) (c : Cpu) : U32 :=
  form.index.elim 0 fun (r, scale) => c.gen r * BitVec.ofNat 32 (2 ^ scale)

/-- The mark of a base register. -/
def St.based (s : St) (form : AddrForm) : St :=
  if form.onStack then s.put Cpu.setSegDsSs else s

section

variable {inp : PortInput} {h : Host} (hh : h.Blind inp)

include hh

theorem seen_segprefDecode (s : St) : seen h segprefDecode s = ((), s.view) :=
  seen_step hh (seen_getCpu s)

/-- The base of a form with a SIB byte; without a base register the displacement is fetched in its
place. -/
theorem seen_decodeSibBase (sib : U8) (mod : BitVec 2) (s : St) :
    seen h (decodeSibBase sib mod.toNat) s =
      match (addrFormSib mod sib).base with
      | none => (s.code .b32 s.cpu.eip, (s.fetched .b32).view)
      | some r => (s.cpu.gen r, (s.based (addrFormSib mod sib)).view) := by
  have hbp : ∀ b, Reg.ofBits b = .bp ↔ b = 5 := by decide
  have hnone : ∀ b, Reg.ofBits b = .bp ∧ mod.toNat = 0 ↔ b = 5 ∧ mod = 0 := by
    intro b
    rw [hbp, BitVec.toNat_eq (y := 0)]
    rfl
  unfold decodeSibBase
  dsimp only
  rw [seen_step hh (seen_segprefDecode hh s), seen_ite]
  by_cases hdisp : sib.extractLsb' 0 3 = 5 ∧ mod = 0
  · have hbase : (addrFormSib mod sib).base = none := if_pos hdisp
    rw [if_pos ((hnone _).mpr hdisp), hbase, seen_step hh (seen_fetchLong hh s),
      seen_step hh (seen_decode _ _), seen_pure]
  · have hbase : (addrFormSib mod sib).base = some (Reg.ofBits (sib.extractLsb' 0 3)) :=
      if_neg hdisp
    rw [if_neg (mt (hnone _).mp hdisp), hbase, seen_step hh (seen_opDecode _ _), seen_ite]
    unfold St.based AddrForm.onStack
    rw [hbase]
    split
    · next hstack =>
      rw [seen_step hh (seen_setSegDsSs _), seen_getGen]
      rcases hstack with hsp | hbp
      · simp [hsp]
      · simp [hbp]
    · next hother =>
      rw [not_or] at hother
      rw [seen_getGen]
      simp [hother]

theorem seen_decodeSibIndex (sib : U8) (mod : BitVec 2) (s : St) :
    seen h (decodeSibIndex sib) s = ((addrFormSib mod sib).scaled s.cpu, s.view) := by
  have hsp : ∀ b, Reg.ofBits b = .sp ↔ b = 4 := by decide
  unfold decodeSibIndex AddrForm.scaled
  dsimp only
  rw [seen_ite]
  by_cases hindex : sib.extractLsb' 3 3 = 4
  · have hform : (addrFormSib mod sib).index = none := if_pos hindex
    rw [if_pos ((hsp _).mpr hindex), hform]
    exact seen_pure _ s
  · have hform : (addrFormSib mod sib).index =
        some (Reg.ofBits (sib.extractLsb' 3 3), (sib.extractLsb' 6 2).toNat) := if_neg hindex
    have hscale : ∀ v : U32, v <<< (sib.extractLsb' 6 2).toNat =
        v * BitVec.ofNat 32 (2 ^ (sib.extractLsb' 6 2).toNat) := by
      intro v
      rw [BitVec.shiftLeft_eq_mul_twoPow, twoPow_eq_ofNat]
    rw [if_neg (mt (hsp _).mp hindex), hform, seen_step hh (seen_opDecode _ s),
      seen_step hh (seen_opDecode _ s), seen_ite]
    split
    · rw [seen_step hh (seen_opDecode _ s), seen_step hh (seen_decode _ s),
        seen_step hh (seen_getGen _ s), seen_pure, hscale]
      rfl
    · rw [seen_step hh (seen_getGen _ s), seen_pure, hscale]
      rfl

/-- A SIB byte with a base register. -/
theorem seen_decodeSibAddress {sib : U8} {mod : BitVec 2}
    (hbase : ¬(sib.extractLsb' 0 3 = 5 ∧ mod = 0)) (s : St) :
    seen h (decodeSibAddress sib mod.toNat) s =
      (s.cpu.gen (Reg.ofBits (sib.extractLsb' 0 3)) + (addrFormSib mod sib).scaled s.cpu,
        (s.based (addrFormSib mod sib)).view) := by
  have hsome : (addrFormSib mod sib).base = some (Reg.ofBits (sib.extractLsb' 0 3)) := if_neg hbase
  have hrun := seen_decodeSibBase hh sib mod s
  rw [hsome] at hrun
  unfold decodeSibAddress
  rw [seen_step hh hrun, seen_step hh (seen_decodeSibIndex hh sib mod _), seen_pure]
  unfold St.based
  split <;> rfl

/-- A SIB byte without a base register. -/
theorem seen_decodeSibDisp {sib : U8} (hbase : sib.extractLsb' 0 3 = 5) (s : St) :
    seen h (decodeSibAddress sib 0) s =
      (s.code .b32 s.cpu.eip + (addrFormSib 0 sib).scaled s.cpu, (s.fetched .b32).view) := by
  have hnone : (addrFormSib 0 sib).base = none := if_pos ⟨hbase, rfl⟩
  have hrun := seen_decodeSibBase hh sib 0 s
  rw [hnone] at hrun
  unfold decodeSibAddress
  rw [show (0 : Nat) = (0 : BitVec 2).toNat from rfl, seen_step hh hrun,
    seen_step hh (seen_decodeSibIndex hh sib 0 _), seen_pure]
  rfl

/-! ### The forms with a SIB byte -/

omit hh in
theorem disp_congr {s t : St} (hmem : s.mem.Marked t.mem) (hseg : t.cpu.seg = s.cpu.seg)
    (width : Option MemioWidth) (eip : U32) : t.disp width eip = s.disp width eip := by
  unfold St.disp
  simp only [code_congr hmem hseg]

omit hh in
/-- The address and the state after the bytes of a form with a SIB byte and a base register. -/
theorem ea_sibBase {sib : U8} {mod : BitVec 2} (hbase : ¬(sib.extractLsb' 0 3 = 5 ∧ mod = 0))
    {s : St} (haddr : s.cpu.mode.addr32 = true) {u : St}
    (hu : u = (s.fetched .b8).based (addrFormSib mod sib)) :
    s.ea (addrFormSib mod sib) =
        s.cpu.gen (Reg.ofBits (sib.extractLsb' 0 3)) + (addrFormSib mod sib).scaled s.cpu +
          u.disp (modDisp true mod) u.cpu.eip ∧
      s.decoded (addrFormSib mod sib) = u.fetchedDisp (modDisp true mod) := by
  have hsome : (addrFormSib mod sib).base = some (Reg.ofBits (sib.extractLsb' 0 3)) := if_neg hbase
  have hdisp : (addrFormSib mod sib).disp = modDisp true mod := if_neg hbase
  have hu' : u.disp (modDisp true mod) u.cpu.eip = s.disp (modDisp true mod) (s.cpu.advance 1) := by
    rw [hu]
    unfold St.based
    split <;> exact disp_congr (fetched_marked s .b8) rfl _ _
  constructor
  · rw [hu']
    unfold St.ea AddrForm.address
    rw [hdisp, hsome, haddr]
    rfl
  · rw [hu]
    unfold St.decoded St.based
    rw [hdisp]
    cases (addrFormSib mod sib).onStack <;> cases modDisp true mod <;> rfl

omit hh in
/-- The same without a base register. -/
theorem ea_sibDisp {sib : U8} (hbase : sib.extractLsb' 0 3 = 5) {s : St}
    (haddr : s.cpu.mode.addr32 = true) :
    s.ea (addrFormSib 0 sib) =
        (s.fetched .b8).code .b32 (s.cpu.advance 1) + (addrFormSib 0 sib).scaled s.cpu ∧
      s.decoded (addrFormSib 0 sib) = (s.fetched .b8).fetched .b32 := by
  have hnone : (addrFormSib 0 sib).base = none := if_pos ⟨hbase, rfl⟩
  have hdisp : (addrFormSib 0 sib).disp = some .b32 := if_pos ⟨hbase, rfl⟩
  have hon : (addrFormSib 0 sib).onStack = false := by rw [AddrForm.onStack, hnone]; rfl
  have hzero : ∀ v : U32, 0 + v = v := fun v => BitVec.zero_add v
  constructor
  · rw [code_congr (t := s.fetched .b8) (fetched_marked s .b8) rfl]
    unfold St.ea AddrForm.address
    rw [hnone, hdisp, haddr]
    show 0 + (addrFormSib 0 sib).scaled s.cpu + s.code .b32 (s.cpu.advance 1) = _
    rw [hzero, BitVec.add_comm]
  · unfold St.decoded
    rw [hon, hdisp]
    rfl

/-- The forms with a SIB byte and a displacement. -/
theorem seen_formSib {mod : BitVec 2} (hmod : mod ≠ 0) {s : St}
    (haddr : s.cpu.mode.addr32 = true) {fetch : Emu U32}
    (hfetch : ∀ s, seen h fetch s = (s.disp (modDisp true mod) s.cpu.eip,
      (s.fetchedDisp (modDisp true mod)).view)) (show32 : U32 → List Char) :
    let form := addrFormSib mod ((s.code .b8 s.cpu.eip).setWidth 8)
    seen h (do
      let sib ← fetchByte
      let base ← decodeSibAddress sib mod.toNat
      let displacement ← fetch
      decode (show32 displacement)
      opDecode "]"
      return base + displacement) s = (s.ea form, (s.decoded form).view) := by
  intro form
  have hbase : ¬((((s.code .b8 s.cpu.eip).setWidth 8).extractLsb' 0 3 : BitVec 3) = 5 ∧ mod = 0) :=
    fun hnone => hmod hnone.2
  obtain ⟨hea, hst⟩ := ea_sibBase hbase haddr rfl
  rw [seen_step hh (seen_fetchByte hh s), seen_step hh (seen_decodeSibAddress hh hbase _),
    seen_step hh (hfetch _), seen_step hh (seen_decode _ _), seen_step hh (seen_opDecode _ _),
    seen_pure, hea, hst]
  rfl

/-- The forms with a SIB byte for `mod` 0. -/
theorem seen_formSib00 {s : St} (haddr : s.cpu.mode.addr32 = true) :
    let form := addrFormSib 0 ((s.code .b8 s.cpu.eip).setWidth 8)
    seen h (do
      let sib ← fetchByte
      let base ← decodeSibAddress sib 0
      opDecode "]"
      return base) s = (s.ea form, (s.decoded form).view) := by
  intro form
  rw [seen_step hh (seen_fetchByte hh s)]
  by_cases hbase : (((s.code .b8 s.cpu.eip).setWidth 8).extractLsb' 0 3 : BitVec 3) = 5
  · obtain ⟨hea, hst⟩ := ea_sibDisp hbase haddr
    rw [seen_step hh (seen_decodeSibDisp hh hbase _), seen_step hh (seen_opDecode _ _), seen_pure,
      hea, hst]
    rfl
  · have hsome : ¬((((s.code .b8 s.cpu.eip).setWidth 8).extractLsb' 0 3 : BitVec 3) = 5 ∧
        (0 : BitVec 2) = 0) := fun hnone => hbase hnone.1
    obtain ⟨hea, hst⟩ := ea_sibBase hsome haddr rfl
    have hzero : ∀ v : U32, v + 0 = v := fun v => BitVec.add_zero v
    rw [show (0 : Nat) = (0 : BitVec 2).toNat from rfl,
      seen_step hh (seen_decodeSibAddress hh hsome _), seen_step hh (seen_opDecode _ _), seen_pure,
      hea, hst]
    refine Prod.ext ?_ rfl
    exact (hzero _).symm

/-! ### The other forms -/

/-- The 16 bit forms but the lone displacement. -/
theorem seen_form16 {mod : BitVec 2} {rm : BitVec 3} {s : St}
    (haddr : s.cpu.mode.addr32 = false) (hform : ¬(mod = 0 ∧ rm = 6)) {fetch : Emu U32}
    (hfetch : seen h fetch s = (s.disp (modDisp false mod) s.cpu.eip,
      (s.fetchedDisp (modDisp false mod)).view)) (show16 : U32 → List Char) :
    seen h (do
      let displacement ← fetch
      segprefDecode
      let (text, ea, ss) := ea16 rm (← getCpu)
      opDecode text
      decode (show16 displacement)
      opDecode "]"
      if ss then setSegDsSs
      return (ea + displacement.setWidth 16).setWidth 32) s =
      (s.ea (addrForm16 mod rm), (s.decoded (addrForm16 mod rm)).view) := by
  obtain ⟨hea, hss, hdisp, hsib⟩ := ea16_form mod hform haddr (s.disp (modDisp false mod) s.cpu.eip)
  rw [ea_plain s hsib, decoded_plain s hsib, hdisp, ← hea, ← hss, seen_step hh hfetch,
    seen_step hh (seen_segprefDecode hh _), seen_step hh (seen_getCpu _)]
  dsimp only
  rw [ea16_congr (fetchedDisp_gen s _), seen_step hh (seen_opDecode _ _),
    seen_step hh (seen_decode _ _), seen_step hh (seen_opDecode _ _), seen_ite]
  split
  · rw [seen_step hh (seen_setSegDsSs _), seen_pure]
  · rw [seen_pure]

omit hh in
/-- A form with a base register only, in 32 bit addressing. -/
theorem ea_base (mod : BitVec 2) {rm : BitVec 3} (sib : U8) {s : St}
    (haddr : s.cpu.mode.addr32 = true) (hrm : rm ≠ 4) (hform : ¬(rm = 5 ∧ mod = 0)) :
    s.ea (addrForm32 mod rm sib) =
        s.cpu.gen (Reg.ofBits rm) + s.disp (modDisp true mod) s.cpu.eip ∧
      s.decoded (addrForm32 mod rm sib) =
        if rm = 5 then (s.fetchedDisp (modDisp true mod)).put Cpu.setSegDsSs
        else s.fetchedDisp (modDisp true mod) := by
  have hbase : addrForm32 mod rm sib =
      { base := some (Reg.ofBits rm), disp := modDisp true mod } := by
    unfold addrForm32
    rw [if_neg hrm, if_neg hform]
  have hstack : ∀ rm : BitVec 3, rm ≠ 4 →
      (({ base := some (Reg.ofBits rm) } : AddrForm).onStack = true ↔ rm = 5) := by decide
  have hon : ({ base := some (Reg.ofBits rm), disp := modDisp true mod } : AddrForm).onStack =
      decide (rm = 5) := by
    rw [Bool.eq_iff_iff, decide_eq_true_eq]
    exact hstack rm hrm
  rw [hbase, ea_plain s rfl, decoded_plain s rfl]
  unfold AddrForm.address
  rw [haddr, hon]
  simp

/-- The 32 bit forms with a base register and a displacement. -/
theorem seen_form32 {mod : BitVec 2} {rm : BitVec 3} (sib : U8) {s : St}
    (haddr : s.cpu.mode.addr32 = true) (hrm : rm ≠ 4) (hmod : mod ≠ 0)
    {fetch : Emu U32} (hfetch : seen h fetch s = (s.disp (modDisp true mod) s.cpu.eip,
      (s.fetchedDisp (modDisp true mod)).view)) (show32 : U32 → List Char) :
    seen h (do
      let displacement ← fetch
      segprefDecode
      opDecode (Reg.ofBits rm).name32
      decode (show32 displacement)
      opDecode "]"
      if rm.toNat = 5 then setSegDsSs
      return (← getGen (Reg.ofBits rm)) + displacement) s =
      (s.ea (addrForm32 mod rm sib), (s.decoded (addrForm32 mod rm sib)).view) := by
  have hfive : rm.toNat = 5 ↔ rm = 5 := (BitVec.toNat_eq (y := 5)).symm
  obtain ⟨hea, hst⟩ := ea_base mod sib haddr hrm fun hnone => hmod hnone.2
  rw [hea, hst, seen_step hh hfetch, seen_step hh (seen_segprefDecode hh _),
    seen_step hh (seen_opDecode _ _), seen_step hh (seen_decode _ _),
    seen_step hh (seen_opDecode _ _), seen_ite]
  by_cases hrm5 : rm = 5
  · rw [if_pos (hfive.mpr hrm5), if_pos hrm5, seen_step hh (seen_setSegDsSs _),
      seen_step hh (seen_getGen _ _), seen_pure, put_cpu, setSegDsSs_gen, fetchedDisp_gen]
  · rw [if_neg (mt hfive.mp hrm5), if_neg hrm5, seen_step hh (seen_getGen _ _), seen_pure,
      fetchedDisp_gen]

/-- The forms of `mod` 0 in 32 bit addressing. -/
theorem seen_form00 {rm : BitVec 3} {s : St} (haddr : s.cpu.mode.addr32 = true) (hrm : rm ≠ 4)
    (sib : U8) :
    seen h (decodeRm00Address rm) s =
      (s.ea (addrForm32 0 rm sib), (s.decoded (addrForm32 0 rm sib)).view) := by
  have hzero : ∀ v : U32, v + 0 = v := fun v => BitVec.add_zero v
  unfold decodeRm00Address
  rw [seen_step hh (seen_getMode s), seen_ite, if_pos haddr]
  by_cases hdisp : rm = 5
  · subst hdisp
    show seen h (do
      let offset ← fetchLong
      segprefDecode
      decode (decodeHex8 offset)
      opDecode "]"
      return offset) s = (s.ea { disp := some .b32 }, (s.decoded { disp := some .b32 }).view)
    rw [seen_step hh (seen_fetchLong hh s), seen_step hh (seen_segprefDecode hh _),
      seen_step hh (seen_decode _ _), seen_step hh (seen_opDecode _ _), seen_pure, ea_plain s rfl]
    unfold AddrForm.address
    rw [haddr]
    exact Prod.ext (BitVec.zero_add _).symm rfl
  · obtain ⟨hea, hst⟩ := ea_base 0 sib haddr hrm fun h5 => hdisp h5.1
    rw [hea, hst, if_neg hdisp]
    split
    · next heq => exact absurd (BitVec.eq_of_toNat_eq heq) hrm
    · next heq => exact absurd (BitVec.eq_of_toNat_eq heq) hdisp
    · rw [seen_step hh (seen_segprefDecode hh s), seen_step hh (seen_opDecode _ _),
        seen_step hh (seen_opDecode _ _), seen_getGen]
      exact Prod.ext (hzero _).symm rfl

/-- The forms of `mod` 0 in 16 bit addressing. -/
theorem seen_form00Word {rm : BitVec 3} {s : St} (haddr : s.cpu.mode.addr32 = false) :
    seen h (decodeRm00Address rm) s =
      (s.ea (addrForm16 0 rm), (s.decoded (addrForm16 0 rm)).view) := by
  unfold decodeRm00Address
  rw [seen_step hh (seen_getMode s), seen_ite, if_neg (by rw [haddr]; exact Bool.false_ne_true)]
  by_cases hdisp : rm = 6
  · subst hdisp
    have hlow : ∀ v : U16, (0 + 0 + v.signExtend 32 : U32).setWidth 16 = v := by
      intro v
      rw [show (0 : U32) + 0 = 0 from rfl, show ∀ x : U32, 0 + x = x from BitVec.zero_add]
      ext i hi
      rw [BitVec.getElem_setWidth, BitVec.getLsbD_signExtend]
      simp [hi, Nat.lt_trans hi (by decide : 16 < 32)]
    show seen h (do
      let offset ← fetchWord
      segprefDecode
      decode (decodeHex4 (offset.setWidth 32))
      opDecode "]"
      return offset.setWidth 32) s =
        (s.ea { disp := some .b16 }, (s.decoded { disp := some .b16 }).view)
    rw [seen_step hh (seen_fetchWord hh s), seen_step hh (seen_segprefDecode hh _),
      seen_step hh (seen_decode _ _), seen_step hh (seen_opDecode _ _), seen_pure, ea_plain s rfl]
    unfold AddrForm.address
    rw [haddr]
    exact Prod.ext (congrArg (BitVec.setWidth 32) (hlow _).symm) rfl
  · obtain ⟨hea, hss, hform, hsib⟩ := ea16_form 0 (fun h6 => hdisp h6.2) haddr 0
    have hnone : ∀ v : U16, v + (0 : U32).setWidth 16 = v := fun v => BitVec.add_zero v
    rw [ea_plain s hsib, decoded_plain s hsib, hform, ← hss,
      show s.disp (modDisp false 0) s.cpu.eip = 0 from rfl, ← hea, hnone]
    split
    · next heq => exact absurd (BitVec.eq_of_toNat_eq heq) hdisp
    · rw [seen_step hh (seen_segprefDecode hh s), seen_step hh (seen_getCpu s)]
      dsimp only
      rw [seen_step hh (seen_opDecode _ s), seen_step hh (seen_opDecode _ s), seen_ite]
      split
      · rw [seen_step hh (seen_setSegDsSs s), seen_pure]
        rfl
      · exact seen_pure _ s

/-- The forms of `mod` 1 and 2. -/
theorem seen_decodeRmDisp {mod : BitVec 2} (hmod : mod ≠ 0) {fetch32 fetch16 : Emu U32}
    (h32 : ∀ s, seen h fetch32 s = (s.disp (modDisp true mod) s.cpu.eip,
      (s.fetchedDisp (modDisp true mod)).view))
    (h16 : ∀ s, seen h fetch16 s = (s.disp (modDisp false mod) s.cpu.eip,
      (s.fetchedDisp (modDisp false mod)).view))
    (show32 show16 : U32 → List Char) (rm : BitVec 3) (s : St) :
    let form := addrForm s.cpu.mode.addr32 mod rm ((s.code .b8 s.cpu.eip).setWidth 8)
    seen h (decodeRmDispAddress mod.toNat fetch32 fetch16 show32 show16 rm) s =
      (s.ea form, (s.decoded form).view) := by
  unfold decodeRmDispAddress
  dsimp only
  rw [seen_step hh (seen_getMode s), seen_ite]
  cases haddr : s.cpu.mode.addr32 with
  | true =>
    rw [if_pos rfl]
    show _ = (s.ea (addrForm32 mod rm _), (s.decoded (addrForm32 mod rm _)).view)
    by_cases hrm : rm = 4
    · subst hrm
      exact seen_formSib hh hmod haddr h32 show32
    · have hrm' : rm.toNat ≠ 4 := fun heq => hrm (BitVec.eq_of_toNat_eq heq)
      split
      · next heq => exact absurd heq hrm'
      · exact seen_form32 hh _ haddr hrm hmod (h32 s) show32
  | false =>
    rw [if_neg Bool.false_ne_true]
    exact seen_form16 hh haddr (fun hnone => hmod hnone.1) (h16 s) show16

/-- The forms of `mod` 0. -/
theorem seen_decodeRm00 (rm : BitVec 3) (s : St) :
    let form := addrForm s.cpu.mode.addr32 0 rm ((s.code .b8 s.cpu.eip).setWidth 8)
    seen h (decodeRm00Address rm) s = (s.ea form, (s.decoded form).view) := by
  cases haddr : s.cpu.mode.addr32 with
  | true =>
    by_cases hrm : rm = 4
    · subst hrm
      have hrun := seen_formSib00 hh haddr
      unfold decodeRm00Address
      rw [seen_step hh (seen_getMode s), seen_ite, if_pos haddr]
      exact hrun
    · exact seen_form00 hh haddr hrm _
  | false => exact seen_form00Word hh haddr

/-- `decode_rm_address` follows the tables. -/
theorem seen_decodeRmAddress {mod : BitVec 2} (hmod : mod ≠ 3) (rm : BitVec 3) (s : St) :
    let form := addrForm s.cpu.mode.addr32 mod rm ((s.code .b8 s.cpu.eip).setWidth 8)
    seen h (decodeRmAddress mod rm) s = (s.ea form, (s.decoded form).view) := by
  have hcases : mod = 0 ∨ mod = 1 ∨ mod = 2 := by
    revert mod
    decide
  rcases hcases with rfl | rfl | rfl
  · rw [show decodeRmAddress 0 rm = decodeRm00Address rm from rfl]
    exact seen_decodeRm00 hh rm s
  · rw [show decodeRmAddress 1 rm = decodeRmDispAddress (1 : BitVec 2).toNat fetchSignedByte
      fetchSignedByte decodeHex2s decodeHex2s rm from rfl]
    exact seen_decodeRmDisp hh (by decide) (seen_fetchSignedByte hh) (seen_fetchSignedByte hh)
      decodeHex2s decodeHex2s rm s
  · rw [show decodeRmAddress 2 rm = decodeRmDispAddress (2 : BitVec 2).toNat fetchLong
      fetchSignedWord decodeHex8s decodeHex4s rm from rfl]
    exact seen_decodeRmDisp hh (by decide) (seen_fetchLong hh) (seen_fetchSignedWord hh)
      decodeHex8s decodeHex4s rm s

/-- A memory operand as the tables have it: its address, the bytes it takes, what else is left of
decoding it, and its segment. -/
theorem decodeRmAddress_effective {mod : BitVec 2} (hmod : mod ≠ 3) (rm : BitVec 3) {s : St}
    (hseg : s.cpu.mode.segDsSs = false) :
    let form := addrForm s.cpu.mode.addr32 mod rm ((s.code .b8 s.cpu.eip).setWidth 8)
    let disp := s.disp form.disp (if form.sib then s.cpu.advance 1 else s.cpu.eip)
    let res := (decodeRmAddress mod rm).run h s
    res.1 = form.address s.cpu disp ∧
      res.2.cpu.eip = s.cpu.advance form.length ∧
      res.2.view = (s.decoded form).view ∧
      (getDataSegment.run h res.2).1 =
        s.cpu.defaultSeg.getD (if form.onStack then .ss else .ds) := by
  intro form disp res
  have hseen : (res.1, res.2.view) = (s.ea form, (s.decoded form).view) :=
    seen_decodeRmAddress hh hmod rm s
  have hview : res.2.view = (s.decoded form).view := congrArg Prod.snd hseen
  have hcpu : res.2.cpu = (s.decoded form).cpu := by
    rw [← view_cpu, hview, view_cpu]
  refine ⟨congrArg Prod.fst hseen, ?_, hview, ?_⟩
  · rw [hcpu, decoded_eip]
  · show res.2.cpu.dataSeg = _
    rw [hcpu, decoded_dataSeg, hseg, Bool.false_or]

end

/-- `[ebp+2*esi-4]`, in the stack segment. -/
theorem decodeRmAddress_effective_sib :
    let s : St :=
      { cpu := { gen := fun r => if r = .bp then 0x100 else if r = .si then 8 else 0
                 mode := { addr32 := true, code32 := true } }
        mem := fullMem fun i => if i = 0 then 0x75 else 0xfc }
    let res := (decodeRmAddress 1 4).run (defaultHost fun _ _ _ => 0) s
    res.1 = 0x10c ∧ res.2.cpu.eip = 2 ∧
      (getDataSegment.run (defaultHost fun _ _ _ => 0) res.2).1 = .ss := by
  intro s res
  obtain ⟨haddr, heip, -, hseg⟩ := decodeRmAddress_effective
    (defaultHost_default fun _ _ _ => 0).blind (show (1 : BitVec 2) ≠ 3 by decide) 4 (s := s) rfl
  exact ⟨haddr.trans (by decide +kernel), heip.trans (by decide +kernel),
    hseg.trans (by decide +kernel)⟩

end X86Emu
