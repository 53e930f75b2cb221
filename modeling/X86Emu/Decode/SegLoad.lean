import X86Emu.Decode.Rm
import X86Emu.Lib.Borrow

/-!
# Loads of segment registers

What `x86emu_set_seg_register` does for every selector and every table. A table entry is the image
of a base, a limit of 20 bits and 12 access bits, and `decode_descriptor` gives them back. The
selectors 4 to 7 name the first entry of the LDT, but are taken for null, as the table bit is not
looked at.
-/

namespace X86Emu

open Lib

/-! ## Table entries -/

/-- What the entry of a code or data segment says. -/
@[ext] structure SegDescr where
  base : U32
  limit : BitVec 20
  acc : BitVec 12
  deriving DecidableEq, Repr

namespace SegDescr

/-- The low and the high dword of the entry. -/
def encode (d : SegDescr) : U32 × U32 :=
  (d.base.extractLsb' 0 16 ++ d.limit.extractLsb' 0 16,
    d.base.extractLsb' 24 8 ++ d.acc.extractLsb' 8 4 ++ d.limit.extractLsb' 16 4 ++
      d.acc.extractLsb' 0 8 ++ d.base.extractLsb' 16 8)

def ofEntry (dl dh : U32) : SegDescr where
  base := dh.extractLsb' 24 8 ++ dh.extractLsb' 0 8 ++ dl.extractLsb' 16 16
  limit := dh.extractLsb' 16 4 ++ dl.extractLsb' 0 16
  acc := dh.extractLsb' 20 4 ++ dh.extractLsb' 8 8

/-- The entry is that of a code or data segment, and it is present. -/
def Present (d : SegDescr) : Prop := d.acc.getLsbD 4 = true ∧ d.acc.getLsbD 7 = true

instance (d : SegDescr) : Decidable d.Present := by
  unfold Present
  infer_instance

/-- The limit in bytes: with the granularity bit set it counts pages. -/
def byteLimit (d : SegDescr) : U32 :=
  if d.acc.getLsbD 11 then BitVec.ofNat 32 (d.limit.toNat * 4096 + 4095)
  else BitVec.ofNat 32 d.limit.toNat

/-- The segment cache after the load. -/
def cache (d : SegDescr) (v : U16) : Sel := ⟨d.base, d.byteLimit, v, d.acc.setWidth 16⟩

end SegDescr

/-! ### Bit fields -/

theorem extract_high {m n : Nat} (x : BitVec m) (y : BitVec n) (s k : Nat) :
    (x ++ y).extractLsb' (n + s) k = x.extractLsb' s k := by
  apply BitVec.eq_of_getLsbD_eq
  intro i hi
  rw [BitVec.getLsbD_extractLsb', BitVec.getLsbD_extractLsb', BitVec.getLsbD_append,
    if_neg (by omega), show n + s + i - n = s + i by omega]

theorem extract_low {m n : Nat} (x : BitVec m) (y : BitVec n) {s k : Nat} (h : s + k ≤ n) :
    (x ++ y).extractLsb' s k = y.extractLsb' s k := by
  apply BitVec.eq_of_getLsbD_eq
  intro i hi
  rw [BitVec.getLsbD_extractLsb', BitVec.getLsbD_extractLsb', BitVec.getLsbD_append,
    if_pos (by omega)]

theorem extract_join {w : Nat} (x : BitVec w) (s m n : Nat) :
    x.extractLsb' (s + n) m ++ x.extractLsb' s n = x.extractLsb' s (m + n) := by
  apply BitVec.eq_of_getLsbD_eq
  intro i hi
  rw [BitVec.getLsbD_append, BitVec.getLsbD_extractLsb', BitVec.getLsbD_extractLsb',
    BitVec.getLsbD_extractLsb', decide_eq_true hi]
  by_cases hin : i < n
  · rw [if_pos hin, decide_eq_true hin]
  · rw [if_neg hin, decide_eq_true (by omega), show s + n + (i - n) = s + i by omega]

theorem extract_self {w : Nat} (x : BitVec w) : x.extractLsb' 0 w = x := BitVec.extractLsb'_eq_self

theorem ofEntry_encode (d : SegDescr) : SegDescr.ofEntry d.encode.1 d.encode.2 = d := by
  obtain ⟨base, limit, acc⟩ := d
  have hbase : (SegDescr.ofEntry (SegDescr.encode ⟨base, limit, acc⟩).1
      (SegDescr.encode ⟨base, limit, acc⟩).2).base = base := by
    show _ ++ _ ++ _ = base
    rw [show (SegDescr.encode ⟨base, limit, acc⟩).2.extractLsb' 24 8 = base.extractLsb' 24 8 from
        (extract_high _ _ 16 8).trans ((extract_high _ _ 8 8).trans ((extract_high _ _ 4 8).trans
          ((extract_high _ _ 0 8).trans (extract_self _)))),
      show (SegDescr.encode ⟨base, limit, acc⟩).2.extractLsb' 0 8 = base.extractLsb' 16 8 from
        (extract_low _ _ (by decide)).trans (extract_self _),
      show (SegDescr.encode ⟨base, limit, acc⟩).1.extractLsb' 16 16 = base.extractLsb' 0 16 from
        (extract_high _ _ 0 16).trans (extract_self _),
      extract_join base 16 8 8]
    exact (extract_join base 0 16 16).trans (extract_self base)
  have hlimit : (SegDescr.ofEntry (SegDescr.encode ⟨base, limit, acc⟩).1
      (SegDescr.encode ⟨base, limit, acc⟩).2).limit = limit := by
    show _ ++ _ = limit
    rw [show (SegDescr.encode ⟨base, limit, acc⟩).2.extractLsb' 16 4 = limit.extractLsb' 16 4 from
        (extract_high _ _ 8 4).trans ((extract_high _ _ 0 4).trans
          ((extract_low _ _ (by decide)).trans (extract_self _))),
      show (SegDescr.encode ⟨base, limit, acc⟩).1.extractLsb' 0 16 = limit.extractLsb' 0 16 from
        (extract_low _ _ (by decide)).trans (extract_self _)]
    exact (extract_join limit 0 4 16).trans (extract_self limit)
  have hacc : (SegDescr.ofEntry (SegDescr.encode ⟨base, limit, acc⟩).1
      (SegDescr.encode ⟨base, limit, acc⟩).2).acc = acc := by
    show _ ++ _ = acc
    rw [show (SegDescr.encode ⟨base, limit, acc⟩).2.extractLsb' 20 4 = acc.extractLsb' 8 4 from
        (extract_high _ _ 12 4).trans ((extract_high _ _ 4 4).trans ((extract_high _ _ 0 4).trans
          ((extract_low _ _ (by decide)).trans (extract_self _)))),
      show (SegDescr.encode ⟨base, limit, acc⟩).2.extractLsb' 8 8 = acc.extractLsb' 0 8 from
        (extract_high _ _ 0 8).trans ((extract_low _ _ (by decide)).trans (extract_self _))]
    exact (extract_join acc 0 4 8).trans (extract_self acc)
  exact SegDescr.ext hbase hlimit hacc

theorem encode_ofEntry (dl dh : U32) : (SegDescr.ofEntry dl dh).encode = (dl, dh) := by
  refine Prod.ext ?_ ?_
  · show (SegDescr.ofEntry dl dh).base.extractLsb' 0 16 ++
      (SegDescr.ofEntry dl dh).limit.extractLsb' 0 16 = dl
    rw [show (SegDescr.ofEntry dl dh).base.extractLsb' 0 16 = dl.extractLsb' 16 16 from
        (extract_low _ _ (by decide)).trans (extract_self _),
      show (SegDescr.ofEntry dl dh).limit.extractLsb' 0 16 = dl.extractLsb' 0 16 from
        (extract_low _ _ (by decide)).trans (extract_self _)]
    exact (extract_join dl 0 16 16).trans (extract_self dl)
  · show (SegDescr.ofEntry dl dh).base.extractLsb' 24 8 ++
      (SegDescr.ofEntry dl dh).acc.extractLsb' 8 4 ++
      (SegDescr.ofEntry dl dh).limit.extractLsb' 16 4 ++
      (SegDescr.ofEntry dl dh).acc.extractLsb' 0 8 ++
      (SegDescr.ofEntry dl dh).base.extractLsb' 16 8 = dh
    rw [show (SegDescr.ofEntry dl dh).base.extractLsb' 24 8 = dh.extractLsb' 24 8 from
        (extract_high _ _ 8 8).trans ((extract_high _ _ 0 8).trans (extract_self _)),
      show (SegDescr.ofEntry dl dh).acc.extractLsb' 8 4 = dh.extractLsb' 20 4 from
        (extract_high _ _ 0 4).trans (extract_self _),
      show (SegDescr.ofEntry dl dh).limit.extractLsb' 16 4 = dh.extractLsb' 16 4 from
        (extract_high _ _ 0 4).trans (extract_self _),
      show (SegDescr.ofEntry dl dh).acc.extractLsb' 0 8 = dh.extractLsb' 8 8 from
        (extract_low _ _ (by decide)).trans (extract_self _),
      show (SegDescr.ofEntry dl dh).base.extractLsb' 16 8 = dh.extractLsb' 0 8 from
        (extract_high _ _ 0 8).trans ((extract_low _ _ (by decide)).trans (extract_self _)),
      extract_join dh 20 8 4, extract_join dh 16 12 4, extract_join dh 8 16 8]
    exact (extract_join dh 0 24 8).trans (extract_self dh)

/-- The bits `s` to `s + n - 1`, where they stand. -/
theorem and_ones (x : U32) (s n : Nat) :
    x &&& ((BitVec.allOnes n).setWidth 32 <<< s) = ((x >>> s).setWidth n).setWidth 32 <<< s := by
  apply BitVec.eq_of_getLsbD_eq
  intro i hi
  simp only [BitVec.getLsbD_and, BitVec.getLsbD_shiftLeft, BitVec.getLsbD_setWidth,
    BitVec.getLsbD_allOnes, BitVec.getLsbD_ushiftRight]
  by_cases h : i < s
  · simp [h]
  · rw [Nat.add_sub_cancel' (Nat.le_of_not_lt h)]
    cases x.getLsbD i <;> simp

theorem toNat_and_ones (x : U32) {s n : Nat} (h : s + n ≤ 32) :
    (x &&& ((BitVec.allOnes n).setWidth 32 <<< s)).toNat = x.toNat / 2 ^ s % 2 ^ n * 2 ^ s := by
  have hlt : x.toNat / 2 ^ s % 2 ^ n < 2 ^ n := Nat.mod_lt _ (Nat.two_pow_pos n)
  have hn : 2 ^ n ≤ 2 ^ (32 - s) := Nat.pow_le_pow_right (by decide) (by omega)
  have hprod : x.toNat / 2 ^ s % 2 ^ n * 2 ^ s < 2 ^ 32 := by
    have hpow : 2 ^ (32 - s) * 2 ^ s = 2 ^ 32 := by
      rw [← Nat.pow_add, Nat.sub_add_cancel (by omega)]
    rw [← hpow]
    exact (Nat.mul_lt_mul_right (Nat.two_pow_pos s)).mpr (Nat.lt_of_lt_of_le hlt hn)
  rw [and_ones, BitVec.toNat_shiftLeft, BitVec.toNat_setWidth, BitVec.toNat_setWidth,
    BitVec.toNat_ushiftRight, Nat.shiftRight_eq_div_pow, Nat.shiftLeft_eq,
    Nat.mod_eq_of_lt (a := x.toNat / 2 ^ s % 2 ^ n), Nat.mod_eq_of_lt hprod]
  exact Nat.lt_of_le_of_lt (Nat.le_mul_of_pos_right _ (Nat.two_pow_pos s)) hprod

/-- The masks of `decode_descriptor`. -/
theorem toNat_masks (x : U32) :
    (x &&& 0xffff).toNat = x.toNat % 0x10000 ∧ (x &&& 0xff).toNat = x.toNat % 0x100 ∧
      (x &&& 0xff000000).toNat = x.toNat / 0x1000000 * 0x1000000 ∧
      (x &&& 0xf0000).toNat = x.toNat / 0x10000 % 0x10 * 0x10000 ∧
      (x &&& 0xf00).toNat = x.toNat / 0x100 % 0x10 * 0x100 := by
  have hx := x.isLt
  refine ⟨(toNat_and_ones x (s := 0) (n := 16) (by decide)).trans ?_,
    (toNat_and_ones x (s := 0) (n := 8) (by decide)).trans ?_,
    (toNat_and_ones x (s := 24) (n := 8) (by decide)).trans ?_,
    toNat_and_ones x (s := 16) (n := 4) (by decide), toNat_and_ones x (s := 8) (n := 4) (by decide)⟩
  all_goals omega

theorem descrAcc_eq (dl dh : U32) :
    descrAcc dh = (SegDescr.ofEntry dl dh).acc.setWidth 16 := by
  have hdh := dh.isLt
  have hdiv : dh.toNat / 2 ^ 12 / 0x100 = dh.toNat / 2 ^ 20 := Nat.div_div_eq_div_mul _ _ _
  have hdef : descrAcc dh =
      (((dh >>> 8) &&& (0xff : U32)) + ((dh >>> 12) &&& (0xf00 : U32))).setWidth 16 := rfl
  apply BitVec.eq_of_toNat_eq
  simp only [hdef, SegDescr.ofEntry, BitVec.toNat_setWidth, BitVec.toNat_add, (toNat_masks _).2.1,
    (toNat_masks _).2.2.2.2, BitVec.toNat_ushiftRight, toNat_fields, BitVec.extractLsb'_toNat,
    Nat.shiftRight_eq_div_pow, hdiv]
  omega

theorem descrBase_eq (dl dh : U32) :
    ((dl >>> 16) &&& (0xffff : U32)) + ((dh &&& (0xff : U32)) <<< 16) + (dh &&& 0xff000000) =
      (SegDescr.ofEntry dl dh).base := by
  have hdl := dl.isLt
  have hdh := dh.isLt
  apply BitVec.eq_of_toNat_eq
  simp only [SegDescr.ofEntry, BitVec.toNat_add, BitVec.toNat_shiftLeft, (toNat_masks _).1,
    (toNat_masks _).2.1, (toNat_masks _).2.2.1, BitVec.toNat_ushiftRight, toNat_fields,
    BitVec.extractLsb'_toNat, Nat.shiftRight_eq_div_pow, Nat.shiftLeft_eq]
  omega

/-- The limit before it is scaled. -/
theorem toNat_descrLimit (dl dh : U32) : ((dl &&& 0xffff) + (dh &&& 0xf0000) : U32).toNat =
    (SegDescr.ofEntry dl dh).limit.toNat := by
  have hdl := dl.isLt
  have hdh := dh.isLt
  simp only [SegDescr.ofEntry, BitVec.toNat_add, (toNat_masks _).1, (toNat_masks _).2.2.2.1,
    toNat_fields, BitVec.extractLsb'_toNat, Nat.shiftRight_eq_div_pow]
  omega

theorem getLsbD_descrAcc (dl dh : U32) {i : Nat} (hi : i < 12) :
    (descrAcc dh).getLsbD i = (SegDescr.ofEntry dl dh).acc.getLsbD i := by
  rw [descrAcc_eq dl, BitVec.getLsbD_setWidth, decide_eq_true (by omega), Bool.true_and]

theorem descrLimit_eq (dl dh : U32) :
    (if accG (descrAcc dh) then (((dl &&& 0xffff) + (dh &&& 0xf0000)) <<< 12) + 0xfff
      else (dl &&& 0xffff) + (dh &&& 0xf0000)) = (SegDescr.ofEntry dl dh).byteLimit := by
  have hlimit := (SegDescr.ofEntry dl dh).limit.isLt
  have hraw := toNat_descrLimit dl dh
  unfold accG SegDescr.byteLimit
  rw [getLsbD_descrAcc dl dh (by decide)]
  generalize (dl &&& 0xffff) + (dh &&& 0xf0000) = raw at hraw
  split
  · apply BitVec.eq_of_toNat_eq
    rw [BitVec.toNat_add, BitVec.toNat_shiftLeft, hraw, BitVec.toNat_ofNat, Nat.shiftLeft_eq,
      show (0xfff : U32).toNat = 4095 from rfl]
    omega
  · rw [← hraw, BitVec.ofNat_toNat, BitVec.setWidth_eq]

/-! ### `decode_descriptor` -/

/-- The fields that a system descriptor shares with a segment are not changed. -/
theorem withSystem_kept (d : Descr) (acc : U16) : (d.withSystem acc).base = d.base ∧
    (d.withSystem acc).limit = d.limit ∧ (d.withSystem acc).acc = d.acc ∧
    (d.withSystem acc).p = d.p ∧ (d.withSystem acc).seg = d.seg := by
  unfold Descr.withSystem
  dsimp only
  split <;> split <;> exact ⟨rfl, rfl, rfl, rfl, rfl⟩

theorem withSegment_kept (d : Descr) (acc : U16) : (d.withSegment acc).base = d.base ∧
    (d.withSegment acc).limit = d.limit ∧ (d.withSegment acc).acc = d.acc ∧
    (d.withSegment acc).p = d.p ∧ (d.withSegment acc).invalid = d.invalid ∧
    (d.withSegment acc).seg = true := by
  unfold Descr.withSegment
  dsimp only
  split <;> exact ⟨rfl, rfl, rfl, rfl, rfl, rfl⟩

/-- The cache that a descriptor is loaded into, for the descriptors that are accepted. -/
def Descr.loads (d : Descr) (v : U16) : Option Sel :=
  if !d.invalid && d.p && d.seg then some ⟨d.base, d.limit, v, d.acc⟩ else none

/-- The part of the descriptor that does not depend on its type. -/
def rawDescr (dl dh : U32) : Descr where
  acc := descrAcc dh
  base := ((dl >>> 16) &&& 0xffff) + ((dh &&& 0xff) <<< 16) + (dh &&& 0xff000000)
  limit := if accG (descrAcc dh) then (((dl &&& 0xffff) + (dh &&& 0xf0000)) <<< 12) + 0xfff
    else (dl &&& 0xffff) + (dh &&& 0xf0000)
  g := accG (descrAcc dh)
  p := accP (descrAcc dh)
  dpl := accDpl (descrAcc dh)

/-- The descriptor with the part for its type. -/
def typedDescr (dl dh : U32) : Descr :=
  if accS (descrAcc dh) then (rawDescr dl dh).withSegment (descrAcc dh)
  else (rawDescr dl dh).withSystem (descrAcc dh)

/-- Apart from the gate fields the two are the same. -/
theorem parse_typed (dl dh : U32) (v : U16) :
    (parseDescriptor dl dh).loads v = (typedDescr dl dh).loads v ∧
      (parseDescriptor dl dh).ldt = (typedDescr dl dh).ldt := by
  have hgate : ∀ (d : Descr) (o o' : U32) (sel sel' w w' : U16),
      (if d.isGate then { d with offset := o, sel := sel, wCount := w } else
        { d with offset := o', sel := sel', wCount := w' }).loads v = d.loads v ∧
      (if d.isGate then { d with offset := o, sel := sel, wCount := w } else
        { d with offset := o', sel := sel', wCount := w' }).ldt = d.ldt := by
    intro d o o' sel sel' w w'
    split <;> exact ⟨rfl, rfl⟩
  exact hgate (typedDescr dl dh) _ _ _ _ _ _

theorem parse_loads (dl dh : U32) (v : U16) : (parseDescriptor dl dh).loads v =
    if (SegDescr.ofEntry dl dh).Present then some ((SegDescr.ofEntry dl dh).cache v) else none := by
  have hpresent : (SegDescr.ofEntry dl dh).Present ↔
      accS (descrAcc dh) = true ∧ accP (descrAcc dh) = true := by
    unfold SegDescr.Present accS accP
    rw [getLsbD_descrAcc dl dh (by decide), getLsbD_descrAcc dl dh (by decide)]
  have hcache : (SegDescr.ofEntry dl dh).cache v =
      ⟨(rawDescr dl dh).base, (rawDescr dl dh).limit, v, (rawDescr dl dh).acc⟩ := by
    unfold SegDescr.cache rawDescr
    rw [← descrBase_eq, ← descrLimit_eq, ← descrAcc_eq dl]
    rfl
  rw [(parse_typed dl dh v).1, hcache]
  unfold Descr.loads typedDescr
  cases hs : accS (descrAcc dh) with
  | true =>
    obtain ⟨hbase, hlimit, hacc, hp, hinv, hseg⟩ := withSegment_kept (rawDescr dl dh) (descrAcc dh)
    rw [if_pos rfl, hbase, hlimit, hacc, hp, hinv, hseg,
      show (rawDescr dl dh).p = accP (descrAcc dh) from rfl,
      show (rawDescr dl dh).invalid = false from rfl]
    cases hpv : accP (descrAcc dh) with
    | true => exact (if_pos (hpresent.mpr ⟨hs, hpv⟩)).symm
    | false =>
      refine (if_neg fun h => ?_).symm
      exact Bool.false_ne_true (hpv.symm.trans (hpresent.mp h).2)
  | false =>
    obtain ⟨-, -, -, -, hseg⟩ := withSystem_kept (rawDescr dl dh) (descrAcc dh)
    rw [if_neg Bool.false_ne_true, hseg, show (rawDescr dl dh).seg = false from rfl, Bool.and_false,
      if_neg Bool.false_ne_true, if_neg]
    exact fun h => Bool.false_ne_true (hs.symm.trans (hpresent.mp h).1)

/-! ## The load -/

/-- The offset of the entry in its table. -/
def entryOfs (v : U16) : U32 := v.setWidth 32 &&& ~~~7

/-- The linear address of the entry. -/
def Cpu.entryAddr (c : Cpu) (v : U16) : U32 := (c.descrTable v).1 + entryOfs v

/-- The entry lies within the limit of its table. -/
def Cpu.EntryInside (c : Cpu) (v : U16) : Prop := entryOfs v + 7 ≤ (c.descrTable v).2

instance (c : Cpu) (v : U16) : Decidable (c.EntryInside v) :=
  inferInstanceAs (Decidable (entryOfs v + 7 ≤ (c.descrTable v).2))

/-- The two dwords of the entry, if both can be read. -/
def St.entryDwords (s : St) (v : U16) : Option (U32 × U32) :=
  let lo := (s.mem.access .r .b32 (s.cpu.entryAddr v) 0).1
  let hi := (s.mem.access .r .b32 (s.cpu.entryAddr v + 4) 0).1
  if lo.2 || hi.2 then none else some (lo.1, hi.1)

/-- The new segment cache in protected mode, if there is no error. -/
def St.newCache (s : St) (v : U16) : Option Sel :=
  if entryOfs v = 0 then some {}
  else if s.cpu.EntryInside v then
    (s.entryDwords v).bind fun e => (parseDescriptor e.1 e.2).loads v
  else none

/-- The state after the entry is read. -/
def St.entryRead (s : St) (v : U16) : St :=
  if entryOfs v ≠ 0 ∧ s.cpu.EntryInside v then
    (s.accessed .r .b32 (s.cpu.entryAddr v) 0).accessed .r .b32 (s.cpu.entryAddr v + 4) 0
  else s

/-- `x86emu_set_seg_register` -/
def St.segLoaded (s : St) (ref : SelRef) (v : U16) : St :=
  if s.cpu.prot then
    match s.newCache v with
    | some sel => (s.entryRead v).put (·.setSel ref sel)
    | none => (s.entryRead v).raisedGp (v.setWidth 32)
  else
    s.put fun c => c.setSel ref { c.getSel ref with sel := v, base := v.setWidth 32 <<< 4 }

section

variable {inp : PortInput} {h : Host} (hh : h.Blind inp)

omit hh in
theorem loadDescriptor_eq (ref : SelRef) (v : U16) : loadDescriptor ref v = (do
    let c ← getCpu
    if entryOfs v = 0 then
      setSel ref {}
      return false
    else if c.EntryInside v then
      let (dl, err₀) ← emuMemio .r .b32 (c.entryAddr v) 0
      let (dh, err₁) ← emuMemio .r .b32 (c.entryAddr v + 4) 0
      if err₀ || err₁ then
        return true
      else
        let d ← decodeDescriptor dl dh
        if !d.invalid && d.p && d.seg then
          setSel ref ⟨d.base, d.limit, v, d.acc⟩
          return false
        else
          return true
    else
      return true) := by
  rfl

include hh

theorem seen_decodeDescriptor (dl dh : U32) (s : St) :
    seen h (decodeDescriptor dl dh) s = (parseDescriptor dl dh, s.view) :=
  seen_step hh (seen_writeLog hh _ _ _ _ s)

theorem seen_loadDescriptor (ref : SelRef) (v : U16) (s : St) :
    seen h (loadDescriptor ref v) s = ((s.newCache v).isNone, (match s.newCache v with
      | some sel => (s.entryRead v).put (·.setSel ref sel)
      | none => s.entryRead v).view) := by
  rw [loadDescriptor_eq, seen_step hh (seen_getCpu s), seen_ite]
  unfold St.newCache St.entryRead
  by_cases hnull : entryOfs v = 0
  · rw [if_pos hnull, if_pos hnull, if_neg (fun h => h.1 hnull), seen_step hh (seen_setSel _ _ s),
      seen_pure]
    rfl
  rw [if_neg hnull, if_neg hnull, seen_ite]
  by_cases hin : s.cpu.EntryInside v
  · have hread : ∀ addr t, seen h (emuMemio .r .b32 addr 0) t =
        ((t.mem.access .r .b32 addr 0).1, (t.accessed .r .b32 addr 0).view) :=
      fun addr t => seen_loggedMemio hh (Or.inl rfl) .b32 addr 0 t
    have hkept : ((s.mem.access .r .b32 (s.cpu.entryAddr v) 0).2.access .r .b32
        (s.cpu.entryAddr v + 4) 0).1 = (s.mem.access .r .b32 (s.cpu.entryAddr v + 4) 0).1 :=
      (Mem.Marked.access (by decide) _ _ _ s.mem).access_result (by decide) _ _ _
    have hread' : seen h (emuMemio .r .b32 (s.cpu.entryAddr v + 4) 0)
        (s.accessed .r .b32 (s.cpu.entryAddr v) 0) =
        ((s.mem.access .r .b32 (s.cpu.entryAddr v + 4) 0).1,
          ((s.accessed .r .b32 (s.cpu.entryAddr v) 0).accessed .r .b32
            (s.cpu.entryAddr v + 4) 0).view) :=
      (hread _ _).trans (congrArg (·, _) hkept)
    rw [if_pos hin, if_pos hin, if_pos ⟨hnull, hin⟩, seen_step hh (hread _ s), seen_step hh hread',
      seen_ite]
    unfold St.entryDwords
    dsimp only
    by_cases herr : ((s.mem.access .r .b32 (s.cpu.entryAddr v) 0).1.2 ||
        (s.mem.access .r .b32 (s.cpu.entryAddr v + 4) 0).1.2) = true
    · rw [if_pos herr, if_pos herr, seen_pure]
      rfl
    · rw [if_neg herr, if_neg herr, seen_step hh (seen_decodeDescriptor hh _ _ _), seen_ite]
      unfold Descr.loads
      rw [Option.bind_some]
      split
      · rw [seen_step hh (seen_setSel _ _ _), seen_pure]
        rfl
      · rw [seen_pure]
        rfl
  · rw [if_neg hin, if_neg hin, if_neg (fun h => hin h.2), seen_pure]
    rfl

theorem seen_setSegRegister (ref : SelRef) (v : U16) (s : St) :
    seen h (x86emuSetSegRegister ref v) s = ((), (s.segLoaded ref v).view) := by
  unfold x86emuSetSegRegister St.segLoaded
  rw [seen_step hh (seen_getCpu s), seen_ite]
  cases hprot : s.cpu.prot with
  | false =>
    rw [if_neg Bool.false_ne_true, if_neg Bool.false_ne_true, seen_setSel]
    rfl
  | true =>
    rw [if_pos rfl, if_pos rfl, seen_step hh (seen_loadDescriptor hh ref v s), seen_ite]
    cases hnew : s.newCache v with
    | none => exact seen_intrRaiseGp _ _
    | some sel => exact seen_pure _ _

end

/-! ## What a load is to do -/

/-- The entry `v >> 3` of the LDT or the GDT lies within the limit, both its dwords can be read, and
they are the image of `d`. -/
def St.Encodes (s : St) (v : U16) (d : SegDescr) : Prop :=
  let table := if v.getLsbD 2 then (s.cpu.ldt.base, s.cpu.ldt.limit)
    else (s.cpu.gdtBase, s.cpu.gdtLimit)
  let addr := table.1 + BitVec.ofNat 32 (8 * (v.toNat / 8))
  8 * (v.toNat / 8) + 7 ≤ table.2.toNat ∧
    (s.mem.access .r .b32 addr 0).1 = (d.encode.1, false) ∧
    (s.mem.access .r .b32 (addr + 4) 0).1 = (d.encode.2, false)

/-- The selector can be loaded in protected mode. -/
def St.Loadable (s : St) (v : U16) : Prop := ∃ d, s.Encodes v d ∧ d.Present

/-- Only the segment cache is changed, and nothing is raised. -/
def OnlySel (ref : SelRef) (sel : Sel) (s t : St) : Prop :=
  t.cpu = s.cpu.setSel ref sel ∧ t.intr = s.intr

/-- `#GP` is raised: it is pending unless another interrupt was. -/
def Faults (v : U16) (s t : St) : Prop :=
  t.cpu = s.cpu ∧ t.intr = (s.raisedGp (v.setWidth 32)).intr

/-- A load is exact, or it faults and changes nothing. -/
structure SegLoad (ref : SelRef) (v : U16) (s t : St) : Prop where
  real : s.cpu.prot = false → OnlySel ref
    { s.cpu.getSel ref with sel := v, base := BitVec.ofNat 32 (16 * v.toNat) } s t ∧ t.mem = s.mem
  null : s.cpu.prot = true → v.toNat ≤ 3 → OnlySel ref {} s t
  exact : s.cpu.prot = true → 3 < v.toNat → ∀ d, s.Encodes v d → d.Present →
    OnlySel ref (d.cache v) s t
  atomic : s.cpu.prot = true → 3 < v.toNat → ¬s.Loadable v → Faults v s t
  data : s.mem.Marked t.mem

theorem toNat_entryOfs (v : U16) : (entryOfs v).toNat = 8 * (v.toNat / 8) := by
  have hv := v.isLt
  have hmask : ~~~(7 : U32) = (BitVec.allOnes 29).setWidth 32 <<< 3 := rfl
  unfold entryOfs
  rw [hmask, toNat_and_ones _ (by decide), BitVec.toNat_setWidth_of_le (by decide)]
  omega

theorem entryOfs_eq (v : U16) : entryOfs v = BitVec.ofNat 32 (8 * (v.toNat / 8)) := by
  rw [← toNat_entryOfs, BitVec.ofNat_toNat, BitVec.setWidth_eq]

theorem entryInside_iff (c : Cpu) (v : U16) :
    c.EntryInside v ↔ 8 * (v.toNat / 8) + 7 ≤ (c.descrTable v).2.toNat := by
  have hv := v.isLt
  have hofs := toNat_entryOfs v
  unfold Cpu.EntryInside
  rw [BitVec.le_def, BitVec.toNat_add, hofs, show (7 : U32).toNat = 7 from rfl]
  omega

/-- The entries read are the images of what they are decoded to. -/
theorem encodes_iff (s : St) (v : U16) (d : SegDescr) :
    s.Encodes v d ↔ s.cpu.EntryInside v ∧ s.entryDwords v = some d.encode := by
  have htable : (if v.getLsbD 2 then (s.cpu.ldt.base, s.cpu.ldt.limit)
      else (s.cpu.gdtBase, s.cpu.gdtLimit)) = s.cpu.descrTable v := rfl
  unfold St.Encodes
  simp only [htable, ← entryOfs_eq]
  rw [← entryInside_iff]
  refine and_congr_right fun _ => ?_
  unfold St.entryDwords Cpu.entryAddr
  generalize s.mem.access .r .b32 ((s.cpu.descrTable v).1 + entryOfs v) 0 = lo
  generalize s.mem.access .r .b32 ((s.cpu.descrTable v).1 + entryOfs v + 4) 0 = hi
  obtain ⟨⟨lo, err₀⟩, -⟩ := lo
  obtain ⟨⟨hi, err₁⟩, -⟩ := hi
  cases err₀ <;> cases err₁ <;> simp [Prod.ext_iff]

theorem newCache_eq_some {s : St} {v : U16} (hv : 7 < v.toNat) (sel : Sel) :
    s.newCache v = some sel ↔ ∃ d, s.Encodes v d ∧ d.Present ∧ sel = d.cache v := by
  have hofs : entryOfs v ≠ 0 := by
    intro h
    have hzero := toNat_entryOfs v
    rw [h, show (0 : U32).toNat = 0 from rfl] at hzero
    omega
  unfold St.newCache
  rw [if_neg hofs]
  constructor
  · intro h
    split at h
    · next hin =>
      obtain ⟨e, hread, hload⟩ := Option.bind_eq_some_iff.mp h
      rw [parse_loads] at hload
      split at hload
      · next hpresent =>
        refine ⟨SegDescr.ofEntry e.1 e.2, (encodes_iff s v _).mpr ⟨hin, ?_⟩, hpresent,
          (Option.some.inj hload).symm⟩
        rw [encode_ofEntry]
        exact hread
      · exact absurd hload (by simp)
    · exact absurd h (by simp)
  · rintro ⟨d, hd, hpresent, rfl⟩
    obtain ⟨hin, hread⟩ := (encodes_iff s v d).mp hd
    rw [if_pos hin, hread, Option.bind_some, parse_loads, ofEntry_encode, if_pos hpresent]

theorem entryOfs_eq_zero {v : U16} (hv : v.toNat ≤ 7) : entryOfs v = 0 := by
  apply BitVec.eq_of_toNat_eq
  rw [toNat_entryOfs, show (0 : U32).toNat = 0 from rfl]
  omega

theorem getSel_setSel (c : Cpu) (ref : SelRef) (v : Sel) : (c.setSel ref v).getSel ref = v := by
  cases ref with
  | seg r => exact Function.update_self r v c.seg
  | ldt => rfl

theorem setSel_getSel (c : Cpu) (ref : SelRef) : c.setSel ref (c.getSel ref) = c := by
  cases ref with
  | seg r => exact congrArg (fun f => { c with seg := f }) (Function.update_eq_self r c.seg)
  | ldt => rfl

theorem entryRead_kept (s : St) (v : U16) : (s.entryRead v).cpu = s.cpu ∧
    (s.entryRead v).intr = s.intr ∧ s.mem.Marked (s.entryRead v).mem := by
  unfold St.entryRead
  split
  · have hread : ∀ (addr : U32) (mem : Mem),
        mem.Marked (mem.access .r MemioWidth.b32.bits addr 0).2 :=
      fun addr mem => .access (by decide) _ addr 0 mem
    exact ⟨rfl, rfl, (hread _ _).trans (hread _ _)⟩
  · exact ⟨rfl, rfl, .refl _⟩

/-- The three outcomes of a load in protected mode. -/
theorem segLoaded_some {s : St} (hprot : s.cpu.prot = true) {v : U16} {sel : Sel}
    (hnew : s.newCache v = some sel) (ref : SelRef) : OnlySel ref sel s (s.segLoaded ref v) := by
  obtain ⟨hcpu, hintr, -⟩ := entryRead_kept s v
  unfold St.segLoaded
  rw [if_pos hprot, hnew]
  exact ⟨congrArg (·.setSel ref sel) hcpu, hintr⟩

theorem segLoaded_none {s : St} (hprot : s.cpu.prot = true) {v : U16}
    (hnew : s.newCache v = none) (ref : SelRef) : Faults v s (s.segLoaded ref v) := by
  obtain ⟨hcpu, hintr, -⟩ := entryRead_kept s v
  unfold St.segLoaded
  rw [if_pos hprot, hnew]
  refine ⟨hcpu, ?_⟩
  show (if (s.entryRead v).intr.type = 0 then _ else (s.entryRead v).intr) = _
  rw [hintr]
  rfl

theorem newCache_eq_null {v : U16} (hv : v.toNat ≤ 7) (s : St) : s.newCache v = some {} :=
  if_pos (entryOfs_eq_zero hv)

theorem segLoaded_marked (s : St) (ref : SelRef) (v : U16) :
    s.mem.Marked (s.segLoaded ref v).mem := by
  obtain ⟨-, -, hmem⟩ := entryRead_kept s v
  unfold St.segLoaded
  split
  · split <;> exact hmem
  · exact .refl _

/-- A load writes no more than the segment cache. -/
theorem segLoaded_cpu (s : St) (ref : SelRef) (v : U16) :
    ∃ sel, (s.segLoaded ref v).cpu = s.cpu.setSel ref sel := by
  obtain ⟨hcpu, -, -⟩ := entryRead_kept s v
  unfold St.segLoaded
  split
  · split
    · next sel _ => exact ⟨sel, congrArg (·.setSel ref sel) hcpu⟩
    · exact ⟨s.cpu.getSel ref, hcpu.trans (setSel_getSel s.cpu ref).symm⟩
  · exact ⟨_, rfl⟩

theorem segLoaded_real {s : St} (hreal : s.cpu.prot = false) (ref : SelRef) (v : U16) :
    SegLoad ref v s (s.segLoaded ref v) := by
  have hprot : ¬s.cpu.prot = true := by simp [hreal]
  have hbase : v.setWidth 32 <<< 4 = BitVec.ofNat 32 (16 * v.toNat) := by
    have hv := v.isLt
    apply BitVec.eq_of_toNat_eq
    rw [BitVec.toNat_shiftLeft, BitVec.toNat_setWidth, BitVec.toNat_ofNat, Nat.shiftLeft_eq]
    omega
  refine ⟨fun _ => ?_, fun h => absurd h hprot, fun h => absurd h hprot, fun h => absurd h hprot,
    segLoaded_marked s ref v⟩
  unfold St.segLoaded
  rw [if_neg hprot, hbase]
  exact ⟨⟨rfl, rfl⟩, rfl⟩

/-- Only the selectors 4 to 7 are not loaded as they should be in protected mode. -/
theorem segLoaded_prot {s : St} (hprot : s.cpu.prot = true) (ref : SelRef) {v : U16}
    (hv : v.toNat ≤ 3 ∨ 7 < v.toNat) : SegLoad ref v s (s.segLoaded ref v) := by
  refine ⟨fun h => absurd (hprot.symm.trans h) (by decide), ?_, ?_, ?_, segLoaded_marked s ref v⟩
  · intro _ hnull
    exact segLoaded_some hprot (newCache_eq_null (by omega) s) ref
  · intro _ hne d hd hpresent
    exact segLoaded_some hprot ((newCache_eq_some (by omega) _).mpr ⟨d, hd, hpresent, rfl⟩) ref
  · intro _ hne hload
    refine segLoaded_none hprot ?_ ref
    rcases hnew : s.newCache v with _ | sel
    · rfl
    · obtain ⟨d, hd, hpresent, -⟩ := (newCache_eq_some (by omega) sel).mp hnew
      exact absurd ⟨d, hd, hpresent⟩ hload

/-- The first entry of the LDT is taken for null; this shows if the entry can be loaded, if the
cache was not null before, or if the `#GP` would be the pending interrupt. -/
theorem segLoaded_first {s : St} (hprot : s.cpu.prot = true) (ref : SelRef) {v : U16}
    (hlow : 3 < v.toNat) (hhigh : v.toNat ≤ 7) : SegLoad ref v s (s.segLoaded ref v) ↔
      ¬s.Loadable v ∧ s.cpu.getSel ref = {} ∧ s.intr.type ≠ 0 := by
  obtain ⟨hcpu, hintr⟩ := segLoaded_some hprot (newCache_eq_null hhigh s) ref
  constructor
  · intro hload
    have hnot : ¬s.Loadable v := by
      rintro ⟨d, hd, hpresent⟩
      have hsel := congrArg (·.getSel ref)
        (hcpu.symm.trans (hload.exact hprot hlow d hd hpresent).1)
      rw [getSel_setSel, getSel_setSel] at hsel
      have hzero : (0 : U16) = v := congrArg Sel.sel hsel
      rw [← hzero] at hlow
      exact absurd hlow (by decide)
    obtain ⟨hkept, hraised⟩ := hload.atomic hprot hlow hnot
    refine ⟨hnot, ?_, ?_⟩
    · rw [← getSel_setSel s.cpu ref {}, ← hcpu, hkept]
    · intro hidle
      have htype : (s.raisedGp (v.setWidth 32)).intr.type = s.intr.type :=
        congrArg Intr.type (hraised.symm.trans hintr)
      rw [St.raisedGp, St.raised, hidle] at htype
      exact absurd htype (by decide : intrTypeFault ||| intrModeRestart ||| intrModeErrcode ≠ 0)
  · rintro ⟨hnot, hsel, hbusy⟩
    refine ⟨fun h => absurd (hprot.symm.trans h) (by decide), fun _ h => absurd hlow (by omega),
      fun _ _ d hd hpresent => absurd ⟨d, hd, hpresent⟩ hnot, fun _ _ _ => ⟨?_, ?_⟩,
      segLoaded_marked s ref v⟩
    · rw [hcpu, ← hsel, setSel_getSel]
    · rw [hintr, St.raisedGp, St.raised, if_neg hbusy]

theorem SegLoad.congr {ref : SelRef} {v : U16} {s t t' : St} (hcpu : t'.cpu = t.cpu)
    (hintr : t'.intr = t.intr) (hmem : t'.mem = t.mem) (h : SegLoad ref v s t) :
    SegLoad ref v s t' := by
  obtain ⟨hreal, hnull, hexact, hatomic, hdata⟩ := h
  constructor <;> simp only [OnlySel, Faults, hcpu, hintr, hmem] at * <;> assumption

/-- States with the same view have these parts in common. -/
theorem view_parts {t t' : St} (hview : t.view = t'.view) :
    t.cpu = t'.cpu ∧ t.mem = t'.mem ∧ t.intr = t'.intr :=
  ⟨(congrArg St.cpu hview : t.view.cpu = t'.view.cpu),
    (congrArg St.mem hview : t.view.mem = t'.view.mem),
    (congrArg St.intr hview : t.view.intr = t'.view.intr)⟩

theorem segLoad_seen {inp : PortInput} {h : Host} (hh : h.Blind inp) (ref : SelRef) (v : U16)
    (s : St) : SegLoad ref v s ((x86emuSetSegRegister ref v).run h s).2 ↔
      SegLoad ref v s (s.segLoaded ref v) := by
  obtain ⟨hcpu, hmem, hintr⟩ := view_parts (congrArg Prod.snd (seen_setSegRegister hh ref v s))
  exact ⟨.congr hcpu.symm hintr.symm hmem.symm, .congr hcpu hintr hmem⟩

/-- A load is exact and atomic but for the first entry of the LDT in protected mode. -/
theorem segLoad_iff {inp : PortInput} {h : Host} (hh : h.Blind inp) (ref : SelRef) (v : U16)
    (s : St) : SegLoad ref v s ((x86emuSetSegRegister ref v).run h s).2 ↔
      ¬(s.cpu.prot = true ∧ 4 ≤ v.toNat ∧ v.toNat ≤ 7) ∨
        (¬s.Loadable v ∧ s.cpu.getSel ref = {} ∧ s.intr.type ≠ 0) := by
  rw [segLoad_seen hh]
  by_cases hfirst : s.cpu.prot = true ∧ 4 ≤ v.toNat ∧ v.toNat ≤ 7
  · obtain ⟨hprot, hlow, hhigh⟩ := hfirst
    rw [segLoaded_first hprot ref hlow hhigh]
    exact ⟨Or.inr, fun h => h.resolve_left fun hn => hn ⟨hprot, hlow, hhigh⟩⟩
  · refine iff_of_true ?_ (Or.inl hfirst)
    cases hprot : s.cpu.prot with
    | false => exact segLoaded_real hprot ref v
    | true =>
      refine segLoaded_prot hprot ref ?_
      by_contra hv
      exact hfirst ⟨hprot, by omega, by omega⟩

/-- Protected mode, with a data segment over all of memory in the second entry of the GDT. -/
def flatState : St where
  cpu := { resetCpu with crx := Function.update resetCpu.crx 0 1 }
  mem := fullMem fun i =>
    match i.toNat with
    | 8 | 9 => 0xff
    | 13 => 0x93
    | 14 => 0xcf
    | _ => 0

theorem segLoad_iff_flat :
    SegLoad (.seg .ds) 8 flatState
      ((x86emuSetSegRegister (.seg .ds) 8).run (defaultHost fun _ _ _ => 0) flatState).2 :=
  (segLoad_iff (defaultHost_default _).blind (.seg .ds) 8 flatState).mpr (Or.inl (by decide))

/-- In protected mode, without a LDT: selector 4 is loaded into the data segment. -/
theorem segLoad_fails :
    let s : St := { cpu := { resetCpu with crx := Function.update resetCpu.crx 0 1 } }
    ¬SegLoad (.seg .ds) 4 s
      ((x86emuSetSegRegister (.seg .ds) 4).run (defaultHost fun _ _ _ => 0) s).2 := by
  intro s hload
  rw [segLoad_seen (defaultHost_default _).blind,
    segLoaded_first (by decide) _ (by decide) (by decide)] at hload
  exact hload.2.2 rfl

end X86Emu
