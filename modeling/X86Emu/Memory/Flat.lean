import X86Emu.Lib.Cells
import X86Emu.Memory.Paged

/-!
# The flat memory

What the paged memory is for: a map from addresses to cells, each with an attribute and a data
byte. An access acts on one, two or four cells, one after the other in ascending address order, by
the byte rules of `vm_r_byte`, `vm_w_byte` and `vm_x_byte`. There are no pages here, nothing is
allocated and no attributes are packed.
-/

namespace X86Emu

open Lib

/-- A byte of memory with its attribute. -/
structure Cell where
  attr : U8
  data : U8
  deriving DecidableEq, Repr

abbrev Flat : Type := U32 → Cell

namespace Cell

/-- The rule of `vm_r_byte` and `vm_x_byte`: the permission it needs and the mark it leaves. The
result is the value read, and whether the access was invalid. -/
def fetch (perm acc : U8) (c : Cell) : (U8 × Bool) × Cell :=
  if c.attr.has perm then
    if (c.attr ||| acc).has permValid then ((c.data, false), { c with attr := c.attr ||| acc })
    else ((c.data, true), { c with attr := c.attr ||| acc ||| accInvalid })
  else ((0xff, true), c)

/-- The rule of `vm_w_byte`. -/
def write (val : U8) (c : Cell) : (U8 × Bool) × Cell :=
  if c.attr.has permW then
    ((val, false), ⟨c.attr ||| (permValid ||| accWrite), val⟩)
  else ((val, true), { c with attr := c.attr ||| accInvalid })

/-- The rule of `vm_r_byte_noperm`. -/
def readNoperm (c : Cell) : (U8 × Bool) × Cell := ((c.data, false), c)

/-- The rule of `vm_w_byte_noperm`. -/
def writeNoperm (val : U8) (c : Cell) : (U8 × Bool) × Cell :=
  ((val, false), ⟨c.attr ||| (permValid ||| accWrite), val⟩)

/-- The byte rule of an access; `val` is the byte it writes. -/
def rule (kind : MemioKind) (bits : MemioBits) (val : U8) : Cell → (U8 × Bool) × Cell :=
  match kind, bits with
  | .r, .b8noperm => readNoperm
  | .r, _ => fetch permR accRead
  | .w, .b8noperm => writeNoperm val
  | .w, _ => write val
  | .x, _ => fetch permX accExec
  | _, _ => fun c => ((val, false), c)

end Cell

section Rules

variable {bits : MemioBits} (hbits : bits ≠ .b8noperm) (v : U8) {c : Cell}

include hbits in
theorem rule_read : Cell.rule .r bits v = Cell.fetch permR accRead := by
  cases bits with
  | b8noperm => exact absurd rfl hbits
  | _ => rfl

include hbits in
theorem rule_write : Cell.rule .w bits v = Cell.write v := by
  cases bits with
  | b8noperm => exact absurd rfl hbits
  | _ => rfl

theorem fetch_refused (perm acc : U8) (hperm : c.attr.has perm = false) :
    Cell.fetch perm acc c = ((0xff, true), c) := by
  unfold Cell.fetch
  rw [if_neg (by rw [hperm]; exact Bool.false_ne_true)]

theorem write_refused (hperm : c.attr.has permW = false) :
    Cell.write v c = ((v, true), { c with attr := c.attr ||| accInvalid }) := by
  unfold Cell.write
  rw [if_neg (by rw [hperm]; exact Bool.false_ne_true)]

end Rules

/-! ## Accesses -/

/-- How many bytes a memory access has; `vm_memio` knows no execution without permissions, and the
other kinds are for ports. -/
def accessWidth (kind : MemioKind) (bits : MemioBits) : Nat :=
  match kind, bits with
  | .x, .b8noperm => 0
  | .i, _ | .o, _ => 0
  | _, .b8 | _, .b8noperm => 1
  | _, .b16 => 2
  | _, .b32 => 4

/-- The `n` addresses from `addr` on, modulo 2^32, with the bytes of `x`. -/
def addrBytes {w : Nat} (n : Nat) (addr : U32) (x : BitVec w) : List (U32 × U8) :=
  (List.range n).map fun i => (addr + BitVec.ofNat 32 i, x.extractLsb' (8 * i) 8)

/-- The addresses of an access in ascending order, with the bytes to write. -/
def accessBytes (kind : MemioKind) (bits : MemioBits) (addr val : U32) : List (U32 × U8) :=
  addrBytes (accessWidth kind bits) addr val

/-- The little-endian number of the bytes read. -/
def leVal (bytes : List U8) : U32 :=
  match bytes with
  | [v0] => v0.setWidth 32
  | [v0, v1] => (v1 ++ v0).setWidth 32
  | [v0, v1, v2, v3] => (v3 ++ v2) ++ (v1 ++ v0)
  | _ => 0

/-- An access to the flat memory: the value left, whether it was invalid, and the memory after. -/
def Flat.access (f : Flat) (kind : MemioKind) (bits : MemioBits) (addr val : U32) :
    (U32 × Bool) × Flat :=
  let (res, f) := onCells (Cell.rule kind bits) (accessBytes kind bits addr val) f
  let val := if kind = .r ∨ kind = .x ∧ bits ≠ .b8noperm then leVal (res.map Prod.fst) else val
  ((val, (res.map Prod.snd).any id), f)

theorem accessWidth_le (kind : MemioKind) (bits : MemioBits) : accessWidth kind bits ≤ 4 := by
  cases kind <;> cases bits <;> decide

/-- Up to four addresses from one address on. -/
def addrs (n : Nat) (addr : U32) : List U32 :=
  (List.range n).map fun i => addr + BitVec.ofNat 32 i

theorem addrs_nodup {n : Nat} (hn : n ≤ 4) (addr : U32) : (addrs n addr).Nodup := by
  apply List.Nodup.map_on _ List.nodup_range
  intro i hi j hj hij
  rw [List.mem_range] at hi hj
  have hofs := congrArg BitVec.toNat ((BitVec.add_right_inj addr).mp hij)
  rw [BitVec.toNat_ofNat, BitVec.toNat_ofNat] at hofs
  omega

theorem map_fst_addrBytes {w : Nat} (n : Nat) (addr : U32) (x : BitVec w) :
    (addrBytes n addr x).map Prod.fst = addrs n addr := by
  unfold addrBytes addrs
  rw [List.map_map]
  rfl

/-- The addresses of one access differ. -/
theorem accessBytes_nodup (kind : MemioKind) (bits : MemioBits) (addr val : U32) :
    ((accessBytes kind bits addr val).map Prod.fst).Nodup := by
  unfold accessBytes
  rw [map_fst_addrBytes]
  exact addrs_nodup (accessWidth_le kind bits) addr

end X86Emu
