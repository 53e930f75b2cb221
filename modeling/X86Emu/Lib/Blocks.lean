import Mathlib.Data.BitVec

/-!
# Blocks stored one after the other

A memory is a function on addresses of `w` bits, where address arithmetic wraps around. Elements of
`n` values each are stored one after the other, and what an element consists of may depend on what
the elements before it have left. Storing the same values everywhere fills the blocks. Storing what
is found elsewhere copies them: where no element is read after it was stored over, that is what was
there at first, and where the destination starts `p` elements behind the source, the first `p`
elements are repeated.
-/

namespace X86Emu.Lib

variable {w : Nat} {β : Type}

/-- `n` values stored from the address `a` on. -/
def blit (n : Nat) (a : BitVec w) (v : Nat → β) (f : BitVec w → β) : BitVec w → β :=
  fun b => if (b - a).toNat < n then v (b - a).toNat else f b

/-- `n` addresses from `a` on and from `b` on have none in common. -/
def Apart (n : Nat) (a b : BitVec w) : Prop :=
  ∀ i < n, ∀ j < n, a + BitVec.ofNat w i ≠ b + BitVec.ofNat w j

theorem Apart.symm {n : Nat} {a b : BitVec w} (h : Apart n a b) : Apart n b a :=
  fun i hi j hj heq => h j hj i hi heq.symm

section

variable {n : Nat} {a b : BitVec w} {v : Nat → β} {f g : BitVec w → β}

theorem blit_at (hn : n ≤ 2 ^ w) {j : Nat} (hj : j < n) :
    blit n a v f (a + BitVec.ofNat w j) = v j := by
  have hofs : (a + BitVec.ofNat w j - a).toNat = j := by
    rw [BitVec.add_comm, BitVec.add_sub_cancel, BitVec.toNat_ofNat, Nat.mod_eq_of_lt (by omega)]
  unfold blit
  rw [hofs, if_pos hj]

theorem blit_frame (hb : ∀ j < n, b ≠ a + BitVec.ofNat w j) : blit n a v f b = f b := by
  refine if_neg fun hlt => hb (b - a).toNat hlt ?_
  rw [BitVec.ofNat_toNat, BitVec.setWidth_eq, BitVec.add_comm, BitVec.sub_add_cancel]

theorem blit_apart (hab : Apart n a b) {j : Nat} (hj : j < n) :
    blit n a v f (b + BitVec.ofNat w j) = f (b + BitVec.ofNat w j) :=
  blit_frame fun i hi heq => hab i hi j hj heq.symm

theorem blit_congr {v' : Nat → β} (hv : ∀ j < n, v j = v' j) : blit n a v f = blit n a v' f := by
  funext b
  unfold blit
  split
  · next hlt => exact hv _ hlt
  · rfl

/-- A memory with the values of a block, and otherwise the old ones. -/
theorem eq_blit (hn : n ≤ 2 ^ w) (hat : ∀ j < n, g (a + BitVec.ofNat w j) = v j)
    (hframe : ∀ b, (∀ j < n, b ≠ a + BitVec.ofNat w j) → g b = f b) : g = blit n a v f := by
  funext b
  by_cases hb : ∃ j < n, b = a + BitVec.ofNat w j
  · obtain ⟨j, hj, rfl⟩ := hb
    rw [hat j hj, blit_at hn hj]
  · have hout : ∀ j < n, b ≠ a + BitVec.ofNat w j := fun j hj heq => hb ⟨j, hj, heq⟩
    rw [hframe b hout, blit_frame hout]

end

/-! ## Elements -/

/-- `m` elements of `n` values each, element `i` stored from `dst i` on, with the values that
`val i` makes of the memory before. -/
def blits (n : Nat) (dst : Nat → BitVec w) (val : Nat → (BitVec w → β) → Nat → β) :
    Nat → (BitVec w → β) → BitVec w → β
  | 0, f => f
  | m + 1, f => blit n (dst m) (val m (blits n dst val m f)) (blits n dst val m f)

/-- The same values in every block. -/
def fills (n : Nat) (dst : Nat → BitVec w) (v : Nat → β) : Nat → (BitVec w → β) → BitVec w → β :=
  blits n dst fun _ _ => v

/-- Element `i` is read from `src i`. -/
def copies (n : Nat) (src dst : Nat → BitVec w) : Nat → (BitVec w → β) → BitVec w → β :=
  blits n dst fun i f j => f (src i + BitVec.ofNat w j)

section

variable {n m : Nat} {src dst : Nat → BitVec w} {val : Nat → (BitVec w → β) → Nat → β}
  {f : BitVec w → β}

theorem fills_succ (v : Nat → β) :
    fills n dst v (m + 1) f = blit n (dst m) v (fills n dst v m f) := rfl

theorem copies_succ : copies n src dst (m + 1) f =
    blit n (dst m) (fun k => copies n src dst m f (src m + BitVec.ofNat w k))
      (copies n src dst m f) := rfl

/-- An address in no block. -/
theorem blits_frame {b : BitVec w} (hb : ∀ i < m, ∀ j < n, b ≠ dst i + BitVec.ofNat w j) :
    blits n dst val m f b = f b := by
  induction m with
  | zero => rfl
  | succ m ih =>
    have hlast := blit_frame (v := val m (blits n dst val m f)) (f := blits n dst val m f)
      (hb m (Nat.lt_succ_self m))
    exact hlast.trans (ih fun i hi => hb i (Nat.lt_succ_of_lt hi))

/-- A block that none of the elements touches. -/
theorem blits_apart {b : BitVec w} (hb : ∀ i < m, Apart n (dst i) b) {j : Nat} (hj : j < n) :
    blits n dst val m f (b + BitVec.ofNat w j) = f (b + BitVec.ofNat w j) :=
  blits_frame fun i hi k hk heq => hb i hi k hk j hj heq.symm

/-- An element that no later one touches is as it was stored. -/
theorem blits_at (hn : n ≤ 2 ^ w) {i : Nat} (hi : i < m)
    (hlater : ∀ j, i < j → j < m → Apart n (dst j) (dst i)) {k : Nat} (hk : k < n) :
    blits n dst val m f (dst i + BitVec.ofNat w k) = val i (blits n dst val i f) k := by
  induction m with
  | zero => exact absurd hi (Nat.not_lt_zero i)
  | succ m ih =>
    rcases Nat.lt_succ_iff_lt_or_eq.mp hi with hlt | rfl
    · have hlast := blit_apart (v := val m (blits n dst val m f)) (f := blits n dst val m f)
        (hlater m hlt (Nat.lt_succ_self m)) hk
      exact hlast.trans (ih hlt fun j hij hj => hlater j hij (Nat.lt_succ_of_lt hj))
    · exact blit_at hn hk

/-- Every block is filled, also where later elements fall on earlier ones. -/
theorem fills_at (hn : n ≤ 2 ^ w) {v : Nat → β} {i : Nat} (hi : i < m)
    (hsame : ∀ j < m, dst j = dst i ∨ Apart n (dst j) (dst i)) {k : Nat} (hk : k < n) :
    fills n dst v m f (dst i + BitVec.ofNat w k) = v k := by
  induction m with
  | zero => exact absurd hi (Nat.not_lt_zero i)
  | succ m ih =>
    rcases hsame m (Nat.lt_succ_self m) with hfall | hapart
    · rw [fills_succ, ← hfall, blit_at hn hk]
    · have hlt : i < m := by
        refine lt_of_le_of_ne (Nat.lt_succ_iff.mp hi) ?_
        rintro rfl
        exact hapart k hk k hk rfl
      rw [fills_succ, blit_apart hapart hk]
      exact ih hlt fun j hj => hsame j (Nat.lt_succ_of_lt hj)

/-- Where no element is read after it was stored over, the copy is what was there at first. -/
theorem copies_at (hn : n ≤ 2 ^ w) {i : Nat} (hi : i < m)
    (hread : ∀ j < i, Apart n (dst j) (src i))
    (hlater : ∀ j, i < j → j < m → Apart n (dst j) (dst i)) {k : Nat} (hk : k < n) :
    copies n src dst m f (dst i + BitVec.ofNat w k) = f (src i + BitVec.ofNat w k) :=
  (blits_at hn hi hlater hk).trans (blits_apart hread hk)

/-- Where the destination is `p` elements behind the source, the first `p` elements are repeated. -/
theorem copies_repeat (hn : n ≤ 2 ^ w) {p : Nat} (hp : 0 < p) (hdst : ∀ i < m, dst i = src (i + p))
    (hsrc : ∀ i < m + p, ∀ j < i, Apart n (src j) (src i)) {i : Nat} (hi : i < m + p) {k : Nat}
    (hk : k < n) :
    copies n src dst m f (src i + BitVec.ofNat w k) = f (src (i % p) + BitVec.ofNat w k) := by
  induction m generalizing i with
  | zero => rw [Nat.mod_eq_of_lt (by omega)]; rfl
  | succ m ih =>
    have hrest : ∀ i' < m + p, copies n src dst m f (src i' + BitVec.ofNat w k) =
        f (src (i' % p) + BitVec.ofNat w k) := fun i' hi' =>
      ih (fun j hj => hdst j (Nat.lt_succ_of_lt hj)) (fun a ha => hsrc a (by omega)) hi'
    have hlast : dst m = src (m + p) := hdst m (Nat.lt_succ_self m)
    rcases (show i < m + p ∨ i = m + p by omega) with hlt | rfl
    · have hapart : Apart n (dst m) (src i) := hlast ▸ (hsrc (m + p) (by omega) i hlt).symm
      rw [copies_succ, blit_apart hapart hk]
      exact hrest i hlt
    · rw [Nat.add_mod_right, copies_succ, ← hlast, blit_at hn hk]
      exact hrest m (by omega)

end

/-! ## The order of blocks -/

section

variable {α : Type} {n k : Nat} {a b : Nat → α}

theorem map_range_eq_iff : (List.range n).map a = (List.range n).map b ↔ ∀ i < n, a i = b i := by
  constructor
  · intro heq i hi
    exact List.map_inj_left.mp heq i (List.mem_range.mpr hi)
  · exact fun hall => List.map_congr_left fun i hi => hall i (List.mem_range.mp hi)

/-- The first difference decides the order. -/
theorem map_range_lt_iff [LT α] (hirr : ∀ x : α, ¬x < x) (hk : k < n) (heq : ∀ i < k, a i = b i)
    (hlast : a k ≠ b k ∨ k + 1 = n) :
    (List.range n).map a < (List.range n).map b ↔ a k < b k := by
  induction k generalizing n a b with
  | zero =>
    obtain ⟨m, rfl⟩ : ∃ m, n = m + 1 := ⟨n - 1, by omega⟩
    rw [List.range_succ_eq_map, List.map_cons, List.map_cons, List.cons_lt_cons_iff]
    refine or_iff_left ?_
    rintro ⟨hsame, hlt⟩
    rcases hlast with hne | hend
    · exact hne hsame
    · obtain rfl : m = 0 := by omega
      exact absurd hlt (List.not_lt_nil _)
  | succ k ih =>
    obtain ⟨m, rfl⟩ : ∃ m, n = m + 1 := ⟨n - 1, by omega⟩
    have hrest := ih (n := m) (a := a ∘ Nat.succ) (b := b ∘ Nat.succ) (by omega)
      (fun i hi => heq (i + 1) (by omega)) (hlast.imp_right fun h => by omega)
    rw [List.range_succ_eq_map, List.map_cons, List.map_cons, List.cons_lt_cons_iff, List.map_map,
      List.map_map, hrest, heq 0 (Nat.succ_pos k)]
    exact ⟨fun h => h.resolve_left (hirr _) |>.2, fun h => Or.inr ⟨rfl, h⟩⟩

end

end X86Emu.Lib
