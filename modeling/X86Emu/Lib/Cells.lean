import Mathlib.Data.List.Nodup
import Mathlib.Logic.Function.Basic

/-!
# Operations on the cells of a map

A map from addresses to cells, an operation on one cell that returns a result, and the operation
done at a list of addresses in order, with an argument for each address. What the operation does to
every cell follows from what it does to one:

* `onCells_keeps`: a reflexive and transitive relation kept by the operation is kept at every
  address;
* `onCells_related`: two maps that are related at every address stay so, and the results agree;
* `onCells_frame`: the cells at other addresses stay;
* `onCells_mem`, `onCells_results`: when the addresses differ, each cell is changed once, and the
  results are those of the cells before.
-/

namespace X86Emu.Lib

variable {A B C D : Type} [DecidableEq A]

/-- The operation `op` at the address `a`. -/
def onCell (op : C → B × C) (a : A) (m : A → C) : B × (A → C) :=
  ((op (m a)).1, Function.update m a (op (m a)).2)

/-- The operation `op` at each of the addresses in turn; the list of results. -/
def onCells (op : D → C → B × C) : List (A × D) → (A → C) → List B × (A → C)
  | [], m => ([], m)
  | (a, d) :: l, m =>
    let (b, m) := onCell (op d) a m
    let (bs, m) := onCells op l m
    (b :: bs, m)

@[simp] theorem onCells_nil (op : D → C → B × C) (m : A → C) : onCells op [] m = ([], m) := rfl

theorem onCells_cons (op : D → C → B × C) (a : A) (d : D) (l : List (A × D)) (m : A → C) :
    onCells op ((a, d) :: l) m =
      ((op d (m a)).1 :: (onCells op l (Function.update m a (op d (m a)).2)).1,
        (onCells op l (Function.update m a (op d (m a)).2)).2) := rfl

/-- The addresses of one list after those of another. -/
theorem onCells_append (op : D → C → B × C) (l₁ l₂ : List (A × D)) (m : A → C) :
    onCells op (l₁ ++ l₂) m =
      ((onCells op l₁ m).1 ++ (onCells op l₂ (onCells op l₁ m).2).1,
        (onCells op l₂ (onCells op l₁ m).2).2) := by
  induction l₁ generalizing m with
  | nil => rfl
  | cons p l₁ ih =>
    obtain ⟨a, d⟩ := p
    rw [List.cons_append, onCells_cons, ih, onCells_cons]
    rfl

/-- What the operation keeps in one cell it keeps in all of them. -/
theorem onCells_keeps {op : D → C → B × C} {R : C → C → Prop} (refl : ∀ c, R c c)
    (trans : ∀ {c d e}, R c d → R d e → R c e) (hop : ∀ d c, R c (op d c).2)
    (l : List (A × D)) (m : A → C) (x : A) : R (m x) ((onCells op l m).2 x) := by
  induction l generalizing m with
  | nil => exact refl (m x)
  | cons p l ih =>
    obtain ⟨a, d⟩ := p
    rw [onCells_cons]
    refine trans ?_ (ih _)
    by_cases hx : x = a
    · subst hx
      rw [Function.update_self]
      exact hop d (m x)
    · rw [Function.update_of_ne hx]
      exact refl (m x)

/-- What the operation cannot tell apart in one cell it cannot tell apart in any; `g` is the part of
the results that agrees. -/
theorem onCells_related {op : D → C → B × C} {E : C → C → Prop} {G : Type} {g : B → G}
    (hop : ∀ d c c', E c c' → g (op d c).1 = g (op d c').1 ∧ E (op d c).2 (op d c').2)
    (l : List (A × D)) {m m' : A → C} (h : ∀ a, E (m a) (m' a)) :
    (onCells op l m).1.map g = (onCells op l m').1.map g ∧
      ∀ a, E ((onCells op l m).2 a) ((onCells op l m').2 a) := by
  induction l generalizing m m' with
  | nil => exact ⟨rfl, h⟩
  | cons p l ih =>
    obtain ⟨a, d⟩ := p
    obtain ⟨hres, hcell⟩ := hop d _ _ (h a)
    have hnext : ∀ x, E (Function.update m a (op d (m a)).2 x)
        (Function.update m' a (op d (m' a)).2 x) := by
      intro x
      by_cases hx : x = a
      · subst hx
        rw [Function.update_self, Function.update_self]
        exact hcell
      · rw [Function.update_of_ne hx, Function.update_of_ne hx]
        exact h x
    obtain ⟨hrest, hcells⟩ := ih hnext
    rw [onCells_cons, onCells_cons, List.map_cons, List.map_cons, hres, hrest]
    exact ⟨rfl, hcells⟩

/-- An operation that does not look at its argument is the same at the same addresses. -/
theorem onCells_congr {op : D → C → B × C} (hop : ∀ d e, op d = op e) {l l' : List (A × D)}
    (hl : l.map Prod.fst = l'.map Prod.fst) (m : A → C) : onCells op l m = onCells op l' m := by
  induction l generalizing l' m with
  | nil =>
    rw [List.map_eq_nil_iff.mp hl.symm]
  | cons p l ih =>
    obtain ⟨a, d⟩ := p
    cases l' with
    | nil => cases hl
    | cons q l' =>
      obtain ⟨b, e⟩ := q
      obtain ⟨hab, hrest⟩ := List.cons.inj hl
      obtain rfl : a = b := hab
      rw [onCells_cons, onCells_cons, hop d e, ih hrest]

/-- The cells at other addresses stay. -/
theorem onCells_frame (op : D → C → B × C) (l : List (A × D)) (m : A → C) {x : A}
    (hx : x ∉ l.map Prod.fst) : (onCells op l m).2 x = m x := by
  induction l generalizing m with
  | nil => rfl
  | cons p l ih =>
    obtain ⟨a, d⟩ := p
    rw [List.map_cons, List.mem_cons, not_or] at hx
    rw [onCells_cons]
    show (onCells op l _).2 x = m x
    rw [ih _ hx.2, Function.update_of_ne hx.1]

/-- Each cell is changed once, when the addresses differ. -/
theorem onCells_mem (op : D → C → B × C) {l : List (A × D)} (hl : (l.map Prod.fst).Nodup)
    (m : A → C) {a : A} {d : D} (h : (a, d) ∈ l) : (onCells op l m).2 a = (op d (m a)).2 := by
  induction l generalizing m with
  | nil => cases h
  | cons p l ih =>
    obtain ⟨b, e⟩ := p
    rw [List.map_cons, List.nodup_cons] at hl
    rw [onCells_cons]
    show (onCells op l _).2 a = _
    rcases List.mem_cons.mp h with heq | hmem
    · cases heq
      rw [onCells_frame op l _ hl.1, Function.update_self]
    · have hne : a ≠ b := by
        intro hab
        subst hab
        exact hl.1 (List.mem_map.mpr ⟨_, hmem, rfl⟩)
      rw [ih hl.2 _ hmem, Function.update_of_ne hne]

/-- The results are those of the cells before, when the addresses differ. -/
theorem onCells_results (op : D → C → B × C) {l : List (A × D)} (hl : (l.map Prod.fst).Nodup)
    (m : A → C) : (onCells op l m).1 = l.map fun p => (op p.2 (m p.1)).1 := by
  induction l generalizing m with
  | nil => rfl
  | cons p l ih =>
    obtain ⟨a, d⟩ := p
    rw [List.map_cons, List.nodup_cons] at hl
    rw [onCells_cons, List.map_cons]
    show _ :: _ = _ :: _
    congr 1
    rw [ih hl.2]
    apply List.map_congr_left
    intro q hq
    have hne : q.1 ≠ a := by
      intro hqa
      exact hl.1 (List.mem_map.mpr ⟨q, hq, hqa⟩)
    rw [Function.update_of_ne hne]

end X86Emu.Lib
