import Mathlib.Order.BoundedOrder.Basic
import Mathlib.Order.Lattice
import X86Emu.Lib.Generated

/-!
# Graded programs

`Grade n f x` is a stronger form of `Generated`: every run of `x` is made of primitive
transformers whose costs add up to at most `n` and whose effects lie in `f`. Costs are numbers and
effects the elements of a semilattice with a least element; `G` gives cost and effect of each
primitive. The rules of `Graded` follow the text of a program, and `Graded.keeps` derives from a
grade what the allowed primitives keep.
-/

namespace X86Emu.Lib

variable {ρ σ α β F : Type} [SemilatticeSup F] [OrderBot F]

/-- Costs and effects of primitive transformers. -/
abbrev Grading (ρ σ F : Type) : Type 1 := (β : Type) → Nat → F → Trans ρ σ β → Prop

/-- The transformers of cost at most `n` with effects in `f`. -/
inductive Grade (G : Grading ρ σ F) : ∀ {α : Type}, Nat → F → Trans ρ σ α → Prop
  | pure {α : Type} (a : α) : Grade G 0 ⊥ (fun _ s => (a, s))
  | bind {α β : Type} {n m : Nat} {f g : F} {x : Trans ρ σ α} {k : α → Trans ρ σ β} :
      Grade G n f x → (∀ a, Grade G m g (k a)) →
      Grade G (n + m) (f ⊔ g) (fun r s => k (x r s).1 r (x r s).2)
  | prim {α : Type} {n : Nat} {f : F} {x : Trans ρ σ α} : G α n f x → Grade G n f x
  | weaken {α : Type} {n m : Nat} {f g : F} {x : Trans ρ σ α} :
      Grade G n f x → n ≤ m → f ≤ g → Grade G m g x

/-- What the primitive transformers with effects in `g` keep, the programs with effects in `g`
keep. -/
theorem Grade.keeps {G : Grading ρ σ F} {R : Nat → σ → σ → Prop} {r : ρ} {g : F}
    (refl : ∀ s, R 0 s s) (mono : ∀ {n m s t}, R n s t → n ≤ m → R m s t)
    (trans : ∀ {n m s t u}, R n s t → R m t u → R (n + m) s u)
    (prim : ∀ {β : Type} {n : Nat} {f : F} {x : Trans ρ σ β}, G β n f x → f ≤ g →
      ∀ s, R n s (x r s).2)
    {n : Nat} {f : F} {x : Trans ρ σ α} (hx : Grade G n f x) (hf : f ≤ g) (s : σ) :
    R n s (x r s).2 := by
  induction hx generalizing s with
  | pure a => exact refl s
  | bind _ _ ihx ihk =>
    exact trans (ihx (le_sup_left.trans hf) s) (ihk _ (le_sup_right.trans hf) _)
  | prim h => exact prim h hf s
  | weaken _ hn hfg ih => exact mono (ih (hfg.trans hf) s) hn

/-- Two runs from related states agree, when this holds for the primitive transformers with effects
in `g`. -/
theorem Grade.related {G : Grading ρ σ F} {R : σ → σ → Prop} {r : ρ} {g : F}
    (prim : ∀ {β : Type} {n : Nat} {f : F} {x : Trans ρ σ β}, G β n f x → f ≤ g →
      ∀ s t, R s t → (x r s).1 = (x r t).1 ∧ R (x r s).2 (x r t).2)
    {n : Nat} {f : F} {x : Trans ρ σ α} (hx : Grade G n f x) (hf : f ≤ g) {s t : σ} (h : R s t) :
    (x r s).1 = (x r t).1 ∧ R (x r s).2 (x r t).2 := by
  induction hx generalizing s t with
  | pure a => exact ⟨rfl, h⟩
  | bind _ _ ihx ihk =>
    obtain ⟨hres, hst⟩ := ihx (le_sup_left.trans hf) h
    dsimp only
    rw [hres]
    exact ihk _ (le_sup_right.trans hf) hst
  | prim hp => exact prim hp hf s t h
  | weaken _ _ hfg ih => exact ih (hfg.trans hf) h

/-! ## Programs -/

section Programs

variable {Prim : ∀ {β : Type}, Trans ρ σ β → Prop} {G : Grading ρ σ F}

/-- The program `x` has cost at most `n` and effects in `f`. -/
def Graded (G : Grading ρ σ F) (x : Prog Prim α) (n : Nat) (f : F) : Prop := Grade G n f x.run

namespace Graded

variable {n m : Nat} {f g : F} {x y : Prog Prim α}

theorem pure (a : α) : Graded G (Pure.pure a : Prog Prim α) 0 ⊥ :=
  Grade.pure a

theorem bind {k : α → Prog Prim β} (hx : Graded G x n f) (hk : ∀ a, Graded G (k a) m g) :
    Graded G (x >>= k) (n + m) (f ⊔ g) := Grade.bind hx hk

theorem weaken (hx : Graded G x n f) (hn : n ≤ m) (hf : f ≤ g) : Graded G x m g :=
  Grade.weaken hx hn hf

/-- Each branch may use the condition. -/
theorem ite (c : Prop) [Decidable c] (hx : c → Graded G x n f) (hy : ¬c → Graded G y m g) :
    Graded G (if c then x else y) (max n m) (f ⊔ g) := by
  by_cases hc : c
  · rw [if_pos hc]
    exact (hx hc).weaken (Nat.le_max_left n m) le_sup_left
  · rw [if_neg hc]
    exact (hy hc).weaken (Nat.le_max_right n m) le_sup_right

/-- What the primitive transformers with effects in `g` keep, a program with effects in `g`
keeps. -/
theorem keeps {R : Nat → σ → σ → Prop} {r : ρ} (refl : ∀ s, R 0 s s)
    (mono : ∀ {n m s t}, R n s t → n ≤ m → R m s t)
    (trans : ∀ {n m s t u}, R n s t → R m t u → R (n + m) s u)
    (prim : ∀ {β : Type} {n : Nat} {f : F} {x : Trans ρ σ β}, G β n f x → f ≤ g →
      ∀ s, R n s (x r s).2)
    (hx : Graded G x n f) (hf : f ≤ g) (s : σ) : R n s (x.run r s).2 :=
  Grade.keeps refl mono trans prim hx hf s

/-- Two runs of a program with effects in `g` agree. -/
theorem related {R : σ → σ → Prop} {r : ρ}
    (prim : ∀ {β : Type} {n : Nat} {f : F} {x : Trans ρ σ β}, G β n f x → f ≤ g →
      ∀ s t, R s t → (x r s).1 = (x r t).1 ∧ R (x r s).2 (x r t).2)
    (hx : Graded G x n f) (hf : f ≤ g) {s t : σ} (h : R s t) :
    (x.run r s).1 = (x.run r t).1 ∧ R (x.run r s).2 (x.run r t).2 :=
  Grade.related prim hx hf h

end Graded

end Programs

end X86Emu.Lib
