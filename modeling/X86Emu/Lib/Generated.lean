import Mathlib.Logic.Basic

/-!
# Programs generated by primitive state transformers

A program reads an environment `ρ`, changes a state `σ` and returns a result. `Generated Prim`
is the closure of a set `Prim` of primitive transformers under constants and sequencing, and
`Prog Prim α` is a transformer together with its membership in that closure. So a fact that every
primitive transformer preserves holds of every program by one induction, without looking at
the program:

* `Prog.invariant`: a reflexive and transitive relation kept by the primitives is kept by
  every program;
* `Prog.related`: two runs from related states return the same result and end in related
  states, when this holds for the primitives.

Facts that depend on the text of a program are collected by the class `Stays r R x` (in the
environment `r` the relation `R` holds between start and end of `x`) and `Twins r R x` (two runs
from related states agree), whose instances follow `>>=` and `if`.
-/

namespace X86Emu.Lib

/-- Transformers of a state `σ` that read an environment `ρ` and return an `α`. -/
abbrev Trans (ρ σ α : Type) : Type := ρ → σ → α × σ

section Programs

variable {ρ σ α β : Type}

/-- The transformers generated by the primitive ones. -/
inductive Generated (Prim : ∀ {β : Type}, Trans ρ σ β → Prop) :
    ∀ {α : Type}, Trans ρ σ α → Prop
  | pure {α : Type} (a : α) : Generated Prim (fun _ s => (a, s))
  | bind {α β : Type} {x : Trans ρ σ α} {f : α → Trans ρ σ β} :
      Generated Prim x → (∀ a, Generated Prim (f a)) →
      Generated Prim (fun r s => f (x r s).1 r (x r s).2)
  | prim {α : Type} {x : Trans ρ σ α} : Prim x → Generated Prim x

/-- A transformer with its generation from `Prim`. -/
structure Prog (Prim : ∀ {β : Type}, Trans ρ σ β → Prop) (α : Type) where
  run : Trans ρ σ α
  generated : Generated Prim run

variable {Prim : ∀ {β : Type}, Trans ρ σ β → Prop}

namespace Prog

/-- A primitive transformer as a program. -/
def ofPrim (x : Trans ρ σ α) (h : Prim x) : Prog Prim α := ⟨x, .prim h⟩

instance : Monad (Prog Prim) where
  pure a := ⟨fun _ s => (a, s), .pure a⟩
  bind x f := ⟨fun r s => (f (x.run r s).1).run r (x.run r s).2,
    .bind x.generated (fun a => (f a).generated)⟩

@[simp] theorem run_pure (a : α) (r : ρ) (s : σ) :
    (pure a : Prog Prim α).run r s = (a, s) := rfl

@[simp] theorem run_bind (x : Prog Prim α) (f : α → Prog Prim β) (r : ρ) (s : σ) :
    (x >>= f).run r s = (f (x.run r s).1).run r (x.run r s).2 := rfl

@[simp] theorem run_ofPrim (x : Trans ρ σ α) (h : Prim x) : (ofPrim x h).run = x := rfl

@[simp] theorem run_ite (c : Prop) [Decidable c] (x y : Prog Prim α) (r : ρ) (s : σ) :
    (if c then x else y).run r s = if c then x.run r s else y.run r s := by
  split <;> rfl

/-! ## The two induction rules -/

/-- What every primitive transformer keeps, every program keeps. -/
theorem invariant {R : σ → σ → Prop} {r : ρ} (refl : ∀ s, R s s)
    (trans : ∀ {s t u}, R s t → R t u → R s u)
    (prim : ∀ {β : Type} {x : Trans ρ σ β}, Prim x → ∀ s, R s (x r s).2)
    (x : Prog Prim α) (s : σ) : R s (x.run r s).2 := by
  obtain ⟨run, gen⟩ := x
  induction gen generalizing s with
  | pure a => exact refl s
  | bind _ _ ihx ihf => exact trans (ihx s) (ihf _ _)
  | prim h => exact prim h s

/-- Two runs from related states agree, when this holds for the primitive transformers. -/
theorem related {R : σ → σ → Prop} {r : ρ}
    (prim : ∀ {β : Type} {x : Trans ρ σ β}, Prim x →
      ∀ s t, R s t → (x r s).1 = (x r t).1 ∧ R (x r s).2 (x r t).2)
    (x : Prog Prim α) {s t : σ} (h : R s t) :
    (x.run r s).1 = (x.run r t).1 ∧ R (x.run r s).2 (x.run r t).2 := by
  obtain ⟨run, gen⟩ := x
  induction gen generalizing s t with
  | pure a => exact ⟨rfl, h⟩
  | bind _ _ ihx ihf =>
    obtain ⟨hres, hst⟩ := ihx h
    dsimp only
    rw [hres]
    exact ihf _ hst
  | prim hp => exact prim hp s t h

end Prog

/-! ## Facts that follow the text of a program -/

/-- A relation that can be followed through a program. -/
class Chain (R : σ → σ → Prop) : Prop where
  refl : ∀ s, R s s
  trans : ∀ {s t u}, R s t → R t u → R s u

/-- `R` relates the start and the end of every run of `x` in the environment `r`. -/
class Stays (r : ρ) (R : σ → σ → Prop) (x : Prog Prim α) : Prop where
  stays : ∀ s, R s (x.run r s).2

section Stays

variable {r : ρ} {R : σ → σ → Prop} [Chain R]

instance Stays.pure (a : α) : Stays r R (pure a : Prog Prim α) :=
  ⟨fun s => Chain.refl s⟩

instance Stays.bind (x : Prog Prim α) (f : α → Prog Prim β) [hx : Stays r R x]
    [hf : ∀ a, Stays r R (f a)] : Stays r R (x >>= f) :=
  ⟨fun s => Chain.trans (hx.stays s) ((hf _).stays _)⟩

instance Stays.ite (c : Prop) [Decidable c] (x y : Prog Prim α) [hx : Stays r R x]
    [hy : Stays r R y] : Stays r R (if c then x else y) := by
  split
  · exact hx
  · exact hy

end Stays

/-- Two runs of `x` from related states agree. -/
class Twins (r : ρ) (R : σ → σ → Prop) (x : Prog Prim α) : Prop where
  twins : ∀ {s t}, R s t → (x.run r s).1 = (x.run r t).1 ∧ R (x.run r s).2 (x.run r t).2

section Twins

variable {r : ρ} {R : σ → σ → Prop}

instance Twins.pure (a : α) : Twins r R (pure a : Prog Prim α) := ⟨fun h => ⟨rfl, h⟩⟩

instance Twins.bind (x : Prog Prim α) (f : α → Prog Prim β) [hx : Twins r R x]
    [hf : ∀ a, Twins r R (f a)] : Twins r R (x >>= f) := by
  refine ⟨fun h => ?_⟩
  obtain ⟨hres, hst⟩ := hx.twins h
  rw [Prog.run_bind, Prog.run_bind, hres]
  exact (hf _).twins hst

instance Twins.ite (c : Prop) [Decidable c] (x y : Prog Prim α) [hx : Twins r R x]
    [hy : Twins r R y] : Twins r R (if c then x else y) := by
  split
  · exact hx
  · exact hy

end Twins

end Programs

end X86Emu.Lib
