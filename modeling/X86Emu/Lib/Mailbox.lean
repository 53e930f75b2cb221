import Mathlib.Data.List.Basic

/-!
# A box for one message

A message that is posted while the box is empty stays in it until it is taken; one that is posted
while the box is full is dropped. `Handled w l w'` says that the posts and takes of `l` lead from
the content `w` to the content `w'`, where only the content is ever taken. Then the accepted
messages are the taken ones and the one still in the box, in this order and each of them once.
-/

namespace X86Emu.Lib

variable {α : Type}

inductive BoxAction (α : Type)
  | post (a : α)
  | take (a : α)
  deriving DecidableEq, Repr

def BoxAction.isPost : BoxAction α → Bool
  | .post _ => true
  | .take _ => false

/-- The messages that find the box empty, when the box is empty after each take. -/
def accepted : Option α → List (BoxAction α) → List α
  | _, [] => []
  | none, .post a :: l => a :: accepted (some a) l
  | some b, .post _ :: l => accepted (some b) l
  | _, .take _ :: l => accepted none l

/-- The messages that are taken. -/
def taken : List (BoxAction α) → List α
  | [] => []
  | .post _ :: l => taken l
  | .take a :: l => a :: taken l

/-- The actions lead from one content of the box to another. -/
inductive Handled : Option α → List (BoxAction α) → Option α → Prop
  | nil (w : Option α) : Handled w [] w
  | accept {a : α} {l : List (BoxAction α)} {w : Option α} :
      Handled (some a) l w → Handled none (.post a :: l) w
  | drop {a b : α} {l : List (BoxAction α)} {w : Option α} :
      Handled (some b) l w → Handled (some b) (.post a :: l) w
  | take {a : α} {l : List (BoxAction α)} {w : Option α} :
      Handled none l w → Handled (some a) (.take a :: l) w

theorem taken_append (l l' : List (BoxAction α)) : taken (l ++ l') = taken l ++ taken l' := by
  induction l with
  | nil => rfl
  | cons x l ih =>
    cases x with
    | post a => exact ih
    | take a => exact congrArg (a :: ·) ih

theorem eq_nil_of_none {l : List (BoxAction α)} (hpost : ∀ x ∈ l, x.isPost = false)
    (htaken : taken l = []) : l = [] := by
  cases l with
  | nil => rfl
  | cons x l =>
    cases x with
    | post a => cases hpost _ (List.mem_cons_self ..)
    | take a => cases htaken

namespace Handled

variable {w w' w'' : Option α} {l l' : List (BoxAction α)}

theorem append (h₁ : Handled w l w') (h₂ : Handled w' l' w'') : Handled w (l ++ l') w'' := by
  induction h₁ with
  | nil w => exact h₂
  | accept _ ih => exact .accept (ih h₂)
  | drop _ ih => exact .drop (ih h₂)
  | take _ ih => exact .take (ih h₂)

/-- What was in the box and what was accepted has been taken, or is in the box. -/
theorem accepted_eq (h : Handled w l w') :
    w.toList ++ accepted w l = taken l ++ w'.toList := by
  induction h with
  | nil w =>
    unfold accepted taken
    rw [List.append_nil, List.nil_append]
  | accept _ ih => exact ih
  | drop _ ih => exact ih
  | take _ ih => exact congrArg (_ :: ·) ih

end Handled

end X86Emu.Lib
