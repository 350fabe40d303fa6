import Mathlib.Data.List.Forall2

/-!
# Matching outcomes

Two computations match if they fail with the same error or succeed with related results. Steps that
match, one after the other, make up computations that match.
-/

namespace DesignMatrix.Outcomes

variable {ε ε' α β γ δ : Type}

/-- Both computations fail with the same error, or both succeed with related results. -/
inductive Matches (r : α → β → Prop) : Except ε α → Except ε β → Prop
  | error (e : ε) : Matches r (.error e) (.error e)
  | ok {a : α} {b : β} (h : r a b) : Matches r (.ok a) (.ok b)

namespace Matches

variable {r : α → β → Prop} {s : γ → δ → Prop} {x : Except ε α} {y : Except ε β}

theorem refl {r : α → α → Prop} (h : ∀ a, r a a) (x : Except ε α) : Matches r x x := by
  cases x with
  | error e => exact .error e
  | ok a => exact .ok (h a)

theorem map_right (x : Except ε α) (f : α → β) : Matches (fun a b => b = f a) x (x.map f) := by
  cases x with
  | error e => exact .error e
  | ok a => exact .ok rfl

theorem imp {r' : α → β → Prop} (h : Matches r x y) (weaker : ∀ a b, r a b → r' a b) :
    Matches r' x y := by
  cases h with
  | error e => exact .error e
  | ok related => exact .ok (weaker _ _ related)

theorem bind {f : α → Except ε γ} {g : β → Except ε δ} (h : Matches r x y)
    (step : ∀ a b, x = .ok a → r a b → Matches s (f a) (g b)) : Matches s (x >>= f) (y >>= g) := by
  cases h with
  | error e => exact .error e
  | ok related => exact step _ _ rfl related

theorem map {f : α → γ} {g : β → δ} (h : Matches r x y) (step : ∀ a b, r a b → s (f a) (g b)) :
    Matches s (x.map f) (y.map g) := by
  cases h with
  | error e => exact .error e
  | ok related => exact .ok (step _ _ related)

theorem mapError (h : Matches r x y) (f : ε → ε') : Matches r (x.mapError f) (y.mapError f) := by
  cases h with
  | error e => exact .error (f e)
  | ok related => exact .ok related

theorem mapM {f : γ → Except ε α} {g : γ → Except ε β} {xs : List γ}
    (h : ∀ x ∈ xs, Matches r (f x) (g x)) : Matches (List.Forall₂ r) (xs.mapM f) (xs.mapM g) := by
  induction xs with
  | nil => exact .ok .nil
  | cons first rest ih =>
    obtain ⟨head, tail⟩ := List.forall_mem_cons.mp h
    simp only [List.mapM_cons]
    exact head.bind fun _ _ _ related => (ih tail).bind fun _ _ _ others =>
      .ok (.cons related others)

end Matches

end DesignMatrix.Outcomes
