import Mathlib.Data.List.Basic

/-!
# Fronts of texts

A reader that goes on for characters of one kind stops behind what was written if a character of
another kind follows.
-/

namespace DesignMatrix.Fronts

variable {cs rest : List Char}

/-- Characters of one kind end where the first one of another kind stands. -/
theorem takeWhile_append_of_head? {p : Char → Bool} (h : ∀ c ∈ cs, p c = true)
    (ended : ∀ c ∈ rest.head?, p c = false) :
    (cs ++ rest).takeWhile p = cs ∧ (cs ++ rest).dropWhile p = rest := by
  rw [List.takeWhile_append_of_pos h, List.dropWhile_append_of_pos h]
  cases rest with
  | nil => simp
  | cons c rest => simp [ended c rfl]

/-- A text starts with all that it has of one kind. -/
theorem exists_front (p : Char → Bool) (cs : List Char) :
    ∃ front rest, cs = front ++ rest ∧ (∀ c ∈ front, p c = true) ∧
      ∀ c ∈ rest.head?, p c = false := by
  refine ⟨cs.takeWhile p, cs.dropWhile p, List.takeWhile_append_dropWhile.symm, ?_, ?_⟩
  · exact fun c member => List.all_eq_true.mp List.all_takeWhile c member
  · intro c same
    have first := List.head?_dropWhile_not p cs
    rwa [Option.mem_def.mp same] at first

/-- What all characters of a fixed text meet can be evaluated. -/
theorem forall_mem_of_all {p : Char → Prop} [DecidablePred p]
    (h : (cs.all fun c => decide (p c)) = true) : ∀ c ∈ cs, p c := by
  simpa using h

theorem head?_append_of_forall {p : Char → Prop} (h : ∀ c ∈ cs, p c) (nonempty : cs ≠ []) :
    ∀ c ∈ (cs ++ rest).head?, p c := by
  intro c same
  obtain ⟨first, more, rfl⟩ := List.exists_cons_of_ne_nil nonempty
  exact Option.some.inj same ▸ h first List.mem_cons_self

end DesignMatrix.Fronts
