import Mathlib.Data.Nat.Notation

/-!
# Names that end with a number

A name, an underscore and the decimal digits of a number show both the name and the number.
-/

namespace DesignMatrix

theorem toList_toString (n : ℕ) : (toString n).toList = Nat.toDigits 10 n := by
  simp

theorem toString_injective {m n : ℕ} (same : toString m = toString n) : m = n := by
  have digits := congrArg (fun text => Nat.ofDigitChars 10 text.toList 0) same
  simpa using digits

private theorem eq_of_append_cons_eq {α : Type} {c : α} {as bs us vs : List α}
    (absentU : c ∉ us) (absentV : c ∉ vs) (same : as ++ c :: us = bs ++ c :: vs) :
    as = bs ∧ us = vs := by
  rcases List.append_eq_append_iff.mp same with ⟨mid, rfl, behind⟩ | ⟨mid, rfl, behind⟩
  · cases mid with
    | nil => simpa using behind
    | cons d mid =>
      simp only [List.cons_append, List.cons.injEq] at behind
      exact absurd (by simp [behind.2]) absentU
  · cases mid with
    | nil => simpa using behind.symm
    | cons d mid =>
      simp only [List.cons_append, List.cons.injEq] at behind
      exact absurd (by simp [behind.2]) absentV

/-- The last underscore stands in front of the number. -/
theorem numbered_injective {first second : String} {m n : ℕ}
    (same : first ++ "_" ++ toString m = second ++ "_" ++ toString n) : first = second ∧ m = n := by
  have lists := congrArg String.toList same
  simp only [String.toList_append, List.append_assoc] at lists
  have noUnderscore (k : ℕ) : '_' ∉ (toString k).toList := by simp
  obtain ⟨front, digits⟩ := eq_of_append_cons_eq (noUnderscore m) (noUnderscore n) lists
  exact ⟨String.toList_inj.mp front, toString_injective (String.toList_inj.mp digits)⟩

theorem numbered_ne_self (text : String) (n : ℕ) : text ++ "_" ++ toString n ≠ text := by
  intro same
  have length := congrArg String.length same
  simp only [String.length_append] at length
  have underscore : "_".length = 1 := rfl
  omega

/-- A text that ends with a parenthesis does not end with a number. -/
theorem numbered_ne_enclosed (front text : String) (n : ℕ) :
    front ++ "_" ++ toString n ≠ text ++ ")" := by
  intro same
  have lists := congrArg String.toList same
  simp only [String.toList_append, toList_toString] at lists
  have nonempty : Nat.toDigits 10 n ≠ [] := Nat.toDigits_ne_nil
  rw [← List.dropLast_concat_getLast nonempty, ← List.append_assoc] at lists
  have last := List.head_eq_of_cons_eq (List.append_inj' lists rfl).2
  have digit := Nat.isDigit_of_mem_toDigits (by decide) (by decide) (List.getLast_mem nonempty)
  rw [last] at digit
  exact absurd digit (by decide)

end DesignMatrix
