import Mathlib.Tactic.Common
import Mathlib.Logic.Function.Iterate
import DesignMatrix.Polynomial.Basis
import DesignMatrix.Proofs.Outcomes

/-!
# Columns of bases of several degrees

The recurrence runs from the lowest degree upwards, so the degree of a basis decides how many
columns it has, but not which. The operations on doubles are the same ones in the same order.
-/

namespace DesignMatrix

open Outcomes

namespace Recurrence

variable {α : Type} [Add α] [Sub α] [Mul α] [Div α] [OfNat α 0]

theorem getElem?_stages (c : List α) (steps i : ℕ) (stage : Stage α) :
    (stages c steps stage)[i]? = if i < steps then some ((next c)^[i + 1] stage) else none := by
  induction steps generalizing i stage with
  | zero => simp [stages]
  | succ steps ih =>
    cases i with
    | zero => simp [stages]
    | succ i =>
      rw [stages, List.getElem?_cons_succ, ih, Function.iterate_succ_apply]
      simp

end Recurrence

namespace Basis

/-- The column of an order, in the basis of any degree that has it. -/
def columnOf (values : List Float) (order : ℕ) : List Float :=
  let stage := (Recurrence.next (Recurrence.centered values))^[order] (Recurrence.start values)
  if values.isEmpty then [] else normalized (stage.current, stage.currentNorm)

theorem getElem?_columns {values : List Float} {degree order : ℕ} {basis : List (List Float)}
    (h : columns values degree = .ok basis) (positive : 1 ≤ order) (within : order ≤ degree) :
    basis[order - 1]? = some (columnOf values order) := by
  have below : order - 1 < degree := by omega
  unfold columns at h
  split at h
  · rename_i empty
    cases h
    simp [columnOf, empty, below]
  · rename_i nonempty
    split at h
    · cases h
    · cases h
      have step : order - 1 + 1 = order := by omega
      simp [Recurrence.polynomials, Recurrence.getElem?_stages, below, step, columnOf, nonempty]

theorem column_eq_ok {values column : List Float} {degree order : ℕ} (positive : 1 ≤ order)
    (within : order ≤ degree) (h : Basis.column values degree order = .ok column) :
    column = columnOf values order := by
  obtain ⟨basis, hasBasis, rfl⟩ := map_eq_ok.mp h
  rw [getElem?_columns hasBasis positive within, Option.getD_some]

/-- Values in ascending order have a basis of every degree below the number of distinct ones. -/
theorem columns_of_sorted {values : List Float} {degree : ℕ}
    (sorted : values.Pairwise fun x y => rank x ≤ rank y) (enough : degree < runs values) :
    columns values degree = .ok ((Recurrence.polynomials values degree).map normalized) := by
  have distinct : distinctCount values = runs values := by
    rw [distinctCount, List.mergeSort_of_pairwise (by simpa using sorted)]
  have nonempty : values.isEmpty = false := by
    cases values with
    | nil => cases enough
    | cons => rfl
  simp [columns, nonempty, distinct, enough]

theorem column_of_sorted {values : List Float} {degree order : ℕ}
    (sorted : values.Pairwise fun x y => rank x ≤ rank y) (enough : degree < runs values)
    (positive : 1 ≤ order) (within : order ≤ degree) :
    Basis.column values degree order = .ok (columnOf values order) := by
  have hasBasis := columns_of_sorted sorted enough
  refine map_eq_ok.mpr ⟨_, hasBasis, ?_⟩
  rw [getElem?_columns hasBasis positive within, Option.getD_some]

end Basis

end DesignMatrix
