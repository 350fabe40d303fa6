import Mathlib.Tactic.Common
import DesignMatrix.Frame.Cells

/-!
# Cells row by row

A function of one column or of two columns acts in each row on the cells of that row. What it also
depends on is whether one of two columns is uniform while the other is not.
-/

namespace DesignMatrix.Cells

variable {α β γ : Type} {height : ℕ}

@[simp] theorem get_map (f : α → β) (cells : Cells α height) (row : Fin height) :
    (cells.map f).get row = f (cells.get row) := by
  cases cells <;> simp [map, get]

@[simp] theorem get_written (cells : Cells α height) (row : Fin height) :
    cells.written.get row = cells.get row := by
  cases cells <;> simp [written, toVector, get]

@[simp] theorem length_toList (cells : Cells α height) : cells.toList.length = height := by
  simp [toList]

theorem getElem?_toList (cells : Cells α height) (row : Fin height) :
    cells.toList[row.val]? = some (cells.get row) := by
  cases cells <;> simp [toList, toVector, get]

@[simp] theorem get_ite_written (kept : Bool) (cells : Cells α height) (row : Fin height) :
    (if kept then cells else cells.written).get row = cells.get row := by
  cases kept <;> simp

/-- Only one cell is kept. -/
def IsUniform : Cells α height → Prop
  | .each _ => False
  | .uniform _ => True

theorem IsUniform.exists_eq {cells : Cells α height} (h : cells.IsUniform) :
    ∃ cell, cells = .uniform cell := by
  cases cells with
  | each cells => exact h.elim
  | uniform cell => exact ⟨cell, rfl⟩

theorem IsUniform.map {cells : Cells α height} (h : cells.IsUniform) (f : α → β) :
    (cells.map f).IsUniform := by
  obtain ⟨cell, rfl⟩ := h.exists_eq
  trivial

theorem IsUniform.zipWith {xs : Cells α height} {ys : Cells β height} (hx : xs.IsUniform)
    (hy : ys.IsUniform) (f : Spread → α → β → γ) : (xs.zipWith f ys).IsUniform := by
  obtain ⟨x, rfl⟩ := hx.exists_eq
  obtain ⟨y, rfl⟩ := hy.exists_eq
  trivial

/-- Which of the two columns is uniform while the other is not. -/
def spread : Cells α height → Cells β height → Spread
  | .uniform _, .each _ => .left
  | .each _, .uniform _ => .right
  | _, _ => .neither

@[simp] theorem spread_map {α' β' : Type} (f : α → α') (g : β → β') (xs : Cells α height)
    (ys : Cells β height) : (xs.map f).spread (ys.map g) = xs.spread ys := by
  cases xs <;> cases ys <;> rfl

theorem get_zipWith (f : Spread → α → β → γ) (xs : Cells α height) (ys : Cells β height)
    (row : Fin height) :
    (xs.zipWith f ys).get row =
      f (if height = 1 then .neither else xs.spread ys) (xs.get row) (ys.get row) := by
  cases xs <;> cases ys <;> simp [zipWith, get, spread]

section Rows

variable (indices : List (Fin height))

theorem rows_map (f : α → β) (cells : Cells α height) :
    (cells.map f).rows indices = (cells.rows indices).map f := by
  cases cells with
  | each cells => simp [map, rows]
  | uniform cell => rfl

theorem rows_written (cells : Cells α height) :
    cells.written.rows indices = (cells.rows indices).written := by
  cases cells with
  | each cells => rfl
  | uniform cell =>
    refine congrArg Cells.each (Vector.ext fun i inside => ?_)
    simp [toVector, rows]

theorem rows_ite_written (kept : Bool) (cells : Cells α height) :
    (if kept then cells else cells.written).rows indices =
      if kept then cells.rows indices else (cells.rows indices).written := by
  cases kept with
  | false => exact rows_written indices cells
  | true => rfl

theorem toList_rows (cells : Cells α height) :
    (cells.rows indices).toList = indices.map cells.get := by
  cases cells with
  | each cells => simp [rows, toList, toVector, get]
  | uniform cell =>
    have same : (uniform cell : Cells α height).get = fun _ => cell := rfl
    simp [rows, toList, toVector, same, List.map_const']

/-- Some rows of the result are the result for these rows, if there is one row in both cases or in
neither, or if it makes no difference which of the columns is uniform. -/
theorem rows_zipWith (f : Spread → α → β → γ) (xs : Cells α height) (ys : Cells β height)
    (alike : (height = 1 ↔ indices.length = 1) ∨ ∀ row,
      f (xs.spread ys) (xs.get row) (ys.get row) = f .neither (xs.get row) (ys.get row)) :
    (xs.zipWith f ys).rows indices = (xs.rows indices).zipWith f (ys.rows indices) := by
  have same (spread : Spread) (row : Fin height) (spreads : xs.spread ys = spread) :
      f (if height = 1 then .neither else spread) (xs.get row) (ys.get row) =
        f (if indices.length = 1 then .neither else spread) (xs.get row) (ys.get row) := by
    rcases alike with sole | alike
    · by_cases one : height = 1
      · rw [if_pos one, if_pos (sole.mp one)]
      · rw [if_neg one, if_neg fun h => one (sole.mpr h)]
    · have equal := alike row
      rw [spreads] at equal
      split <;> split <;> simp [equal]
  cases xs with
  | uniform x =>
    cases ys with
    | uniform y => rfl
    | each ys =>
      refine congrArg Cells.each (Vector.ext fun i inside => ?_)
      simpa [rows, get] using same .left (indices[i]) rfl
  | each xs =>
    cases ys with
    | uniform y =>
      refine congrArg Cells.each (Vector.ext fun i inside => ?_)
      simpa [rows, get] using same .right (indices[i]) rfl
    | each ys =>
      refine congrArg Cells.each (Vector.ext fun i inside => ?_)
      simp

end Rows

end DesignMatrix.Cells
