/-!
# Cells of a column

A column has a cell for each row. When it is known that all of them are the same, only one is kept,
and a function of two columns is told which of them is kept in this way.
-/

namespace DesignMatrix

/-- The cells of `height` rows: one for each, or the same in all of them. -/
inductive Cells (α : Type) (height : Nat) where
  | each (cells : Vector α height)
  | uniform (cell : α)

/-- Which of two columns is uniform while the other has a cell for each row. -/
inductive Spread where
  | neither | left | right
  deriving DecidableEq, Repr

namespace Cells

variable {α β γ : Type} {height : Nat}

/-- The cell of a row. -/
def get (cells : Cells α height) (row : Fin height) : α :=
  match cells with
  | .each cells => cells[row]
  | .uniform cell => cell

/-- The cells of all rows. -/
def toVector : Cells α height → Vector α height
  | .each cells => cells
  | .uniform cell => Vector.replicate height cell

def toList (cells : Cells α height) : List α := cells.toVector.toList

/-- The cells, written out for each row. -/
def written (cells : Cells α height) : Cells α height := .each cells.toVector

@[simp] theorem toVector_written (cells : Cells α height) :
    cells.written.toVector = cells.toVector := rfl

def map (f : α → β) : Cells α height → Cells β height
  | .each cells => .each (cells.map f)
  | .uniform cell => .uniform (f cell)

@[simp] theorem toVector_map (f : α → β) (cells : Cells α height) :
    (cells.map f).toVector = cells.toVector.map f := by
  cases cells <;> simp [map, toVector]

/--
The results of a function on the cells of each row. A uniform column of one row is like any other.
-/
def zipWith (f : Spread → α → β → γ) : Cells α height → Cells β height → Cells γ height
  | .uniform x, .uniform y => .uniform (f .neither x y)
  | .uniform x, .each ys => .each (ys.map (f (if height = 1 then .neither else .left) x))
  | .each xs, .uniform y =>
    .each (xs.map fun x => f (if height = 1 then .neither else .right) x y)
  | .each xs, .each ys => .each (Vector.zipWith (f .neither) xs ys)

/-- The cells of the rows of the given indices. -/
def rows (cells : Cells α height) (indices : List (Fin height)) : Cells α indices.length :=
  match cells with
  | .each cells => .each ⟨(indices.map fun i => cells[i]).toArray, by simp⟩
  | .uniform cell => .uniform cell

end Cells

end DesignMatrix
