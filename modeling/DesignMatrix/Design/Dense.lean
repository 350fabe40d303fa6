import DesignMatrix.Design.Error

/-!
# Dense exports

A column or a frame as doubles without gaps. The first gap, by column and then by row, is an error.
-/

namespace DesignMatrix

/-- A matrix of doubles by columns, all of the same length. -/
structure DenseMatrix where
  rowCount : Nat
  columns : List (List Float)

namespace DenseMatrix

def columnCount (matrix : DenseMatrix) : Nat := matrix.columns.length

/-- The entry in a row and a column, if there is one. -/
def entry? (matrix : DenseMatrix) (row column : Nat) : Option Float := do
  (← matrix.columns[column]?)[row]?

/-- The rows from top to bottom. -/
def rows (matrix : DenseMatrix) : List (List Float) :=
  (List.range matrix.rowCount).map fun row => matrix.columns.filterMap (·[row]?)

end DenseMatrix

/-- The cells of a column from a row on, or the first row without one. -/
def presentFrom (row : Nat) : List (Option Float) → Except Nat (List Float)
  | [] => .ok []
  | none :: _ => .error row
  | some x :: rest => (presentFrom (row + 1) rest).map (x :: ·)

/-- A series as doubles. A cell that is no number counts as missing. -/
def Series.dense {height : Nat} (series : Series height) : Except DesignError (List Float) :=
  (presentFrom 0 series.doubles).mapError (.missingValue series.name)

/-- A frame as a matrix of doubles. -/
def Frame.dense (frame : Frame) : Except DesignError DenseMatrix := do
  let columns ← frame.columns.mapM Series.dense
  .ok ⟨frame.height, columns⟩

end DesignMatrix
