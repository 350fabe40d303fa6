import DesignMatrix.Frame.Cells
import DesignMatrix.Frame.ElementType

/-!
# Data frames

A frame is a list of columns with distinct names and one height. A cell that is `none` is missing.
-/

namespace DesignMatrix

/-- The cells of a column, without its name. -/
structure Column (height : Nat) where
  type : ElementType
  cells : Cells (Option type.Value) height

/-- A named column. -/
structure Series (height : Nat) extends Column height where
  name : String

namespace Column

variable {height : Nat}

/-- The cells as doubles. -/
def doubles (column : Column height) : List (Option Float) :=
  column.cells.toList.map fun cell => cell.bind column.type.toDouble?

/-- The column with its only cell in every one of the rows. -/
def repeated (column : Column 1) (height : Nat) : Column height :=
  ⟨column.type, .uniform (column.cells.get 0)⟩

/-- The column with its cells written out for each row. -/
def written (column : Column height) : Column height := ⟨column.type, column.cells.written⟩

/-- The column with the rows of the given indices. -/
def rows (column : Column height) (indices : List (Fin height)) : Column indices.length :=
  ⟨column.type, column.cells.rows indices⟩

end Column

namespace Series

variable {height : Nat}

/-- The series with its only cell in every one of the rows. -/
def repeated (series : Series 1) (height : Nat) : Series height :=
  ⟨series.toColumn.repeated height, series.name⟩

/-- The series with its cells written out for each row. -/
def written (series : Series height) : Series height := ⟨series.toColumn.written, series.name⟩

/-- The series with the rows of the given indices. -/
def rows (series : Series height) (indices : List (Fin height)) : Series indices.length :=
  ⟨series.toColumn.rows indices, series.name⟩

end Series

/-- Why a frame cannot be made, or an expression cannot be evaluated on it. -/
inductive FrameError where
  | missingColumn (name : String)
  /-- Two columns of a new frame have the same name. -/
  | duplicateColumn (name : String)
  /-- Two columns that are added to a frame have the same name. -/
  | repeatedOutput (name : String)
  | unequalHeights
  /-- An operator does not take operands of these types. -/
  | operandTypes
  deriving DecidableEq, Repr

/-- The first name that occurs a second time in a list. -/
def firstRepeated? : List String → Option String
  | [] => none
  | name :: rest => if name ∈ rest then some name else firstRepeated? rest

theorem nodup_of_firstRepeated? {names : List String} (h : firstRepeated? names = none) :
    names.Nodup := by
  induction names with
  | nil => exact List.nodup_nil
  | cons name rest ih =>
    unfold firstRepeated? at h
    split at h
    · cases h
    · rename_i absent
      exact List.nodup_cons.mpr ⟨absent, ih h⟩

/-- Columns with distinct names and one height. -/
structure Frame where
  height : Nat
  columns : List (Series height)
  distinct : (columns.map Series.name).Nodup

namespace Frame

/-- The frame without columns and rows. -/
def empty : Frame := ⟨0, [], List.nodup_nil⟩

/-- The names of the columns. -/
def names (frame : Frame) : List String := frame.columns.map Series.name

/-- The number of columns. -/
def width (frame : Frame) : Nat := frame.columns.length

/-- The column of a name. -/
def column? (frame : Frame) (name : String) : Option (Series frame.height) :=
  frame.columns.find? fun series => series.name == name

/--
The name of the column at a position; a negative one counts from the end. A position without a
column stands for the name of a column all the same.
-/
def nameAt (frame : Frame) (index : Int) : String :=
  let position := if index < 0 then index + frame.width else index
  let beyond := if index = 0 then "first" else if index = -1 then "last" else "nth"
  if position < 0 then beyond else frame.names[position.toNat]?.getD beyond

/-- The series in one height, if they all have it. -/
def aligned? (height : Nat) : List ((n : Nat) × Series n) → Option (List (Series height))
  | [] => some []
  | ⟨n, series⟩ :: rest =>
    if h : n = height then (aligned? height rest).map (h ▸ series :: ·) else none

/-- The frame of columns of one height. -/
def ofSeries {height : Nat} (columns : List (Series height)) : Except FrameError Frame :=
  match h : firstRepeated? (columns.map Series.name) with
  | some name => .error (.duplicateColumn name)
  | none => .ok ⟨height, columns, nodup_of_firstRepeated? h⟩

/-- The frame of some columns. Names that repeat are found before heights that differ. -/
def ofColumns (columns : List ((n : Nat) × Series n)) : Except FrameError Frame :=
  match firstRepeated? (columns.map fun column => column.2.name) with
  | some name => .error (.duplicateColumn name)
  | none =>
    match columns with
    | [] => .ok empty
    | first :: _ =>
      match aligned? first.1 columns with
      | some columns => ofSeries columns
      | none => .error .unequalHeights

/-- A list of columns with one more: in place of the one of its name, or else at the end. -/
def putColumn {height : Nat} (columns : List (Series height)) (series : Series height) :
    List (Series height) :=
  if series.name ∈ columns.map Series.name then
    columns.map fun column => if column.name = series.name then series else column
  else columns ++ [series]

/-- A list of names with one more, unless it is there already. -/
def putName (names : List String) (name : String) : List String :=
  if name ∈ names then names else names ++ [name]

theorem names_putColumn {height : Nat} (columns : List (Series height)) (series : Series height) :
    (putColumn columns series).map Series.name = putName (columns.map Series.name) series.name := by
  unfold putColumn putName
  split
  · rw [List.map_map]
    apply List.map_congr_left
    intro column _
    by_cases h : column.name = series.name <;> simp [h]
  · simp

theorem nodup_putColumn {height : Nat} {columns : List (Series height)} (series : Series height)
    (h : (columns.map Series.name).Nodup) :
    ((putColumn columns series).map Series.name).Nodup := by
  rw [names_putColumn]
  unfold putName
  split
  · exact h
  · rename_i absent
    exact List.nodup_append.mpr ⟨h, by simp, by
      intro a ha b hb
      simp only [List.mem_singleton] at hb
      subst hb
      intro equal
      exact absent (equal ▸ ha)⟩

/-- The frame with one more column, or with another column of that name. -/
def put (frame : Frame) (series : Series frame.height) : Frame :=
  ⟨frame.height, putColumn frame.columns series, nodup_putColumn series frame.distinct⟩

/--
The frame with a column added or replaced. A column of one cell is repeated to the height of the
frame. A frame without columns takes the height of the column, but keeps its own if that is larger
and the column has one cell.
-/
def set (frame : Frame) (column : (n : Nat) × Series n) : Except FrameError Frame :=
  if h : column.1 = frame.height then .ok (frame.put (h ▸ column.2))
  else if h : column.1 = 1 ∧ (frame.columns.isEmpty = false ∨ 1 < frame.height) then
    .ok (frame.put ((h.1 ▸ column.2 : Series 1).repeated frame.height))
  else if frame.columns.isEmpty then ofSeries [column.2]
  else .error .unequalHeights

/-- The frame without a column. -/
def drop (frame : Frame) (name : String) : Except FrameError Frame :=
  if name ∈ frame.names then
    .ok ⟨frame.height, frame.columns.filter (·.name ≠ name),
      frame.distinct.sublist (List.filter_sublist.map Series.name)⟩
  else .error (.missingColumn name)

/-- The frame with the rows of the given indices. -/
def rows (frame : Frame) (indices : List (Fin frame.height)) : Frame :=
  ⟨indices.length, frame.columns.map (·.rows indices), by
    simpa [Function.comp_def, Series.rows] using frame.distinct⟩

/-- The first rows of the frame. -/
def head (frame : Frame) (count : Nat) : Frame :=
  frame.rows ((List.finRange frame.height).take count)

end Frame

end DesignMatrix
