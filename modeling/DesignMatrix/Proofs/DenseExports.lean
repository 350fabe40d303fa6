import DesignMatrix.Proofs.DenseGaps

/-!
# Dense exports

An export has the double of every cell in its place. So a column of numbers is exported unless a
cell is missing, and what is reported otherwise is missing indeed. That is not so of texts: one that
is no numeral is reported like a missing cell.
-/

namespace DesignMatrix

open Outcomes

theorem presentFrom_eq_ok {start : ℕ} {cells : List (Option Float)} {values : List Float} :
    presentFrom start cells = .ok values ↔ cells = values.map some := by
  induction cells generalizing start values with
  | nil => cases values <;> simp [presentFrom]
  | cons cell cells ih =>
    cases cell with
    | none => cases values <;> simp [presentFrom]
    | some x =>
      rw [presentFrom, map_eq_ok]
      cases values with
      | nil => simp
      | cons value values => simp [ih, and_comm]

/-- A list has the double of each cell of the column. -/
def Column.HasDoubles {height : ℕ} (column : Column height) (values : List Float) : Prop :=
  values.length = height ∧ ∀ row : Fin height, ∃ x y, column.cells.get row = some x ∧
    column.type.toDouble? x = some y ∧ values[row.val]? = some y

theorem Column.doubles_eq_iff {height : ℕ} {column : Column height} {values : List Float} :
    column.doubles = values.map some ↔ column.HasDoubles values := by
  have size : column.doubles.length = height := by simp [doubles]
  constructor
  · intro same
    have length : values.length = height := by simpa [size] using (congrArg List.length same).symm
    refine ⟨length, fun row => ?_⟩
    have cell := getElem?_doubles column row
    rw [same, List.getElem?_map, Option.map_eq_some_iff] at cell
    obtain ⟨y, found, read⟩ := cell
    obtain ⟨x, held, double⟩ := Option.bind_eq_some_iff.mp read.symm
    exact ⟨x, y, held, double, found⟩
  · rintro ⟨length, exact⟩
    refine List.ext_getElem? fun row => ?_
    by_cases inside : row < height
    · obtain ⟨x, y, held, double, found⟩ := exact ⟨row, inside⟩
      rw [getElem?_doubles column ⟨row, inside⟩, held, Option.bind_some, double,
        List.getElem?_map, found, Option.map_some]
    · rw [List.getElem?_eq_none (by omega), List.getElem?_eq_none (by simp; omega)]

theorem Series.dense_eq_ok {height : ℕ} {series : Series height} {values : List Float} :
    series.dense = .ok values ↔ series.HasDoubles values := by
  rw [dense, mapError_eq_ok, presentFrom_eq_ok, Column.doubles_eq_iff]

/-- A view of a list that leaves nothing out keeps the places. -/
theorem getElem?_filterMap {α β : Type} {f : α → Option β} {xs : List α}
    (full : ∀ x ∈ xs, (f x).isSome) (i : ℕ) : (xs.filterMap f)[i]? = xs[i]?.bind f := by
  induction xs generalizing i with
  | nil => rfl
  | cons x xs ih =>
    obtain ⟨first, rest⟩ := List.forall_mem_cons.mp full
    obtain ⟨y, found⟩ := Option.isSome_iff_exists.mp first
    rw [List.filterMap_cons_some found]
    cases i with
    | zero => exact found.symm
    | succ i => exact ih rest i

namespace DenseMatrix

theorem entry?_eq_some {matrix : DenseMatrix} {row column : ℕ} {x : Float} :
    matrix.entry? row column = some x ↔
      ∃ values, matrix.columns[column]? = some values ∧ values[row]? = some x := by
  unfold entry?
  simp [Option.bind_eq_some_iff]

/-- In a matrix without gaps, the rows and the columns have the same entries. -/
theorem getElem?_rows {matrix : DenseMatrix}
    (full : ∀ values ∈ matrix.columns, values.length = matrix.rowCount) (row column : ℕ) :
    matrix.rows[row]?.bind (·[column]?) = matrix.entry? row column := by
  have entry : matrix.entry? row column = matrix.columns[column]?.bind (·[row]?) := rfl
  rw [entry, rows, List.getElem?_map]
  by_cases inside : row < matrix.rowCount
  · rw [List.getElem?_range inside, Option.map_some, Option.bind_some]
    refine getElem?_filterMap (fun values member => ?_) column
    simpa [full values member] using inside
  · rw [List.getElem?_eq_none (by simpa using inside), Option.map_none, Option.bind_none]
    refine (Option.bind_eq_none_iff.mpr fun values found => ?_).symm
    have length := full values (List.mem_of_getElem? found)
    exact List.getElem?_eq_none (by omega)

end DenseMatrix

namespace Frame

variable {frame : Frame}

/-- A frame is exported as the exports of its columns side by side. -/
theorem dense_eq_ok {matrix : DenseMatrix} :
    frame.dense = .ok matrix ↔ matrix.rowCount = frame.height ∧
      List.Forall₂ (fun series values => series.dense = .ok values)
        frame.columns matrix.columns := by
  simp only [dense_eq_map, map_eq_ok, mapM_eq_ok]
  constructor
  · rintro ⟨columns, exported, rfl⟩
    exact ⟨rfl, exported⟩
  · rintro ⟨rows, exported⟩
    exact ⟨matrix.columns, exported, congrArg (DenseMatrix.mk · matrix.columns) rows.symm⟩

/-- The matrix has the shape of the frame, and the double of a cell in the place of the cell. -/
def HasEntries (frame : Frame) (matrix : DenseMatrix) : Prop :=
  matrix.rowCount = frame.height ∧ matrix.columnCount = frame.width ∧
  (∀ values ∈ matrix.columns, values.length = matrix.rowCount) ∧
  ∀ (row : Fin frame.height) (position : Fin frame.width), ∃ x y,
    frame.columns[position].cells.get row = some x ∧
    frame.columns[position].type.toDouble? x = some y ∧
    matrix.entry? row position = some y ∧ matrix.rows[row.val]?.bind (·[position.val]?) = some y

theorem hasEntries_of_dense {matrix : DenseMatrix} (h : frame.dense = .ok matrix) :
    frame.HasEntries matrix := by
  obtain ⟨rows, exported⟩ := dense_eq_ok.mp h
  simp only [Series.dense_eq_ok] at exported
  have full : ∀ values ∈ matrix.columns, values.length = matrix.rowCount := by
    intro values member
    obtain ⟨series, -, length, -⟩ := exists_mem_of_forall₂ exported.flip member
    exact length.trans rows.symm
  have width : matrix.columns.length = frame.width := exported.length_eq.symm
  refine ⟨rows, width, full, fun row position => ?_⟩
  have inside : position.val < matrix.columns.length := by simp [width]
  obtain ⟨-, doubles⟩ := exported.get position.isLt inside
  obtain ⟨x, y, held, double, found⟩ := doubles row
  have entry : matrix.entry? row position = some y :=
    DenseMatrix.entry?_eq_some.mpr ⟨_, List.getElem?_eq_getElem inside, found⟩
  exact ⟨x, y, held, double, entry, (DenseMatrix.getElem?_rows full row position).trans entry⟩

end Frame

/-- Numbers are exported exactly, unless a cell is missing. Then the first one is reported, of the
first column that has one. -/
theorem dense_exact_or_first_missing {frame : Frame} (numeric : frame.IsNumeric) :
    ((∃ matrix, frame.dense = .ok matrix) ↔
      ∀ series ∈ frame.columns, ∀ row, ¬series.MissingAt row) ∧
    (∀ matrix, frame.dense = .ok matrix → frame.HasEntries matrix) ∧
    (∀ error, frame.dense = .error error ↔ ∃ front series back row,
      frame.columns = front ++ series :: back ∧
      (∀ before ∈ front, ∀ row, ¬before.MissingAt row) ∧ series.FirstMissingAt row ∧
      .missingValue series.name row = error) ∧
    (∀ {height : ℕ} (series : Series height), series.type ≠ .text →
      ((∃ values, series.dense = .ok values) ↔ ∀ row, ¬series.MissingAt row) ∧
      (∀ values, series.dense = .ok values → series.HasDoubles values) ∧
      ∀ error, series.dense = .error error ↔
        ∃ row, series.FirstMissingAt row ∧ .missingValue series.name row = error) ∧
    (∀ matrix, frame.dense = .ok matrix ↔ matrix.rowCount = frame.height ∧
      List.Forall₂ (fun series values => series.dense = .ok values)
        frame.columns matrix.columns) ∧
    ∀ error, frame.dense = .error error ↔ ∃ front series back,
      frame.columns = front ++ series :: back ∧
      (∀ before ∈ front, ∃ values, before.dense = .ok values) ∧ series.dense = .error error := by
  refine ⟨Frame.exists_dense_iff numeric, fun _ => Frame.hasEntries_of_dense,
    fun _ => Frame.dense_eq_error numeric, fun series number => ?_, fun _ => Frame.dense_eq_ok,
    fun _ => Frame.dense_eq_error_iff_exists⟩
  exact ⟨Series.exists_dense_iff number, fun _ => Series.dense_eq_ok.mp,
    fun _ => Series.dense_eq_error number⟩

/-- The gap of a column on the left is reported, though a column behind it has one further up. -/
theorem dense_eq_error_of_two_gaps :
    let first : Series 2 := ⟨⟨.float64, .uniform (some 1)⟩, "a"⟩
    let second : Series 2 := ⟨⟨.boolean, .each #v[some true, none]⟩, "b"⟩
    let third : Series 2 := ⟨⟨.int64, .each #v[none, some 3]⟩, "c"⟩
    let frame : Frame := ⟨2, [first, second, third], by decide⟩
    frame.IsNumeric ∧ frame.dense = .error (.missingValue "b" 1) := by
  intro first second third frame
  have numeric : frame.IsNumeric := by
    simp [Frame.IsNumeric, frame, first, second, third]
  obtain ⟨-, -, reported, -⟩ := dense_exact_or_first_missing numeric
  refine ⟨numeric, (reported _).mpr ⟨[first], second, [third], 1, rfl, ?_, ⟨?_, ?_⟩, rfl⟩⟩
  · intro before member row
    obtain rfl := List.mem_singleton.mp member
    rintro ⟨_, ⟨⟩⟩
  · exact ⟨by decide, rfl⟩
  · intro earlier below
    obtain rfl : earlier = 0 := by omega
    rintro ⟨_, ⟨⟩⟩

/-- What is reported as missing is the first cell that is missing or a text that is no numeral.
There are no other errors. -/
theorem dense_reports_first_gap {height : ℕ} (series : Series height) (frame : Frame)
    (error : DesignError) :
    (series.dense = .error error ↔
      ∃ row, (series.MissingAt row ∨ series.UnreadableAt row) ∧
        (∀ earlier < row, ¬series.MissingAt earlier ∧ ¬series.UnreadableAt earlier) ∧
        .missingValue series.name row = error) ∧
    (frame.dense = .error error ↔
      ∃ (front : List (Series frame.height)) (series : Series frame.height)
        (back : List (Series frame.height)) (row : ℕ), frame.columns = front ++ series :: back ∧
        (∀ before ∈ front, ∀ row, ¬before.MissingAt row ∧ ¬before.UnreadableAt row) ∧
        (series.MissingAt row ∨ series.UnreadableAt row) ∧
        (∀ earlier < row, ¬series.MissingAt earlier ∧ ¬series.UnreadableAt earlier) ∧
        .missingValue series.name row = error) := by
  constructor
  · simp only [Series.dense_eq_error_iff, Column.FirstGapAt, Column.GapAt, not_or, and_assoc]
  · simp only [Frame.dense_eq_error_iff, Column.FirstGapAt, Column.GapAt, not_or, and_assoc]

/-- A text is reported as missing, in a column and in a frame in which no cell is. -/
theorem dense_eq_missingValue_of_text :
    let series : Series 2 := ⟨⟨.text, .each #v[some "1.5", some "abc"]⟩, "s"⟩
    let frame : Frame := ⟨2, [series], by decide⟩
    series.dense = .error (.missingValue "s" 1) ∧ frame.dense = .error (.missingValue "s" 1) ∧
      ∀ row, ¬series.MissingAt row := by
  intro series frame
  have numeral : double? "1.5".toList ≠ none :=
    mt Option.map_eq_none_iff.mp (by decide +kernel)
  have noNumeral : double? "abc".toList = none :=
    Option.map_eq_none_iff.mpr (by decide +kernel)
  have present : ∀ row, ¬series.MissingAt row := by
    rintro row ⟨inside, missing⟩
    match row with
    | 0 => cases missing
    | 1 => cases missing
  have first : series.FirstGapAt 1 := by
    refine ⟨.inr ⟨_, by decide, "abc", rfl, rfl, noNumeral⟩, fun earlier below => ?_⟩
    obtain rfl : earlier = 0 := by omega
    rintro (missing | ⟨cells, inside, text, same, held, unread⟩)
    · exact present 0 missing
    · cases same
      cases held
      exact numeral unread
  have reported := Series.dense_eq_error_iff.mpr ⟨1, first, rfl⟩
  exact ⟨reported,
    Frame.dense_eq_error_iff_exists.mpr ⟨[], series, [], rfl, by simp, reported⟩, present⟩

end DesignMatrix
