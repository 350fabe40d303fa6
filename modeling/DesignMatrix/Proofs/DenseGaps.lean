import DesignMatrix.Design.Dense
import DesignMatrix.Proofs.CellRows
import DesignMatrix.Proofs.Outcomes
import Mathlib.Order.Basic
import Mathlib.Data.Nat.Find

/-!
# Gaps in dense exports

A column is exported unless a cell is missing or is a text that is no numeral, and then the first
such cell is reported. A frame is exported unless one of its columns is not, and then the first of
these has the error.
-/

namespace DesignMatrix

open Outcomes

/-- The columns hold numbers and truth values. -/
def Frame.IsNumeric (frame : Frame) : Prop := ∀ series ∈ frame.columns, series.type ≠ .text

theorem ElementType.exists_toDouble? {type : ElementType} (number : type ≠ .text)
    (x : type.Value) : ∃ y, type.toDouble? x = some y := by
  cases type <;> first | exact absurd rfl number | exact ⟨_, rfl⟩

namespace Column

variable {height row : ℕ} {column : Column height}

/-- The cell in a row is missing. -/
def MissingAt (column : Column height) (row : ℕ) : Prop :=
  ∃ inside : row < height, column.cells.get ⟨row, inside⟩ = none

/-- The column holds texts, and the one in a row is no numeral. -/
def UnreadableAt (column : Column height) (row : ℕ) : Prop :=
  ∃ (cells : Cells (Option String) height) (inside : row < height) (text : String),
    column = ⟨.text, cells⟩ ∧ cells.get ⟨row, inside⟩ = some text ∧ double? text.toList = none

/-- The cell in a row has no double: it is missing, or a text that is no numeral. -/
def GapAt (column : Column height) (row : ℕ) : Prop :=
  column.MissingAt row ∨ column.UnreadableAt row

theorem gapAt_iff_missingAt (number : column.type ≠ .text) :
    column.GapAt row ↔ column.MissingAt row := by
  refine or_iff_left ?_
  rintro ⟨cells, -, -, rfl, -⟩
  exact number rfl

theorem getElem?_doubles (column : Column height) (row : Fin height) :
    column.doubles[row.val]? = some ((column.cells.get row).bind column.type.toDouble?) := by
  rw [doubles, List.getElem?_map, Cells.getElem?_toList, Option.map_some]

/-- Exactly the gaps of a column are no doubles. -/
theorem getElem?_doubles_eq_none_iff : column.doubles[row]? = some none ↔ column.GapAt row := by
  by_cases inside : row < height
  · rw [getElem?_doubles column ⟨row, inside⟩, Option.some.injEq]
    cases cell : column.cells.get ⟨row, inside⟩ with
    | none => exact iff_of_true rfl (.inl ⟨inside, cell⟩)
    | some x =>
      have present : ¬column.MissingAt row := fun ⟨_, missing⟩ => by cases cell.symm.trans missing
      rw [GapAt, or_iff_right present, Option.bind_some]
      constructor
      · intro unread
        obtain ⟨type, cells⟩ := column
        by_cases number : type = .text
        · subst number
          exact ⟨cells, inside, x, rfl, cell, unread⟩
        · obtain ⟨y, read⟩ := ElementType.exists_toDouble? number x
          cases unread.symm.trans read
      · rintro ⟨cells, _, text, rfl, held, unread⟩
        obtain rfl := Option.some.inj (cell.symm.trans held)
        exact unread
  · have beyond : column.doubles[row]? = none := by simp [doubles, inside]
    rw [beyond]
    refine iff_of_false nofun ?_
    rintro (⟨within, -⟩ | ⟨-, within, -⟩) <;> exact inside within

/-- The row is the first in which the column has a missing cell. -/
def FirstMissingAt (column : Column height) (row : ℕ) : Prop :=
  column.MissingAt row ∧ ∀ earlier < row, ¬column.MissingAt earlier

/-- The row is the first in which the column has a gap. -/
def FirstGapAt (column : Column height) (row : ℕ) : Prop :=
  column.GapAt row ∧ ∀ earlier < row, ¬column.GapAt earlier

theorem firstGapAt_iff_firstMissingAt (number : column.type ≠ .text) :
    column.FirstGapAt row ↔ column.FirstMissingAt row := by
  simp only [FirstGapAt, FirstMissingAt, gapAt_iff_missingAt number]

theorem exists_firstGapAt (h : column.GapAt row) : ∃ first, column.FirstGapAt first := by
  classical
  have gap : ∃ row, column.GapAt row := ⟨row, h⟩
  exact ⟨Nat.find gap, Nat.find_spec gap, fun earlier below => Nat.find_min gap below⟩

end Column

theorem presentFrom_eq_error {start row : ℕ} {cells : List (Option Float)} :
    presentFrom start cells = .error row ↔ ∃ i, row = start + i ∧ cells[i]? = some none ∧
      ∀ j < i, cells[j]? ≠ some none := by
  induction cells generalizing start with
  | nil => simp [presentFrom]
  | cons cell cells ih =>
    cases cell with
    | none =>
      constructor
      · rintro ⟨⟩
        exact ⟨0, rfl, rfl, by simp⟩
      · rintro ⟨_ | i, rfl, gap, first⟩
        · rfl
        · exact absurd rfl (first 0 (by omega))
    | some x =>
      rw [presentFrom, map_eq_error, ih]
      constructor
      · rintro ⟨i, rfl, gap, first⟩
        refine ⟨i + 1, by omega, gap, fun j below => ?_⟩
        cases j with
        | zero => simp
        | succ j => exact first j (by omega)
      · rintro ⟨_ | i, rfl, gap, first⟩
        · cases gap
        · exact ⟨i, by omega, gap, fun j below => first (j + 1) (by omega)⟩

namespace Series

variable {height : ℕ} {series : Series height}

theorem dense_eq_error_iff {error : DesignError} :
    series.dense = .error error ↔
      ∃ row, series.FirstGapAt row ∧ .missingValue series.name row = error := by
  simp only [dense, mapError_eq_error, presentFrom_eq_error, Column.FirstGapAt, Nat.zero_add,
    ← Column.getElem?_doubles_eq_none_iff, exists_eq_left', ne_eq]

theorem exists_dense_iff_gapless :
    (∃ values, series.dense = .ok values) ↔ ∀ row, ¬series.GapAt row := by
  constructor
  · rintro ⟨values, found⟩ row gap
    obtain ⟨first, isFirst⟩ := Column.exists_firstGapAt gap
    cases found.symm.trans (dense_eq_error_iff.mpr ⟨first, isFirst, rfl⟩)
  · intro full
    cases outcome : series.dense with
    | ok values => exact ⟨values, rfl⟩
    | error error =>
      obtain ⟨row, isFirst, -⟩ := dense_eq_error_iff.mp outcome
      exact absurd isFirst.1 (full row)

theorem dense_eq_error (number : series.type ≠ .text) {error : DesignError} :
    series.dense = .error error ↔
      ∃ row, series.FirstMissingAt row ∧ .missingValue series.name row = error := by
  simp only [dense_eq_error_iff, Column.firstGapAt_iff_firstMissingAt number]

theorem exists_dense_iff (number : series.type ≠ .text) :
    (∃ values, series.dense = .ok values) ↔ ∀ row, ¬series.MissingAt row := by
  simp only [exists_dense_iff_gapless, Column.gapAt_iff_missingAt number]

end Series

namespace Frame

variable {frame : Frame}

theorem dense_eq_map (frame : Frame) :
    frame.dense = (frame.columns.mapM Series.dense).map (⟨frame.height, ·⟩) := by
  unfold dense
  cases frame.columns.mapM Series.dense <;> rfl

/-- The error of a frame is that of its first column that is not exported. -/
theorem dense_eq_error_iff_exists {error : DesignError} :
    frame.dense = .error error ↔ ∃ front series back, frame.columns = front ++ series :: back ∧
      (∀ before ∈ front, ∃ values, before.dense = .ok values) ∧ series.dense = .error error := by
  rw [dense_eq_map, map_eq_error, mapM_eq_error]

theorem dense_eq_error_iff {error : DesignError} :
    frame.dense = .error error ↔ ∃ front series back row,
      frame.columns = front ++ series :: back ∧ (∀ before ∈ front, ∀ row, ¬before.GapAt row) ∧
      series.FirstGapAt row ∧ .missingValue series.name row = error := by
  simp only [dense_eq_error_iff_exists, Series.exists_dense_iff_gapless, Series.dense_eq_error_iff,
    exists_and_left]

theorem dense_eq_error (numeric : frame.IsNumeric) {error : DesignError} :
    frame.dense = .error error ↔ ∃ front series back row,
      frame.columns = front ++ series :: back ∧
      (∀ before ∈ front, ∀ row, ¬before.MissingAt row) ∧ series.FirstMissingAt row ∧
      .missingValue series.name row = error := by
  rw [dense_eq_error_iff]
  refine exists_congr fun front => exists_congr fun series => exists_congr fun back =>
    exists_congr fun row => and_congr_right fun split => ?_
  have number : ∀ before ∈ front ++ series :: back, before.type ≠ .text := split ▸ numeric
  obtain ⟨numberFront, numberRest⟩ := List.forall_mem_append.mp number
  rw [Column.firstGapAt_iff_firstMissingAt (numberRest series List.mem_cons_self)]
  refine and_congr_left' (forall₂_congr fun before member => forall_congr' fun row => ?_)
  exact not_congr (Column.gapAt_iff_missingAt (numberFront before member))

theorem exists_dense_iff (numeric : frame.IsNumeric) :
    (∃ matrix, frame.dense = .ok matrix) ↔
      ∀ series ∈ frame.columns, ∀ row, ¬series.MissingAt row := by
  have everyColumn : (∃ columns, frame.columns.mapM Series.dense = .ok columns) ↔
      ∀ series ∈ frame.columns, ∃ values, series.dense = .ok values := by
    simp only [mapM_eq_ok, exists_forall₂_iff]
  have matrix : (∃ matrix, frame.dense = .ok matrix) ↔
      ∃ columns, frame.columns.mapM Series.dense = .ok columns := by
    simp only [dense_eq_map, map_eq_ok]
    exact ⟨fun ⟨_, columns, found, _⟩ => ⟨columns, found⟩,
      fun ⟨columns, found⟩ => ⟨_, columns, found, rfl⟩⟩
  rw [matrix, everyColumn]
  exact forall₂_congr fun series member => Series.exists_dense_iff (numeric series member)

end Frame

end DesignMatrix
