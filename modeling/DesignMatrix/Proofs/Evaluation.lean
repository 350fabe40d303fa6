import DesignMatrix.Frame.Evaluation
import DesignMatrix.Proofs.Outcomes

/-!
# Expressions that have a value

Evaluation looks at an expression three times: for columns that are missing, for operands without a
common type, and for its value. An expression that has a value passes the first two, so that the
value is all that matters.
-/

namespace DesignMatrix

open Outcomes

theorem Operator.sharedType?_of_onValues {height : Nat} {operator : Operator}
    {left right value : Value height} (h : operator.onValues left right = .ok value) :
    operator.sharedType? left.type right.type = some value.type := by
  unfold onValues at h
  split at h
  · cases h
  · rename_i type shared
    split at h
    · split at h
      · rename_i power
        subst power
        cases h
        rfl
      · cases h
        exact shared
    · cases h

namespace Expr

variable {frame : Frame}

theorem readColumn_eq_ok {name : String} {series : Series frame.height} :
    readColumn frame name = .ok series ↔ frame.column? name = some series := by
  unfold readColumn
  split <;> simp_all

theorem name_of_readColumn {name : String} {series : Series frame.height}
    (h : readColumn frame name = .ok series) : series.name = name := by
  have found := readColumn_eq_ok.mp h
  simpa using List.find?_some found

theorem mem_names_of_readColumn {name : String} {series : Series frame.height}
    (h : readColumn frame name = .ok series) : name ∈ frame.names := by
  have found := List.mem_of_find?_eq_some (readColumn_eq_ok.mp h)
  exact List.mem_map.mpr ⟨series, found, name_of_readColumn h⟩

theorem missingName_of_readColumn {name : String} {series : Series frame.height}
    (h : readColumn frame name = .ok series) : missing?.missingName frame name = none := by
  simp [missing?.missingName, mem_names_of_readColumn h]

/-- An expression that has a value reads no column that the frame lacks. -/
theorem missing?_of_valueOn {expr : Expr} {value : Value frame.height}
    (h : expr.valueOn frame = .ok value) : expr.missing? frame = none := by
  induction expr generalizing value with
  | column name =>
    simp only [valueOn, valueOn.columnValue, mapError_eq_ok, map_eq_ok] at h
    obtain ⟨series, read, -⟩ := h
    exact missingName_of_readColumn read
  | position index =>
    simp only [valueOn, valueOn.columnValue, mapError_eq_ok, map_eq_ok] at h
    obtain ⟨series, read, -⟩ := h
    exact missingName_of_readColumn read
  | literal x => rfl
  | renamed name operand ih => exact ih h
  | binary operator lhs rhs ihl ihr =>
    simp only [valueOn, bind_eq_ok] at h
    obtain ⟨left, hl, right, hr, -⟩ := h
    simp [missing?, ihl hl, ihr hr]
  | call transform argument ih =>
    simp only [valueOn, bind_eq_ok] at h
    obtain ⟨operand, hv, -⟩ := h
    exact ih hv
  | basis source degree order =>
    simp only [valueOn, bind_eq_ok, mapError_eq_ok] at h
    obtain ⟨series, read, -⟩ := h
    exact missingName_of_readColumn read

/-- The type that is found ahead of evaluation is that of the value. -/
theorem typeOn_of_valueOn {expr : Expr} {value : Value frame.height}
    (h : expr.valueOn frame = .ok value) : expr.typeOn frame = .ok value.type := by
  induction expr generalizing value with
  | column name =>
    simp only [valueOn, valueOn.columnValue, mapError_eq_ok, map_eq_ok] at h
    obtain ⟨series, read, rfl⟩ := h
    simp [typeOn, read, Except.map, Value.ofColumn]
  | position index =>
    simp only [valueOn, valueOn.columnValue, mapError_eq_ok, map_eq_ok] at h
    obtain ⟨series, read, rfl⟩ := h
    simp [typeOn, read, Except.map, Value.ofColumn]
  | literal x =>
    cases h
    rfl
  | renamed name operand ih => exact ih h
  | binary operator lhs rhs ihl ihr =>
    simp only [valueOn, bind_eq_ok, mapError_eq_ok] at h
    obtain ⟨left, hl, right, hr, applied⟩ := h
    have shared := Operator.sharedType?_of_onValues applied
    simp [typeOn, ihl hl, ihr hr, bind, Except.bind, shared]
  | call transform argument ih =>
    simp only [valueOn, bind_eq_ok, Except.ok.injEq] at h
    obtain ⟨operand, hv, rfl⟩ := h
    simp [typeOn, ih hv, Except.map, Value.mapDoubles]
  | basis source degree order =>
    simp only [valueOn, bind_eq_ok, mapError_eq_ok, Except.ok.injEq] at h
    obtain ⟨series, read, column, basis, rfl⟩ := h
    have float : column.type = .float64 := by
      unfold basisColumn at basis
      split at basis
      · cases basis
      · simp only [bind_eq_ok, Except.ok.injEq] at basis
        obtain ⟨_, -, rfl⟩ := basis
        rfl
    simp [typeOn, read, Except.map, Value.ofColumn, float]

/--
The expression alone has this column as its value on the frame. One that reads every column stands
for as many expressions, and has a value of its own only where that is a single one.
-/
def Yields (frame : Frame) (expr : Expr) (column : Column frame.height) : Prop :=
  ∃ sole value, expr.instances frame.names = [sole] ∧ sole.valueOn frame = .ok value ∧
    value.toColumn = column

theorem Yields.unique {expr : Expr} {column column' : Column frame.height}
    (h : expr.Yields frame column) (h' : expr.Yields frame column') : column = column' := by
  obtain ⟨sole, value, single, evaluated, rfl⟩ := h
  obtain ⟨sole', value', single', evaluated', rfl⟩ := h'
  obtain rfl : sole = sole' := by simpa using single.symm.trans single'
  obtain rfl : value = value' := by simpa using evaluated.symm.trans evaluated'
  rfl

/--
The expression has a value when it is selected alone, under some label. One that stands for several
columns does not count as evaluating, for all of them would have this one label.
-/
def EvaluatesOn (frame : Frame) (expr : Expr) : Prop :=
  ∃ label alone, frame.select [(label, expr)] = .ok alone

end Expr

end DesignMatrix
