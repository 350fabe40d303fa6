import DesignMatrix.Proofs.ElementwiseTerms
import DesignMatrix.Proofs.MatchingOutcomes
import DesignMatrix.Proofs.RowwiseOperators

/-!
# Expressions on some of the rows

On some rows of a frame, an elementwise expression fails as it does on the frame, or has a value of
the same type. The cells of this value are those of the rows, if every operator acts row by row. One
that does not still shows it only between a single row and several.
-/

namespace DesignMatrix

open Outcomes

namespace Frame

variable (frame : Frame) (indices : List (Fin frame.height))

@[simp] theorem names_rows : (frame.rows indices).names = frame.names := by
  simp [names, rows, Series.rows, Function.comp_def]

@[simp] theorem width_rows : (frame.rows indices).width = frame.width := by
  simp [width, rows]

@[simp] theorem nameAt_rows (index : ℤ) :
    (frame.rows indices).nameAt index = frame.nameAt index := by
  simp [nameAt]

theorem column?_rows (name : String) :
    (frame.rows indices).column? name = (frame.column? name).map (·.rows indices) := by
  simp only [column?, rows, List.find?_map]
  rfl

end Frame

namespace Expr

variable {frame : Frame} (indices : List (Fin frame.height))

theorem readColumn_rows (name : String) :
    readColumn (frame.rows indices) name = (readColumn frame name).map (·.rows indices) := by
  unfold readColumn
  rw [Frame.column?_rows]
  cases frame.column? name <;> rfl

theorem missing?_rows (expr : Expr) : expr.missing? (frame.rows indices) = expr.missing? frame := by
  induction expr with
  | column name | basis name => simp [missing?, missing?.missingName]
  | position index => simp [missing?, missing?.missingName]
  | literal x => rfl
  | renamed _ operand ih | call _ operand ih => exact ih
  | binary operator lhs rhs ihl ihr => simp [missing?, ihl, ihr]

theorem typeOn_rows (expr : Expr) : expr.typeOn (frame.rows indices) = expr.typeOn frame := by
  have readType (name : String) {α : Type} (f : ElementType → α) :
      (readColumn (frame.rows indices) name).map (fun series => f series.type) =
        (readColumn frame name).map fun series => f series.type := by
    rw [readColumn_rows]
    cases readColumn frame name <;> rfl
  induction expr with
  | column name => exact readType name ResultType.fixed
  | position index =>
    simp only [typeOn, Frame.nameAt_rows]
    exact readType _ ResultType.fixed
  | basis name => exact readType name fun _ => ResultType.fixed .float64
  | literal x => rfl
  | renamed _ operand ih => exact ih
  | call _ operand ih => simp [typeOn, ih]
  | binary operator lhs rhs ihl ihr => simp [typeOn, ihl, ihr]

end Expr

namespace Value

variable {height : ℕ} (indices : List (Fin height))

/-- The value in the rows of the given indices. -/
def rows (value : Value height) : Value indices.length :=
  ⟨value.type, value.isScalar, value.cells.rows indices⟩

theorem cellsAs_rows (type : ElementType) (value : Value height) :
    (value.rows indices).cellsAs type = (value.cellsAs type).rows indices :=
  (Cells.rows_map indices _ value.cells).symm

theorem mapDoubles_rows (f : Float → Float) (value : Value height) :
    (value.rows indices).mapDoubles f = (value.mapDoubles f).rows indices := by
  have cells : (if value.isScalar then ((value.rows indices).cellsAs .float64).map (Option.map f)
      else (((value.rows indices).cellsAs .float64).map (Option.map f)).written) =
      (if value.isScalar then (value.cellsAs .float64).map (Option.map f)
        else ((value.cellsAs .float64).map (Option.map f)).written).rows indices := by
    rw [Cells.rows_ite_written, cellsAs_rows, Cells.rows_map]
  exact congrArg (Value.mk (.fixed .float64) value.isScalar) cells

/-- The value is a scalar, of which only one cell is kept. -/
def IsSingle (value : Value height) : Prop :=
  value.isScalar = true ∧ value.cells.IsUniform

/-- An exponent that reads no column is the same number in every frame. -/
theorem IsSingle.single?_eq {value : Value height} (h : value.IsSingle) :
    ∃ exponent, value.single? = some exponent ∧ (value.rows indices).single? = some exponent := by
  obtain ⟨scalar, uniform⟩ := h
  obtain ⟨cell, cells⟩ := uniform.exists_eq
  have single {height : ℕ} (value : Value height) (scalar : value.isScalar = true)
      (cell : Option value.type.element.Value) (cells : value.cells = .uniform cell) :
      value.single? = some (cell.bind value.type.element.toDouble?) := by
    unfold single?
    split
    · simp only [cellsAs, cells, Cells.get]
      rfl
    · simp only [toScalar?, scalar, cells]
      rfl
  exact ⟨_, single value scalar cell cells,
    single (value.rows indices) scalar cell (congrArg (Cells.rows · indices) cells)⟩

theorem IsSingle.mapDoubles {value : Value height} (h : value.IsSingle) (f : Float → Float) :
    (value.mapDoubles f).IsSingle := by
  obtain ⟨scalar, uniform⟩ := h
  have cells : (value.mapDoubles f).cells = ((value.cellsAs .float64).map (Option.map f)) :=
    if_pos scalar
  exact ⟨scalar, cells ▸ (uniform.map _).map _⟩

theorem IsSingle.power {base exponent : Value height} (hb : base.IsSingle)
    (he : exponent.IsSingle) : (base.power exponent).IsSingle := by
  have scalar : (base.isScalar && exponent.isScalar) = true := by simp [hb.1, he.1]
  have cells : (base.power exponent).cells = powers base exponent := if_pos scalar
  refine ⟨scalar, cells ▸ ?_⟩
  unfold powers
  split
  · exact (hb.2.map _).map _
  · exact (hb.2.map _).zipWith (he.2.map _) _

theorem power_rows (base : Value height) {exponent : Value height} (single : exponent.IsSingle) :
    (base.rows indices).power (exponent.rows indices) = (base.power exponent).rows indices := by
  obtain ⟨number, onFrame, onRows⟩ := single.single?_eq indices
  have powers : powers (base.rows indices) (exponent.rows indices) =
      (powers base exponent).rows indices := by
    simp only [DesignMatrix.powers, onFrame, onRows, Cells.rows_map, cellsAs_rows]
  have cells : (if base.isScalar && exponent.isScalar then
        DesignMatrix.powers (base.rows indices) (exponent.rows indices)
      else (DesignMatrix.powers (base.rows indices) (exponent.rows indices)).written) =
      (if base.isScalar && exponent.isScalar then DesignMatrix.powers base exponent
        else (DesignMatrix.powers base exponent).written).rows indices := by
    rw [Cells.rows_ite_written, powers]
  exact congrArg (Value.mk (.fixed .float64) (base.isScalar && exponent.isScalar)) cells

/--
The second value has the type of the first one. If they have to agree exactly, it holds the cells of
the rows.
-/
structure Restricts (exact : Prop) (whole : Value height) (part : Value indices.length) :
    Prop where
  type : part.type = whole.type
  cells : exact → part = whole.rows indices

end Value

namespace Operator

variable {height : ℕ} {operator : Operator} {left right : Value height}

/-- The operator gives in every row what it gives for the two cells of the row alone. -/
def IsRowwise (operator : Operator) (left right : Value height) : Prop :=
  ∀ type, operator.sharedType? left.type right.type = some type → ∀ row x y,
    (left.cellsAs type.element).get row = some x → (right.cellsAs type.element).get row = some y →
    operator.perform? (left.cells.spread right.cells) type.element x y =
      operator.perform? .neither type.element x y

theorem isRowwise_of_isPlain (plain : ∀ type,
    operator.sharedType? left.type right.type = some type → ∀ row x y,
    (left.cellsAs type.element).get row = some x → (right.cellsAs type.element).get row = some y →
      operator.IsPlain (left.cells.spread right.cells) type.element x y) :
    operator.IsRowwise left right :=
  fun type shared row x y hx hy => (plain type shared row x y hx hy).perform?_eq

/-- The value of an operator other than a power in the type that the operands are brought to. -/
def combine (operator : Operator) (type : ResultType) (left right : Value height) : Value height :=
  ⟨type, left.isScalar && right.isScalar, (left.cellsAs type.element).zipWith
    (fun spread => liftCells (operator.perform? spread type.element))
    (right.cellsAs type.element)⟩

theorem onValues_of_sharedType? {type : ResultType}
    (shared : operator.sharedType? left.type right.type = some type) :
    operator.onValues left right =
      if operator.isDefined type.element right.type.element then
        if operator = .power then .ok (left.power right) else .ok (operator.combine type left right)
      else .error .operandTypes := by
  simp only [onValues, shared]
  rfl

theorem isSingle_combine {type : ResultType} (hl : left.IsSingle) (hr : right.IsSingle) :
    (operator.combine type left right).IsSingle := by
  have scalar : (left.isScalar && right.isScalar) = true := by simp [hl.1, hr.1]
  have uniformLeft : (left.cellsAs type.element).IsUniform := hl.2.map _
  have uniformRight : (right.cellsAs type.element).IsUniform := hr.2.map _
  exact ⟨scalar, uniformLeft.zipWith uniformRight fun spread =>
    liftCells (operator.perform? spread type.element)⟩

theorem combine_rows (indices : List (Fin height)) {type : ResultType}
    (shared : operator.sharedType? left.type right.type = some type)
    (rowwise : (height = 1 ↔ indices.length = 1) ∨ operator.IsRowwise left right) :
    operator.combine type (left.rows indices) (right.rows indices) =
      (operator.combine type left right).rows indices := by
  have cells := Cells.rows_zipWith indices
    (fun spread => liftCells (operator.perform? spread type.element))
    (left.cellsAs type.element) (right.cellsAs type.element)
    (rowwise.imp_right fun rowwise row => by
      have spread : (left.cellsAs type.element).spread (right.cellsAs type.element) =
          left.cells.spread right.cells := Cells.spread_map _ _ _ _
      rw [spread]
      cases hx : (left.cellsAs type.element).get row with
      | none => rfl
      | some x =>
        cases hy : (right.cellsAs type.element).get row with
        | none => rfl
        | some y => exact rowwise type shared row x y hx hy)
  rw [← Value.cellsAs_rows, ← Value.cellsAs_rows] at cells
  exact congrArg (Value.mk type (left.isScalar && right.isScalar)) cells.symm

theorem onValues_rows (indices : List (Fin height))
    (rowwise : (height = 1 ↔ indices.length = 1) ∨ operator.IsRowwise left right)
    (single : operator = .power → right.IsSingle) :
    operator.onValues (left.rows indices) (right.rows indices) =
      (operator.onValues left right).map (·.rows indices) := by
  cases shared : operator.sharedType? left.type right.type with
  | none => simp only [onValues, Value.rows, shared, Except.map]
  | some type =>
    have whole := onValues_of_sharedType? shared
    have part : operator.onValues (left.rows indices) (right.rows indices) = _ :=
      onValues_of_sharedType? shared
    by_cases defined : operator.isDefined type.element right.type.element = true
    · replace whole := whole.trans (if_pos defined)
      replace part := part.trans (if_pos defined)
      by_cases power : operator = .power
      · rw [whole, part, if_pos power, if_pos power, left.power_rows indices (single power)]
        rfl
      · rw [whole, part, if_neg power, if_neg power, combine_rows indices shared rowwise]
        rfl
    · rw [whole.trans (if_neg defined), part.trans (if_neg defined)]
      rfl

/-- Whether an operator has a value, and of which type, depends on the types of its operands. -/
theorem onValues_type {height' : ℕ} {left' right' : Value height'} (hl : left'.type = left.type)
    (hr : right'.type = right.type) :
    Matches (fun whole part => part.type = whole.type) (operator.onValues left right)
      (operator.onValues left' right') := by
  cases shared : operator.sharedType? left.type right.type with
  | none =>
    have shared' : operator.sharedType? left'.type right'.type = none := by rw [hl, hr, shared]
    simp only [onValues, shared, shared']
    exact .error _
  | some type =>
    have shared' : operator.sharedType? left'.type right'.type = some type := by
      rw [hl, hr, shared]
    rw [onValues_of_sharedType? shared, onValues_of_sharedType? shared', hr]
    split
    · split
      · exact .ok rfl
      · exact .ok rfl
    · exact .error _

theorem matches_onValues {indices : List (Fin height)} {exact : Prop}
    {left' right' : Value indices.length} (hl : left.Restricts indices exact left')
    (hr : right.Restricts indices exact right')
    (rowwise : exact → (height = 1 ↔ indices.length = 1) ∨ operator.IsRowwise left right)
    (single : exact → operator = .power → right.IsSingle) :
    Matches (Value.Restricts indices exact) (operator.onValues left right)
      (operator.onValues left' right') := by
  by_cases exactly : exact
  · rw [hl.cells exactly, hr.cells exactly,
      onValues_rows indices (rowwise exactly) (single exactly)]
    exact (Matches.map_right _ _).imp fun whole part same => ⟨same ▸ rfl, fun _ => same⟩
  · exact (onValues_type hl.type hr.type).imp fun whole part same =>
      ⟨same, fun h => absurd h exactly⟩

theorem isSingle_of_onValues {value : Value height} (hl : left.IsSingle) (hr : right.IsSingle)
    (h : operator.onValues left right = .ok value) : value.IsSingle := by
  cases shared : operator.sharedType? left.type right.type with
  | none => simp [onValues, shared] at h
  | some type =>
    rw [onValues_of_sharedType? shared] at h
    split at h
    · split at h
      · exact Except.ok.inj h ▸ hl.power hr
      · exact Except.ok.inj h ▸ isSingle_combine hl hr
    · cases h

end Operator

namespace Expr

/-- No exponent in the expression reads a column. -/
def ConstantExponents : Expr → Prop
  | .column _ | .position _ | .literal _ | .basis _ _ _ => True
  | .renamed _ operand => operand.ConstantExponents
  | .call _ argument => argument.ConstantExponents
  | .binary operator lhs rhs =>
    lhs.ConstantExponents ∧ rhs.ConstantExponents ∧ (operator = .power → rhs.sources = [])

/-- On the frame, every operator in the expression acts row by row. -/
def IsRowwise (frame : Frame) : Expr → Prop
  | .column _ | .position _ | .literal _ | .basis _ _ _ => True
  | .renamed _ operand => operand.IsRowwise frame
  | .call _ argument => argument.IsRowwise frame
  | .binary operator lhs rhs => lhs.IsRowwise frame ∧ rhs.IsRowwise frame ∧
    ∀ left right, lhs.valueOn frame = .ok left → rhs.valueOn frame = .ok right →
      operator.IsRowwise left right

variable {frame : Frame}

/-- An expression that reads no column has a single value. -/
theorem isSingle_of_valueOn {expr : Expr} (elementwise : expr.Elementwise)
    (constant : expr.sources = []) {value : Value frame.height}
    (h : expr.valueOn frame = .ok value) : value.IsSingle := by
  induction expr generalizing value with
  | column name => cases constant
  | literal x =>
    cases h
    exact ⟨rfl, trivial⟩
  | renamed name operand ih => exact ih elementwise constant h
  | binary operator lhs rhs ihl ihr =>
    obtain ⟨constantl, constantr⟩ := List.append_eq_nil_iff.mp constant
    simp only [valueOn, bind_eq_ok, mapError_eq_ok] at h
    obtain ⟨left, hl, right, hr, applied⟩ := h
    exact Operator.isSingle_of_onValues (ihl elementwise.1 constantl hl)
      (ihr elementwise.2 constantr hr) applied
  | call transform argument ih =>
    simp only [valueOn, bind_eq_ok, Except.ok.injEq] at h
    obtain ⟨operand, computed, rfl⟩ := h
    exact (ih elementwise constant computed).mapDoubles transform.apply
  | position => exact elementwise.elim
  | basis => exact elementwise.elim

theorem matches_valueOn (indices : List (Fin frame.height)) {exact : Prop} {expr : Expr}
    (elementwise : expr.Elementwise) (constant : expr.ConstantExponents)
    (rowwise : exact → (frame.height = 1 ↔ indices.length = 1) ∨ expr.IsRowwise frame) :
    Matches (Value.Restricts indices exact) (expr.valueOn frame)
      (expr.valueOn (frame.rows indices)) := by
  induction expr with
  | column name =>
    simp only [valueOn, valueOn.columnValue, readColumn_rows]
    refine .mapError ?_ _
    cases readColumn frame name with
    | error e => exact .error e
    | ok series => exact .ok ⟨rfl, fun _ => rfl⟩
  | literal x => exact .ok ⟨rfl, fun _ => rfl⟩
  | renamed name operand ih => exact ih elementwise constant rowwise
  | binary operator lhs rhs ihl ihr =>
    obtain ⟨elementwisel, elementwiser⟩ := elementwise
    obtain ⟨constantl, constantr, exponent⟩ := constant
    refine (ihl elementwisel constantl fun h => (rowwise h).imp_right (·.1)).bind
      fun left left' computedl hl => ?_
    refine (ihr elementwiser constantr fun h => (rowwise h).imp_right (·.2.1)).bind
      fun right right' computedr hr => .mapError ?_ _
    refine Operator.matches_onValues hl hr (fun h => ?_) fun _ power => ?_
    · exact (rowwise h).imp_right fun rowwise => rowwise.2.2 left right computedl computedr
    · exact isSingle_of_valueOn elementwiser (exponent power) computedr
  | call transform argument ih =>
    refine (ih elementwise constant rowwise).bind fun whole part _ related => .ok ⟨rfl, ?_⟩
    intro exactly
    rw [related.cells exactly]
    exact whole.mapDoubles_rows indices transform.apply
  | position => exact elementwise.elim
  | basis => exact elementwise.elim

end Expr

end DesignMatrix
