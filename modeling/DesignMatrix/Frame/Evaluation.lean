import DesignMatrix.Frame.Expr
import DesignMatrix.Frame.Operation
import DesignMatrix.Polynomial.Basis

/-!
# Evaluating expressions on frames

An expression has a value in every row of a frame, or one value for all rows when it reads no
column. Errors come in a fixed order, whatever the number of rows: a column that is missing from
the frame, then names that clash, then operands without a common type. What is left shows when the
expressions are evaluated, one after the other and each from left to right: an operator that has no
results in the type of its operands, and a basis that a column does not have.
-/

namespace DesignMatrix

/-- Why expressions cannot be evaluated on a frame. -/
inductive EvaluationError where
  | frame (error : FrameError)
  | basis (fault : BasisFault)
  deriving DecidableEq, Repr

/--
The value of an expression on a frame. A scalar reads no column: it has one cell, whether the frame
has rows or not.
-/
structure Value (height : Nat) where
  type : ResultType
  isScalar : Bool
  cells : Cells (Option type.element.Value) height

namespace Value

variable {height : Nat}

def ofColumn (column : Column height) : Value height := ⟨.fixed column.type, false, column.cells⟩

/-- The value of a literal. -/
def ofLiteral (value : Float) : Value height := ⟨.loose, true, .uniform (some value)⟩

/-- The column of a value. -/
def toColumn (value : Value height) : Column height := ⟨value.type.element, value.cells⟩

/-- The column of a value under a name. -/
def toSeries (name : String) (value : Value height) : Series height := ⟨value.toColumn, name⟩

/-- The value as a column of one row, if it is a scalar. -/
def toScalar? (value : Value height) : Option (Column 1) :=
  match value.isScalar, value.cells with
  | true, .uniform cell => some ⟨value.type.element, .uniform cell⟩
  | _, _ => none

/-- The cells in another type; those that have no value in it are missing. -/
def cellsAs (type : ElementType) (value : Value height) : Cells (Option type.Value) height :=
  value.cells.map fun cell => cell.bind (value.type.element.convert? type)

/-- The only cell as a double, if the value is a scalar or the frame has one row. -/
def single? (value : Value height) : Option (Option Float) :=
  if h : height = 1 then some ((value.cellsAs .float64).get ⟨0, by omega⟩)
  else value.toScalar?.map fun column =>
    (column.cells.get ⟨0, Nat.one_pos⟩).bind column.type.toDouble?

/--
The results of a function on the value as doubles. Only for a scalar does it stay known that they
are all the same.
-/
def mapDoubles (f : Float → Float) (value : Value height) : Value height :=
  let cells := (value.cellsAs .float64).map (Option.map f)
  ⟨.fixed .float64, value.isScalar, if value.isScalar then cells else cells.written⟩

end Value

/-- A function of two values on cells that may be missing. -/
def liftCells {α β γ : Type} (f : α → β → Option γ) (x : Option α) (y : Option β) : Option γ := do
  f (← x) (← y)

/-- The powers of the cells of a column. One exponent for all rows has special cases. -/
def powers {height : Nat} (base exponent : Value height) : Cells (Option Float) height :=
  match exponent.single? with
  | some exponent => (base.cellsAs .float64).map fun x => liftCells (some <| powerBy · ·) exponent x
  | none => (base.cellsAs .float64).zipWith (fun _ => liftCells (some <| Float.pow · ·))
      (exponent.cellsAs .float64)

/-- A power of two values. Only for scalars is it known that its cells are all the same. -/
def Value.power {height : Nat} (base exponent : Value height) : Value height :=
  let isScalar := base.isScalar && exponent.isScalar
  let cells := powers base exponent
  ⟨.fixed .float64, isScalar, if isScalar then cells else cells.written⟩

/-- The result of an operator on two values. -/
def Operator.onValues {height : Nat} (operator : Operator) (left right : Value height) :
    Except FrameError (Value height) :=
  match operator.sharedType? left.type right.type with
  | none => .error .operandTypes
  | some type =>
    if operator.isDefined type.element right.type.element then
      if operator = .power then .ok (left.power right)
      else .ok ⟨type, left.isScalar && right.isScalar, (left.cellsAs type.element).zipWith
        (fun spread => liftCells (operator.perform? spread type.element))
        (right.cellsAs type.element)⟩
    else .error .operandTypes

/-- Column `order` of the basis of a column up to `degree`. -/
def basisColumn {height : Nat} (series : Series height) (degree order : Nat) :
    Except BasisFault (Series height) :=
  match series.doubles.mapM id with
  | none => .error (.missingValue series.name)
  | some values => do
    let column ← Basis.column values degree order
    let cells := Vector.ofFn fun i : Fin height => some ((column[i.val]?).getD 0)
    .ok ⟨⟨.float64, .each cells⟩, series.name⟩

namespace Expr

/-- The first column that an expression reads and the frame lacks. -/
def missing? (frame : Frame) : Expr → Option FrameError
  | .column name | .basis name _ _ => missingName name
  | .position index => missingName (frame.nameAt index)
  | .literal _ => none
  | .renamed _ operand => operand.missing? frame
  | .binary _ lhs rhs => (lhs.missing? frame).or (rhs.missing? frame)
  | .call _ argument => argument.missing? frame
where
  missingName (name : String) : Option FrameError :=
    if name ∈ frame.names then none else some (.missingColumn name)

/-- The column of a name, or the error that there is none. -/
def readColumn (frame : Frame) (name : String) : Except FrameError (Series frame.height) :=
  match frame.column? name with
  | some series => .ok series
  | none => .error (.missingColumn name)

/-- The type of the value of an expression. -/
def typeOn (frame : Frame) : Expr → Except FrameError ResultType
  | .column name => (readColumn frame name).map (.fixed ·.type)
  | .position index => (readColumn frame (frame.nameAt index)).map (.fixed ·.type)
  | .literal _ => .ok .loose
  | .renamed _ operand => operand.typeOn frame
  | .binary operator lhs rhs => do
    let left ← lhs.typeOn frame
    let right ← rhs.typeOn frame
    match operator.sharedType? left right with
    | some type => .ok type
    | none => .error .operandTypes
  | .call _ argument => (argument.typeOn frame).map fun _ => .fixed .float64
  | .basis source _ _ => (readColumn frame source).map fun _ => .fixed .float64

/-- The value of an expression. -/
def valueOn (frame : Frame) : Expr → Except EvaluationError (Value frame.height)
  | .column name => (columnValue name).mapError .frame
  | .position index => (columnValue (frame.nameAt index)).mapError .frame
  | .literal value => .ok (.ofLiteral value)
  | .renamed _ operand => operand.valueOn frame
  | .binary operator lhs rhs => do
    let left ← lhs.valueOn frame
    let right ← rhs.valueOn frame
    (operator.onValues left right).mapError .frame
  | .call transform argument => do
    let value ← argument.valueOn frame
    .ok (value.mapDoubles transform.apply)
  | .basis source degree order => do
    let series ← (readColumn frame source).mapError .frame
    let column ← (basisColumn series degree order).mapError .basis
    .ok (.ofColumn column.toColumn)
where
  columnValue (name : String) : Except FrameError (Value frame.height) :=
    (readColumn frame name).map fun series => .ofColumn series.toColumn

end Expr

namespace Frame

/-- The named expressions, those that read every column written out for each. -/
def instancesOf (frame : Frame) (columns : List (String × Expr)) : List (String × Expr) :=
  columns.flatMap fun (name, expr) => (expr.instances frame.names).map (name, ·)

/--
Finds the faults of named expressions that show without their cells. Names that clash are reported
by `clash`, after columns that are missing and before operands without a common type.
-/
def check (frame : Frame) (clash : String → FrameError) (columns : List (String × Expr)) :
    Except FrameError Unit :=
  match columns.findSome? fun column => column.2.missing? frame with
  | some error => .error error
  | none =>
    match firstRepeated? (columns.map Prod.fst) with
    | some name => .error (clash name)
    | none => (columns.mapM fun (column : String × Expr) => column.2.typeOn frame).map fun _ => ()

/-- The values of named expressions, each on the frame as it is. -/
def values (frame : Frame) (columns : List (String × Expr)) :
    Except EvaluationError (List (String × Value frame.height)) :=
  columns.mapM fun (name, expr) => (expr.valueOn frame).map (name, ·)

/-- The frame on which expressions are evaluated: one without columns has at least one row. -/
def forEvaluation (frame : Frame) : Frame :=
  if frame.columns.isEmpty then ⟨max 1 frame.height, [], List.nodup_nil⟩ else frame

theorem nodup_foldl_putColumn {height : Nat} {columns : List (Series height)}
    (more : List (Series height)) (h : (columns.map Series.name).Nodup) :
    ((more.foldl putColumn columns).map Series.name).Nodup := by
  induction more generalizing columns with
  | nil => exact h
  | cons series more ih => exact ih (nodup_putColumn series h)

/-- The frame with some values as further columns, or in place of its own. -/
def extend (frame : Frame) (values : List (String × Value frame.height)) : Frame :=
  let series := values.map fun (name, value) => value.toSeries name
  ⟨frame.height, series.foldl putColumn frame.columns, nodup_foldl_putColumn series frame.distinct⟩

/-- The names that a list of names stands for: the wildcard stands for all columns. -/
def chosen (available names : List String) : List String :=
  names.flatMap fun name => if name = Expr.wildcard then available else [name]

/-- The columns of the given names in their order; the wildcard stands for all columns. -/
def choose (frame : Frame) (names : List String) : Except FrameError Frame := do
  let columns ← (chosen frame.names names).mapM (Expr.readColumn frame)
  ofSeries columns

/-- Finds the faults of names that are to be chosen from some others: one missing, one repeated. -/
def checkChosen (available names : List String) : Except FrameError Unit :=
  match (chosen available names).find? (· ∉ available) with
  | some name => .error (.missingColumn name)
  | none =>
    match firstRepeated? (chosen available names) with
    | some name => .error (.duplicateColumn name)
    | none => .ok ()

/--
The values of expressions as columns of a frame of their own. Names that cannot be chosen are found
before any value is computed.
-/
def project (frame : Frame) (columns : List (String × Expr)) : Except EvaluationError Frame :=
  if columns.isEmpty then .ok empty
  else do
    let frame := frame.forEvaluation
    let names := columns.map Prod.fst
    let columns := frame.instancesOf columns
    (frame.check .repeatedOutput columns).mapError .frame
    (checkChosen ((columns.map Prod.fst).foldl putName frame.names) names).mapError .frame
    let values ← frame.values columns
    ((frame.extend values).choose names).mapError .frame

/--
The values of expressions as columns of a frame of their own, which has one row when no expression
reads a column.
-/
def select (frame : Frame) (columns : List (String × Expr)) : Except EvaluationError Frame := do
  let columns := frame.instancesOf columns
  (frame.check .duplicateColumn columns).mapError .frame
  let values ← frame.values columns
  if values.isEmpty then .ok empty
  else
    let series : List (Series frame.height) := values.map fun (name, value) => value.toSeries name
    let scalars := values.mapM fun (name, value) => value.toScalar?.map (Series.mk · name)
    (match scalars with
      | some scalars => ofSeries scalars
      | none => ofSeries series).mapError .frame

end Frame

end DesignMatrix
