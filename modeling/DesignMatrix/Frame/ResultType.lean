import DesignMatrix.Formula.Arith
import DesignMatrix.Frame.ElementType

/-!
# Types of results

A result has the type of its cells, with one distinction more: the doubles that come from literals,
and from nothing else but integers, are loose. They give way to single precision, while all other
doubles draw a single-precision operand to their side.
-/

namespace DesignMatrix

/-- The type of a result. -/
inductive ResultType where
  | fixed (type : ElementType)
  /-- Doubles that become single-precision next to a single-precision operand. -/
  | loose
  deriving DecidableEq, Repr

namespace ResultType

/-- The type of the cells of a result. -/
def element : ResultType → ElementType
  | .fixed type => type
  | .loose => .float64

/-- The type that a loose result and a column are brought to. -/
def besideLoose? (type : ElementType) : Option ResultType :=
  if type.isFloating then some (.fixed type)
  else if type.isInteger then some .loose
  else if type = .boolean then some (.fixed .float64)
  else none

/-- The type that two results are brought to. -/
def common? : ResultType → ResultType → Option ResultType
  | .loose, .loose => some .loose
  | .loose, .fixed type | .fixed type, .loose => besideLoose? type
  | .fixed left, .fixed right => (left.common? right).map .fixed

end ResultType

namespace Operator

/--
The type that the operands of an operator are brought to, which is also the type of its result. The
sum of two truth values counts.
-/
def sharedType? (operator : Operator) (left right : ResultType) : Option ResultType :=
  match operator with
  | .divide | .power => some (.fixed .float64)
  | .add =>
    if left = .fixed .boolean ∧ right = .fixed .boolean then some (.fixed .uint32)
    else left.common? right
  | .subtract | .multiply => left.common? right

/-- An operator has results in a type, if its right operand is of the other type. -/
def isDefined (operator : Operator) (shared right : ElementType) : Bool :=
  match operator with
  | .divide => true
  | .power => right.isNumber
  | .add => shared.isNumber || shared = .text
  | .subtract | .multiply => shared.isNumber

end Operator

end DesignMatrix
