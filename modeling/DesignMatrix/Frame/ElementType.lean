import DesignMatrix.Number.Decimal

/-!
# Types of cells

The types that the cells of a column can have, how values pass from one type to another, and which
type two columns have in common.
-/

namespace DesignMatrix

/-- The type of the cells of a column. -/
inductive ElementType where
  | float64 | float32 | int64 | int32 | uint32 | boolean | text
  deriving DecidableEq, Repr

namespace ElementType

/-- The values of a cell that is not missing. -/
abbrev Value : ElementType → Type
  | .float64 => Float
  | .float32 => Float32
  | .int64 => Int64
  | .int32 => Int32
  | .uint32 => UInt32
  | .boolean => Bool
  | .text => String

/-- An integer as a double, rounded if need be. The least integer is its own opposite. -/
def signedDouble (x : Int64) : Float :=
  if x < 0 then -(-x).toUInt64.toFloat else x.toUInt64.toFloat

/-- A value as a double, rounded if need be. A text has to be a numeral. -/
def toDouble? : (type : ElementType) → type.Value → Option Float
  | .float64, x => some x
  | .float32, x => some x.toFloat
  | .int64, x => some (signedDouble x)
  | .int32, x => some (signedDouble x.toInt64)
  | .uint32, x => some x.toFloat
  | .boolean, x => some (if x then 1 else 0)
  | .text, x => double? x.toList

/-- A truth value as a text. -/
def booleanText (x : Bool) : String := if x then "true" else "false"

/--
A value in a type that holds it. A truth value is `1` or `0` in every number type and a word in a
text; besides doubles, only single-precision numbers take values that they may have to round.
-/
def convert? : (source target : ElementType) → source.Value → Option target.Value
  | source, .float64, x => source.toDouble? x
  | .float32, .float32, x => some x
  | .float64, .float32, x => some x.toFloat32
  | .boolean, .float32, x => some (if x then 1 else 0)
  | .int64, .int64, x => some x
  | .int32, .int64, x => some x.toInt64
  | .uint32, .int64, x => some x.toUInt64.toInt64
  | .boolean, .int64, x => some (if x then 1 else 0)
  | .int32, .int32, x => some x
  | .boolean, .int32, x => some (if x then 1 else 0)
  | .uint32, .uint32, x => some x
  | .boolean, .uint32, x => some (if x then 1 else 0)
  | .boolean, .boolean, x => some x
  | .boolean, .text, x => some (booleanText x)
  | .text, .text, x => some x
  | _, _, _ => none

/-- The values are integers. -/
def isInteger : ElementType → Bool
  | .int64 | .int32 | .uint32 => true
  | _ => false

/-- The values are numbers with a fraction. -/
def isFloating : ElementType → Bool
  | .float64 | .float32 => true
  | _ => false

/-- The values are numbers. -/
def isNumber (type : ElementType) : Bool := type.isInteger || type.isFloating

/--
The type that two columns are brought to: the wider integer type, or `float64` where a floating type
is involved. Truth values take the type of the other side; texts and numbers have no common type.
-/
def common? : ElementType → ElementType → Option ElementType
  | .text, .text | .text, .boolean | .boolean, .text => some .text
  | .text, _ | _, .text => none
  | .boolean, type | type, .boolean => some type
  | .float32, .float32 => some .float32
  | .float64, _ | _, .float64 | .float32, _ | _, .float32 => some .float64
  | .int32, .int32 => some .int32
  | .uint32, .uint32 => some .uint32
  | _, _ => some .int64

end ElementType

end DesignMatrix
