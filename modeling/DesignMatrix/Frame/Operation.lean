import DesignMatrix.Frame.Cells
import DesignMatrix.Frame.ResultType
import DesignMatrix.Number.LogOnePlus

/-!
# Operations on cells

Sums, differences and products stay in the common type of their operands, where integers wrap
around. Quotients, powers and transforms work on doubles. An operand that is one number for all rows
is handled once and for all: its reciprocal takes the place of a divisor, and a zero that is added
leaves every row as it is, even a zero with a sign.
-/

namespace DesignMatrix

namespace Operator

section Arithmetic

variable {α : Type} [Add α] [Sub α] [Mul α] [Neg α] [BEq α] [OfNat α 0]

/-- A row with a number for all rows added to it. -/
def shifted (number x : α) : α := if number == 0 then x else x + number

/-- A number for all rows less a row. -/
def mirrored (number x : α) : α := if number == 0 then -x else number - x

/-- A sum. -/
def sum : Spread → α → α → α
  | .neither, x, y => x + y
  | .left, x, y => shifted x y
  | .right, x, y => shifted y x

/-- A difference. -/
def difference : Spread → α → α → α
  | .neither, x, y => x - y
  | .left, x, y => mirrored x y
  | .right, x, y => shifted (-y) x

/-- A sum, a difference or a product. -/
def arithmetic? (operator : Operator) (spread : Spread) (x y : α) : Option α :=
  match operator with
  | .add => some (sum spread x y)
  | .subtract => some (difference spread x y)
  | .multiply => some (x * y)
  | .divide | .power => none

end Arithmetic

/-- A quotient. -/
def quotient (spread : Spread) (x y : Float) : Float :=
  if spread = .right then x * (1 / y) else x / y

/-- The operator on two values of the type of its result; powers are not formed cell by cell. -/
def perform? (operator : Operator) (spread : Spread) : (type : ElementType) → type.Value →
    type.Value → Option type.Value
  | .float64, x, y =>
    if operator = .divide then some (quotient spread x y)
    else @arithmetic? Float _ _ _ _ _ _ operator spread x y
  | .float32, x, y => @arithmetic? Float32 _ _ _ _ _ _ operator spread x y
  | .int64, x, y => @arithmetic? Int64 _ _ _ _ _ _ operator spread x y
  | .int32, x, y => @arithmetic? Int32 _ _ _ _ _ _ operator spread x y
  | .uint32, x, y => @arithmetic? UInt32 _ _ _ _ _ _ operator spread x y
  | .boolean, _, _ => none
  | .text, x, y => if operator = .add then some (x ++ y) else none

end Operator

/-- The product of `count + 1` equal factors, from left to right. -/
def repeatedProduct (x : Float) : Nat → Float
  | 0 => x
  | count + 1 => repeatedProduct x count * x

/--
A power with one exponent for a whole column: a square root for `0.5`, repeated multiplication for
the natural numbers from 2 to 9.
-/
def powerBy (exponent base : Float) : Float :=
  if exponent == 0.5 then base.sqrt
  else match natural? exponent with
    | some n => if 2 ≤ n && n ≤ 9 then repeatedProduct base (n - 1) else base.pow exponent
    | none => base.pow exponent

/-- A transform of a double. Logarithms to other bases are quotients of natural logarithms. -/
def Transform.apply : Transform → Float → Float
  | .log, x => x.log / Float.log 2.718281828459045
  | .log10, x => x.log / Float.log 10
  | .log2, x => x.log / Float.log 2
  | .log1p, x => logOnePlus x
  | .exp, x => x.exp
  | .sqrt, x => x.sqrt
  | .abs, x => x.abs

end DesignMatrix
