import DesignMatrix.Formula.Transform

/-!
# Arithmetic expressions over columns

The expressions inside `I(...)` and inside the call of a transform, together with the text that
names them. The text has a pair of parentheses exactly where the grammar of arithmetic would
otherwise group differently, except that a sign that is a right operand always has one.
-/

namespace DesignMatrix

/-- The binary operators of arithmetic. -/
inductive Operator where
  | add | subtract | multiply | divide | power
  deriving DecidableEq, Repr

namespace Operator

/-- Binding strength: the higher binds tighter. -/
def precedence : Operator → Nat
  | .add | .subtract => 1
  | .multiply | .divide => 2
  | .power => 3

/-- The operator as it is written. -/
def symbol : Operator → String
  | .add => "+"
  | .subtract => "-"
  | .multiply => "*"
  | .divide => "/"
  | .power => "**"

end Operator

/-- A numeric expression over columns. -/
inductive Arith where
  | column (name : String)
  /-- A number with the text it was written as. -/
  | number (value : Float) (text : String)
  | negate (operand : Arith)
  | binary (operator : Operator) (lhs rhs : Arith)
  | call (transform : Transform) (argument : Arith)
  /-- Column `order` of the orthogonal polynomial basis of a column up to `degree`. -/
  | basis (source : String) (degree order : Nat)
  deriving BEq, Repr

namespace Arith

/-- Binding strength of the outermost construct. A sign binds looser than `**`. -/
def precedence : Arith → Nat
  | .binary operator _ _ => operator.precedence
  | .negate _ => 2
  | _ => 4

/-- A left operand needs parentheses. Powers group to the right, all else to the left. -/
def enclosesLeft (operator : Operator) (lhs : Arith) : Bool :=
  if operator = .power then lhs.precedence ≤ operator.precedence
  else lhs.precedence < operator.precedence

/-- A right operand needs parentheses. -/
def enclosesRight (operator : Operator) (rhs : Arith) : Bool :=
  if operator = .power then rhs.precedence < operator.precedence
  else rhs.precedence ≤ operator.precedence

/-- The text, in parentheses if asked for. -/
def enclose (parentheses : Bool) (text : String) : String :=
  if parentheses then "(" ++ text ++ ")" else text

/-- The text of an expression. -/
def text : Arith → String
  | .column name => name
  | .number _ text => text
  | .negate operand => "-" ++ enclose (operand.precedence < 3) operand.text
  | .binary operator lhs rhs =>
    enclose (enclosesLeft operator lhs) lhs.text ++ " " ++ operator.symbol ++ " " ++
      enclose (enclosesRight operator rhs) rhs.text
  | .call transform argument => transform.name ++ "(" ++ argument.text ++ ")"
  | .basis source _ order => "poly_" ++ source ++ "_" ++ toString order

end Arith

end DesignMatrix
