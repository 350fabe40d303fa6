import DesignMatrix.Formula.Term
import DesignMatrix.Frame.Basic

/-!
# Expressions over frames

What a term of a formula stands for on a data frame. An expression reads columns by name or by
position; the name `*` stands for every column of the frame in turn.
-/

namespace DesignMatrix

/-- An expression over the columns of a frame. -/
inductive Expr where
  | column (name : String)
  /-- The column at a position; a negative one counts from the end. -/
  | position (index : Int)
  | literal (value : Float)
  | renamed (name : String) (operand : Expr)
  | binary (operator : Operator) (lhs rhs : Expr)
  | call (transform : Transform) (argument : Expr)
  /-- Column `order` of the orthogonal polynomial basis of a column up to `degree`. -/
  | basis (source : String) (degree order : Nat)
  deriving BEq, Repr

namespace Expr

/-- The name that stands for every column. -/
def wildcard : String := "*"

/-- The expression that an arithmetic expression stands for. A sign is a product with `-1`. -/
def ofArith : Arith → Expr
  | .column name => .column name
  | .number value _ => .literal value
  | .negate operand => .binary .multiply (ofArith operand) (.literal (-1))
  | .binary operator lhs rhs => .binary operator (ofArith lhs) (ofArith rhs)
  | .call transform argument => .call transform (ofArith argument)
  | .basis source degree order => .basis source degree order

/-- The product of some expressions, from left to right; the literal `1` if there are none. -/
def product : List Expr → Expr
  | [] => .literal 1
  | first :: rest => rest.foldl (.binary .multiply) first

/-- The product of the factors of a term, under the name of the term. -/
def ofTerm (term : Term) : Expr :=
  .renamed term.name (product (term.factors.map fun factor => ofArith factor.value))

/-- What the search for the name of an expression finds at its leaves. -/
inductive NameSearch where
  | found (name : String)
  /-- The name depends on the frame. -/
  | undetermined
  /-- There is no name here; one may be found further to the right. -/
  | nothing
  deriving DecidableEq, Repr

/-- Searches the leaves of an expression for a name, from left to right. -/
def searchName : Expr → NameSearch
  | .column name => if name = wildcard then .undetermined else .found name
  | .position _ => .nothing
  | .literal _ => .found "literal"
  | .renamed name _ => .found name
  | .binary _ lhs rhs =>
    match lhs.searchName with
    | .nothing => rhs.searchName
    | result => result
  | .call _ argument => argument.searchName
  | .basis source _ _ => if source = wildcard then .undetermined else .found source

/-- The name of the column that an expression yields, if it can be told and is not empty. -/
def outputName? (expr : Expr) : Option String :=
  match expr.searchName with
  | .found name => if name.isEmpty then none else some name
  | _ => none

/-- The expression reads every column in turn. -/
def hasWildcard : Expr → Bool
  | .column name => name = wildcard
  | .position _ | .literal _ => false
  | .renamed _ operand => operand.hasWildcard
  | .binary _ lhs rhs => lhs.hasWildcard || rhs.hasWildcard
  | .call _ argument => argument.hasWildcard
  | .basis source _ _ => source = wildcard

/-- The expression with a column in place of every column. -/
def withColumn (name : String) : Expr → Expr
  | .column source => .column (if source = wildcard then name else source)
  | .renamed label operand => .renamed label (operand.withColumn name)
  | .binary operator lhs rhs => .binary operator (lhs.withColumn name) (rhs.withColumn name)
  | .call transform argument => .call transform (argument.withColumn name)
  | .basis source degree order => .basis (if source = wildcard then name else source) degree order
  | expr => expr

/-- The expressions that an expression stands for on a frame with columns of the given names. -/
def instances (names : List String) (expr : Expr) : List Expr :=
  if expr.hasWildcard then names.map fun name => expr.withColumn name else [expr]

end Expr

end DesignMatrix
