import DesignMatrix.Formula.Term

/-!
# Formulas

A formula has a side left of the tilde, the response, which may be absent, and a side right of it,
the predictors. Each side is a tree of factors and of the operators that combine terms.
-/

namespace DesignMatrix

/-- The operators between terms. -/
inductive Connective where
  /-- `a + b`: the terms of both. -/
  | add
  /-- `a - b`: the terms of the left side that the right side lacks. -/
  | remove
  /-- `a:b`: the products of a term of each. -/
  | interact
  /-- `a * b`: the terms of both and their products. -/
  | cross
  /-- `a / b`: the terms of the left side, and their product with each of the right side. -/
  | nest
  deriving DecidableEq, Repr

/-- One side of a formula. -/
inductive Tree where
  /-- `0`, no intercept. -/
  | zero
  /-- `1`, an intercept. -/
  | one
  | factor (atom : Factor)
  /-- The orthogonal polynomials of a column up to a degree, or its raw powers. -/
  | poly (source : String) (degree : Nat) (raw : Bool)
  | binary (connective : Connective) (lhs rhs : Tree)
  /-- A minus sign, which only `0` and `1` may have. -/
  | negate (operand : Tree)
  /-- All products of at most `order` terms of the base. -/
  | power (base : Tree) (order : Nat)
  deriving BEq, Repr

/-- Both sides of a formula. -/
structure Formula where
  response : Option Tree
  predictors : Tree
  deriving BEq, Repr

end DesignMatrix
