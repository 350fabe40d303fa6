import DesignMatrix.Formula.Expansion
import DesignMatrix.Formula.TreeReader

/-!
# What a formula describes

A formula describes at most one response term, a list of predictor terms, and whether the
predictors include an intercept. They do unless the formula removes it.
-/

namespace DesignMatrix

/-- The terms of both sides of a formula. -/
structure Description where
  /-- The response term; none when the formula has no left side. -/
  response : Option Term
  predictors : List Term
  intercept : Bool
  deriving BEq, Repr

namespace Description

/-- The single term that a left side stands for. -/
def responseOf (side : Tree) : Except FormulaError Term :=
  match side.expand.terms with
  | [term] => .ok term
  | terms => .error (.invalidResponse terms.length)

/-- What a syntax tree describes. -/
def ofFormula (formula : Formula) : Except FormulaError Description := do
  let response ← formula.response.mapM responseOf
  let expansion := formula.predictors.expand
  .ok ⟨response, expansion.terms, expansion.effect != .absent⟩

end Description

/-- What the text of a formula describes. -/
def describe (text : String) : Except FormulaError Description := do
  let formula ← Formula.parse text
  Description.ofFormula formula

end DesignMatrix
