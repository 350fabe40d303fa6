import DesignMatrix.Formula.Description
import DesignMatrix.Frame.Expr

/-!
# Parsed formulas

What the construction of a design matrix needs to know of a formula. Any function from texts to
parsed formulas can take the place of the standard grammar.
-/

namespace DesignMatrix

/-- A predictor and the name it reports for its column. -/
structure Predictor where
  expr : Expr
  name? : Option String
  deriving BEq, Repr

/-- A response, predictors, and whether an intercept is asked for. -/
structure ParsedFormula where
  response : Option Expr
  predictors : List Predictor
  intercept : Bool
  deriving BEq, Repr

/-- A grammar of formulas. -/
abbrev FormulaParser := String → Except FormulaError ParsedFormula

/-- The predictor of an expression, which reports the name of its output. -/
def Predictor.ofExpr (expr : Expr) : Predictor := ⟨expr, expr.outputName?⟩

/-- A predictor that reports no name. -/
def Predictor.anonymous (predictor : Predictor) : Predictor := ⟨predictor.expr, none⟩

namespace ParsedFormula

def ofDescription (description : Description) : ParsedFormula where
  response := description.response.map Expr.ofTerm
  predictors := description.predictors.map fun term => .ofExpr (.ofTerm term)
  intercept := description.intercept

/-- The parsed formula with a response only if one is asked for. -/
def restrictResponse (wanted : Bool) (parsed : ParsedFormula) : ParsedFormula :=
  if wanted then parsed else ⟨none, parsed.predictors, parsed.intercept⟩

/-- The parsed formula in which the predictors at some positions report no name. -/
def hideNames (positions : List Nat) (parsed : ParsedFormula) : ParsedFormula where
  response := parsed.response
  predictors := parsed.predictors.mapIdx fun position predictor =>
    if position ∈ positions then predictor.anonymous else predictor
  intercept := parsed.intercept

end ParsedFormula

/-- The standard grammar of formulas. -/
def standardParser : FormulaParser := fun text =>
  (describe text).map ParsedFormula.ofDescription

end DesignMatrix
