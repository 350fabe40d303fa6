import DesignMatrix.Design.CleanName
import DesignMatrix.Design.Error
import DesignMatrix.Design.ParsedFormula

/-!
# Building a design matrix

A design is a response and a matrix of predictors, computed from the columns of a frame. Every
expression reads the frame as it was given; the columns of the matrix do not see each other.
-/

namespace DesignMatrix

/-- A response and a matrix of predictors. -/
structure Design where
  height : Nat
  response : Series height
  matrix : Frame

namespace Design

/-- The response of a parsed formula, which has to have one. -/
def requireResponse (parsed : ParsedFormula) : Except FormulaError Expr :=
  match parsed.response with
  | some response => .ok response
  | none => .error .missingResponse

/-- The response, the predictors and the wish for an intercept that a formula stands for. -/
def parse (parser : FormulaParser) (formula : String) :
    Except FormulaError (Expr × List Predictor × Bool) := do
  let parsed ← parser formula
  let response ← requireResponse parsed
  .ok (response, parsed.predictors, parsed.intercept)

/-- The name of a design column, cleaned if the configuration says so. -/
def columnName (config : Config) (name : String) : String :=
  if config.cleanNames then cleanName name else name

/-- The name of the predictor at a position, counted from 1, before it is cleaned. -/
def predictorName (config : Config) (position : Nat) (predictor : Predictor) : String :=
  predictor.name?.getD (config.fallbackName position)

/-- The constant column, if both the formula and the configuration want it. -/
def interceptColumn (config : Config) (intercept : Bool) : List (String × Expr) :=
  if intercept && config.intercept then
    [(columnName config config.interceptName, .literal 1)]
  else []

/-- The columns of a design matrix: the constant column, then the predictors in their order. -/
def columns (config : Config) (predictors : List Predictor) (intercept : Bool) :
    List (String × Expr) :=
  interceptColumn config intercept ++ predictors.mapIdx fun index predictor =>
    (columnName config (predictorName config (index + 1) predictor), predictor.expr)

/-- The response of a design under the label of the configuration. -/
def responseOn (config : Config) (frame : Frame) (response : Expr) :
    Except EvaluationError ((height : Nat) × Series height) := do
  let projected ← frame.project [(config.responseName, response)]
  let series ← (Expr.readColumn projected config.responseName).mapError .frame
  .ok ⟨projected.height, series.written⟩

/-- Builds the design of a formula on a frame. -/
def build (parser : FormulaParser) (config : Config) (frame : Frame) (formula : String) :
    Except DesignError Design := do
  config.validate.mapError .config
  let (response, predictors, intercept) ← (parse parser formula).mapError .formula
  let ⟨height, response⟩ ← (responseOn config frame response).mapError .evaluation
  let matrix ← (frame.project (columns config predictors intercept)).mapError .evaluation
  .ok ⟨height, response, matrix⟩

/-- The matrix with the response as one more column, or in place of the column of its name. -/
def toFrame (design : Design) : Except FrameError Frame :=
  design.matrix.set ⟨design.height, design.response⟩

end Design

end DesignMatrix
