import DesignMatrix.Config.Basic
import DesignMatrix.Formula.Error
import DesignMatrix.Frame.Evaluation

/-!
# Why a design matrix cannot be made or exported
-/

namespace DesignMatrix

/-- Why a design matrix cannot be made or exported. -/
inductive DesignError where
  | formula (error : FormulaError)
  | evaluation (error : EvaluationError)
  | config (error : ConfigError)
  /-- A column that is exported has a missing value; rows are counted from 0. -/
  | missingValue (column : String) (row : Nat)
  deriving DecidableEq, Repr

namespace DesignError

/-- The formula was rejected. -/
def isFormulaError : DesignError → Bool
  | .formula _ => true
  | _ => false

/-- The frame lacks a column that is read. -/
def isMissingColumn : DesignError → Bool
  | .evaluation (.frame (.missingColumn _)) => true
  | _ => false

/-- The message of an error, if it has one of its own. -/
def message? : DesignError → Option String
  | .formula error => some error.message
  | .evaluation (.basis fault) => some fault.message
  | .evaluation (.frame _) => none
  | .config error => error.message?
  | .missingValue column row =>
    some ("column '" ++ column ++ "' has a missing value at row " ++ toString row)

end DesignError

end DesignMatrix
