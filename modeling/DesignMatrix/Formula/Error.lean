import DesignMatrix.Formula.Token

/-!
# Why a formula is rejected
-/

namespace DesignMatrix

/-- What a reader was looking for. -/
inductive Wanted where
  | token (lexeme : Token)
  | term
  | value
  | endOfFormula
  deriving DecidableEq, Repr

/-- What is wrong at one place of a formula. -/
inductive SyntaxFault where
  | invalidNumber (text : String)
  | unterminatedName
  | emptyName
  | unexpectedCharacter (c : Char)
  /-- Something else was wanted than the token found, `none` at the end of the formula. -/
  | unexpected (wanted : Wanted) (found : Option Token)
  | bareNumber (text : String)
  | negatedTerm
  | orderZero
  | orderNotNatural (text : String)
  | orderNotNumber
  deriving DecidableEq, Repr

/-- What is wrong with the arguments of `poly`. -/
inductive PolyFault where
  | noColumn
  | noDegree
  | badDegree
  | badRaw
  deriving DecidableEq, Repr

/-- Why a formula is rejected. -/
inductive FormulaError where
  /-- It breaks the grammar at an offset, counted in bytes. -/
  | malformed (offset : Nat) (fault : SyntaxFault)
  | unknownFunction (name : String)
  | invalidPoly (fault : PolyFault)
  /-- The side left of the tilde stands for a number of terms other than one. -/
  | invalidResponse (count : Nat)
  | missingResponse
  deriving DecidableEq, Repr

/-- The largest degree that `poly` takes. -/
def maxPolyDegree : Nat := 32

/-- The largest order of interaction. -/
def maxOrder : Nat := UInt32.size - 1

/-- What was looked for, as messages name it. -/
def Wanted.description : Wanted → String
  | .token lexeme => lexeme.description
  | .term => "a term"
  | .value => "a value"
  | .endOfFormula => "end of formula"

/-- The token found, or the end of the formula, as messages name it. -/
def describeFound : Option Token → String
  | some token => token.description
  | none => "end of formula"

def SyntaxFault.message : SyntaxFault → String
  | .invalidNumber text => "invalid number '" ++ text ++ "'"
  | .unterminatedName => "unterminated back-quoted name"
  | .emptyName => "empty back-quoted name"
  | .unexpectedCharacter c => "unexpected character '" ++ String.singleton c ++ "'"
  | .unexpected wanted found =>
    "expected " ++ wanted.description ++ ", found " ++ describeFound found
  | .bareNumber text => "number " ++ text ++ " is not a term; wrap arithmetic in I(...)"
  | .negatedTerm => "unary minus is only allowed on 0 and 1"
  | .orderZero => "interaction order must be at least 1"
  | .orderNotNatural text =>
    "interaction order must be an integer no larger than " ++ toString maxOrder ++
      ", found " ++ text
  | .orderNotNumber => "interaction order must be an integer"

def PolyFault.message : PolyFault → String
  | .noColumn => "first argument must be a column name"
  | .noDegree => "missing degree"
  | .badDegree => "degree must be an integer between 1 and " ++ toString maxPolyDegree
  | .badRaw => "raw must be TRUE or FALSE"

def FormulaError.message : FormulaError → String
  | .malformed offset fault => "parse error at position " ++ toString offset ++ ": " ++ fault.message
  | .unknownFunction name => "unknown function: " ++ name
  | .invalidPoly fault => "invalid argument to poly: " ++ fault.message
  | .invalidResponse count => "response must be a single term, found " ++ toString count
  | .missingResponse => "formula has no response term"

end DesignMatrix
