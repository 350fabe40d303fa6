import DesignMatrix.Text.Lowercase
import DesignMatrix.Text.Numeric

/-!
# Clean column names

A clean name is in lower snake case: every run of characters that are no letters or digits becomes
one underscore, none stands at either end, and letters are in lower case.
-/

namespace DesignMatrix

namespace CleanName

/-- The name of a column whose own name has no letter or digit. -/
def placeholder : String := "column"

/--
The clean form of the rest of a name. `started` once a letter or digit has been kept, `pending` when
something has been dropped since the last one kept.
-/
def chars : List Char → (started pending : Bool) → List Char
  | [], _, _ => []
  | c :: rest, started, pending =>
    if Text.isAlphanumeric c then
      (if pending && started then ['_'] else []) ++ Text.lowercase c ++ chars rest true false
    else chars rest started true

end CleanName

/-- A column name in lower snake case. -/
def cleanName (name : String) : String :=
  let cleaned := CleanName.chars name.toList false false
  if cleaned.isEmpty then CleanName.placeholder else String.ofList cleaned

end DesignMatrix
