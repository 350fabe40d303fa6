import DesignMatrix.Text.Reading
import DesignMatrix.Yaml.Character

/-!
# Gaps

What stands between two words of a flow scalar. On one line it is part of the text. Over several
lines it is folded: a single newline becomes a space, of several newlines the first is dropped, and
the blanks around them have no meaning.
-/

namespace DesignMatrix.Yaml

/-- The blanks and breaks between two words. -/
inductive Gap where
  /-- Blanks within a line. -/
  | blanks (text : List Char)
  /-- Breaks; the first one is `none` when it is escaped. -/
  | breaks (first : Option Char) (more : List Char)
  deriving DecidableEq, Repr

namespace Gap

def empty : Gap := .blanks []

/-- The gap with one more blank or break at its end. -/
def push : Gap → Char → Gap
  | .blanks text, c => if isBreak c then .breaks (some c) [] else .blanks (text ++ [c])
  | .breaks first more, c => .breaks first (if isBreak c then more ++ [c] else more)

/-- The gap that some blanks and breaks make. -/
def ofList (cs : List Char) : Gap := cs.foldl push empty

/-- What the gap contributes to the text. -/
def text : Gap → List Char
  | .blanks text => text
  | .breaks (some '\n') [] => [' ']
  | .breaks (some '\n') more => more
  | .breaks first more => first.toList ++ more

/-- The gap reaches over several lines. -/
def isBroken : Gap → Bool
  | .blanks _ => false
  | .breaks _ _ => true

end Gap

end DesignMatrix.Yaml
