import DesignMatrix.Yaml.Gap

/-!
# Plain scalars

A scalar without quotes ends where a colon is followed by a gap, where a comment starts, at a line
that is not indented enough, and inside brackets also at a bracket or a comma.
-/

namespace DesignMatrix.Yaml

/-- The character ends a plain scalar inside brackets. -/
def isFlowIndicator (c : Char) : Bool :=
  c == ',' || c == '[' || c == ']' || c == '{' || c == '}'

/--
The characters up to a gap or to the end of a plain scalar. Inside brackets a colon must not touch
an indicator.
-/
def plainWord? (inFlow : Bool) : List Char → Option (List Char)
  | [] => some []
  | c :: rest =>
    if isGap c || (inFlow && isFlowIndicator c) then some []
    else if c == ':' && atGap rest then some []
    else if c == ':' && inFlow && rest.head?.any fun next => isFlowIndicator next || next == '?' then
      none
    else (plainWord? inFlow rest).map (c :: ·)

/-- A character that no plain scalar starts with, whatever follows it. -/
def isIndicator (c : Char) : Bool :=
  isFlowIndicator c || c == '#' || c == '&' || c == '*' || c == '!' || c == '|' || c == '>' ||
    c == '\'' || c == '"' || c == '%' || c == '@' || c == '\x60'

/-- The column that the last of some characters leaves, which start at a column. -/
def columnAfter (column : Nat) (cs : List Char) : Nat :=
  cs.foldl (fun column c => if isBreak c then 0 else column + 1) column

/-- A gap has a tab in the indentation of a line: behind a break and left of a column. -/
def tabInIndent (indent : Nat) : (below : Bool) → (column : Nat) → List Char → Bool
  | _, _, [] => false
  | below, column, c :: rest =>
    if isBreak c then tabInIndent indent true 0 rest
    else (below && c == '\t' && column < indent) || tabInIndent indent below (column + 1) rest

/-- A plain scalar that has been read. -/
structure PlainScalar where
  text : List Char
  /-- The scalar is followed by a break. -/
  broken : Bool
  rest : List Char

/-- The rest of a plain scalar from a gap on, if it goes on there. -/
def plainRest? (inFlow : Bool) (indent : Nat) :
    Nat → (column : Nat) → List Char → Option PlainScalar
  | 0, _, _ => none
  | fuel + 1, column, cs =>
    let blanks := cs.takeWhile isGap
    let rest := cs.dropWhile isGap
    let broken := (Gap.ofList blanks).isBroken
    let next := columnAfter column blanks
    if blanks.isEmpty then some ⟨[], false, cs⟩
    else if tabInIndent indent false column blanks then none
    else if (!inFlow && next < indent) || (next = 0 && startsMarker rest) || rest.head? = some '#'
    then some ⟨[], broken, rest⟩
    else do
      let word ← plainWord? inFlow rest
      if word.isEmpty then some ⟨[], broken, rest⟩
      else
        let scalar ← plainRest? inFlow indent fuel (next + word.length) (rest.drop word.length)
        some { scalar with text := (Gap.ofList blanks).text ++ word ++ scalar.text }

/-- A plain scalar that starts at a column; further lines have to be indented. -/
def readPlain? (inFlow : Bool) (indent column : Nat) (cs : List Char) : Option PlainScalar := do
  let word ← plainWord? inFlow cs
  let scalar ← plainRest? inFlow indent cs.length (column + word.length) (cs.drop word.length)
  some { scalar with text := word ++ scalar.text }

end DesignMatrix.Yaml
