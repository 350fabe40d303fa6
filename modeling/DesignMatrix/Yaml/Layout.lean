import DesignMatrix.Yaml.Block
import DesignMatrix.Yaml.Plain
import DesignMatrix.Yaml.Quoted
import DesignMatrix.Yaml.Tag

/-!
# From text to tokens

The indentation of the lines makes the block collections: a collection begins at the column of its
first key or item and ends where a line begins further to the left. A node is known to be a key only
when the colon behind it is read; the token that announces it then goes in front of it.
-/

namespace DesignMatrix.Yaml

/-- A text from some place on. -/
structure Cursor where
  rest : List Char
  line : Nat
  column : Nat

namespace Cursor

/-- The place behind the next character. -/
def next : Cursor → Cursor
  | ⟨[], line, column⟩ => ⟨[], line, column⟩
  | ⟨c :: rest, line, column⟩ =>
    if isBreak c then ⟨rest, line + 1, 0⟩ else ⟨rest, line, column + 1⟩

/-- The place behind some characters. -/
def advance (cursor : Cursor) : Nat → Cursor
  | 0 => cursor
  | count + 1 => cursor.next.advance count

/-- The place where only the given end of the text is left. -/
def upTo (cursor : Cursor) (rest : List Char) : Cursor :=
  cursor.advance (cursor.rest.length - rest.length)

end Cursor

/-- A node that may turn out to be a key. -/
structure KeyCandidate where
  /-- The node has to be a key because of its column. -/
  required : Bool
  /-- How many tokens there are in front of the node. -/
  tokenCount : Nat
  line : Nat
  column : Nat

/-- A text whose tokens are read up to some place. -/
structure Layout where
  cursor : Cursor
  /-- The tokens so far, the last one first. -/
  tokens : List Token
  /-- The columns of the open block collections, the innermost first. -/
  columns : List Nat
  /-- The last node outside of any brackets that are closed, if it may be a key. -/
  candidate : Option KeyCandidate
  /-- The same for what is outside of each open bracket, the innermost first. -/
  outer : List (Option KeyCandidate)
  /-- A key may start here. -/
  keyAllowed : Bool

/-- How far from its start the colon of a key may be. -/
def longestKey : Nat := 1024

/-- The candidate at some place. Its colon has to be on its line and not too far away. -/
def KeyCandidate.at? (cursor : Cursor) : Option KeyCandidate → Option (Option KeyCandidate)
  | none => some none
  | some candidate =>
    if candidate.line < cursor.line || candidate.column + longestKey < cursor.column then
      if candidate.required then none else some none
    else some (some candidate)

/--
How many blanks, breaks and characters of comments there are at the front of a text, and whether a
key may start behind them. A tab is no indentation.
-/
def spacing (inFlow : Bool) : (keyAllowed lineStart comment : Bool) → List Char → Nat × Bool
  | keyAllowed, _, _, [] => (0, keyAllowed)
  | keyAllowed, lineStart, comment, c :: rest =>
    if isBreak c then more (spacing inFlow (keyAllowed || !inFlow) true false rest)
    else if comment || c == '#' then more (spacing inFlow keyAllowed false true rest)
    else if c == ' ' || (c == '\t' && (inFlow || !keyAllowed)) ||
        (c == byteOrderMark && lineStart) then
      more (spacing inFlow keyAllowed false false rest)
    else (0, keyAllowed)
where
  more (spaces : Nat × Bool) : Nat × Bool := (spaces.1 + 1, spaces.2)

namespace Layout

/-- The beginning of a text. -/
def start (cs : List Char) : Layout := ⟨⟨cs, 0, 0⟩, [], [], none, [], true⟩

/-- The place is inside brackets. -/
def inFlow (layout : Layout) : Bool := !layout.outer.isEmpty

/-- The least column at which the content of the innermost block collection continues. -/
def contentColumn (layout : Layout) : Nat := (layout.columns.head?.map (· + 1)).getD 0

/-- Adds a token and goes to the place behind it. -/
def push (layout : Layout) (token : Token) (cursor : Cursor) : Layout :=
  { layout with tokens := token :: layout.tokens, cursor }

/-- Puts tokens behind the first `count` ones. -/
def insert (layout : Layout) (count : Nat) (tokens : List Token) : Layout :=
  let later := layout.tokens.length - count
  { layout with
    tokens := layout.tokens.take later ++ tokens.reverse ++ layout.tokens.drop later }

/-- Opens a block collection at a column unless one is open there. The token may go further up. -/
def openBlock (layout : Layout) (token : Token) (column count : Nat) : Layout :=
  if layout.inFlow || layout.columns.head?.any (column ≤ ·) then layout
  else { layout.insert count [token] with columns := column :: layout.columns }

/-- Closes the block collections to the right of a column. -/
def closeBlocks (layout : Layout) (column : Nat) : Layout :=
  if layout.inFlow then layout
  else
    let closed := layout.columns.takeWhile (column < ·)
    { layout with
      tokens := List.replicate closed.length .blockEnd ++ layout.tokens
      columns := layout.columns.dropWhile (column < ·) }

/-- Closes all block collections. -/
def closeAll (layout : Layout) : Layout :=
  if layout.inFlow then layout
  else
    { layout with
      tokens := List.replicate layout.columns.length .blockEnd ++ layout.tokens
      columns := [] }

/-- Gives up the candidate, which must not be required. -/
def dropCandidate? (layout : Layout) : Option Layout :=
  if layout.candidate.any (·.required) then none else some { layout with candidate := none }

/-- Makes the node that starts here a candidate if a key may start here. -/
def noteCandidate? (layout : Layout) : Option Layout :=
  if layout.keyAllowed then do
    let layout ← layout.dropCandidate?
    let required := !layout.inFlow && layout.columns.head? == some layout.cursor.column
    let candidate : KeyCandidate :=
      ⟨required, layout.tokens.length, layout.cursor.line, layout.cursor.column⟩
    some { layout with candidate := some candidate }
  else some layout

/-- Adds the token of a node or of its properties. -/
def node? (layout : Layout) (token : Token) (rest : List Char) : Option Layout := do
  let layout ← layout.noteCandidate?
  some ({ layout with keyAllowed := false }.push token (layout.cursor.upTo rest))

/-- Goes to the next token: over blanks, and out of the collections that end above it. -/
def approach? (layout : Layout) : Option Layout := do
  let (count, keyAllowed) := spacing layout.inFlow layout.keyAllowed (layout.cursor.column == 0)
    false layout.cursor.rest
  let cursor := layout.cursor.advance count
  let candidate ← KeyCandidate.at? cursor layout.candidate
  let outer ← layout.outer.mapM (KeyCandidate.at? cursor)
  some ({ layout with cursor, candidate, outer, keyAllowed }.closeBlocks cursor.column)

/-- Adds the token of a directive or of the start or end of a document. -/
def mark? (layout : Layout) (token : Token) (rest : List Char) : Option Layout := do
  let layout ← layout.closeAll.dropCandidate?
  some ({ layout with keyAllowed := false }.push token (layout.cursor.upTo rest))

/-- Opens a bracket. -/
def openFlow? (layout : Layout) (token : Token) : Option Layout := do
  let layout ← layout.noteCandidate?
  some ({ layout with
    candidate := none, outer := layout.candidate :: layout.outer, keyAllowed := true }.push token
      layout.cursor.next)

/-- Closes a bracket. -/
def closeFlow? (layout : Layout) (token : Token) : Option Layout := do
  let layout ← layout.dropCandidate?
  let layout := match layout.outer with
    | candidate :: outer => { layout with candidate, outer }
    | [] => layout
  some ({ layout with keyAllowed := false }.push token layout.cursor.next)

/-- Separates the items of a flow collection. -/
def comma? (layout : Layout) : Option Layout := do
  let layout ← layout.dropCandidate?
  some ({ layout with keyAllowed := true }.push .comma layout.cursor.next)

/-- Starts an item of a sequence or a key of a mapping that is marked as one. -/
def entry? (layout : Layout) (collection token : Token) (keyAllowed : Bool) : Option Layout := do
  if !layout.inFlow && !layout.keyAllowed then none
  let layout := layout.openBlock collection layout.cursor.column layout.tokens.length
  let layout ← layout.dropCandidate?
  some ({ layout with keyAllowed }.push token layout.cursor.next)

/-- Starts the value of a key, which is the candidate if there is one. -/
def value? (layout : Layout) : Option Layout :=
  match layout.candidate with
  | some key =>
    let layout := (layout.insert key.tokenCount [.key]).openBlock .blockMapping key.column
      key.tokenCount
    some ({ layout with candidate := none, keyAllowed := false }.push .value layout.cursor.next)
  | none => do
    if !layout.inFlow && !layout.keyAllowed then none
    let layout := layout.openBlock .blockMapping layout.cursor.column layout.tokens.length
    some ({ layout with keyAllowed := !layout.inFlow }.push .value layout.cursor.next)

/-- Adds a block scalar that follows its indicator. -/
def block? (layout : Layout) (style : Style) (cs : List Char) : Option Layout := do
  let layout ← layout.dropCandidate?
  let (text, rest) ← readBlock? (style == .folded) layout.columns.head? cs
  some ({ layout with keyAllowed := true }.push (.scalar style (String.ofList text))
    (layout.cursor.upTo rest))

/-- Adds a plain scalar. -/
def plain? (layout : Layout) : Option Layout := do
  let layout ← layout.noteCandidate?
  let scalar ← readPlain? layout.inFlow layout.contentColumn layout.cursor.column layout.cursor.rest
  some ({ layout with keyAllowed := scalar.broken }.push
    (.scalar .plain (String.ofList scalar.text)) (layout.cursor.upTo scalar.rest))

/-- Adds the token at the front of what is left, which is not empty. -/
def step? (layout : Layout) : Option Layout :=
  let cs := layout.cursor.rest
  let lineStart := layout.cursor.column == 0
  match cs with
  | [] => none
  | c :: rest =>
    if lineStart && c == '%' then do
      let (token, rest) ← readDirective? rest
      let rest ← endLine? rest
      layout.mark? token rest
    else if lineStart && startsMarker cs then
      layout.mark? (if c == '-' then .documentStart else .documentEnd) (cs.drop 3)
    else if c == '[' then layout.openFlow? .flowSequence
    else if c == '{' then layout.openFlow? .flowMapping
    else if c == ']' then layout.closeFlow? .flowSequenceEnd
    else if c == '}' then layout.closeFlow? .flowMappingEnd
    else if c == ',' then layout.comma?
    else if c == '-' && atGap rest then layout.entry? .blockSequence .item true
    else if c == '?' && (layout.inFlow || atGap rest) then
      layout.entry? .blockMapping .key !layout.inFlow
    else if c == ':' && (layout.inFlow || atGap rest) then layout.value?
    else if c == '*' then do
      let (name, rest) ← readAnchor? rest
      layout.node? (.aliasOf name) rest
    else if c == '&' then do
      let (name, rest) ← readAnchor? rest
      layout.node? (.anchor name) rest
    else if c == '!' then do
      let (token, rest) ← readTagProperty? layout.inFlow rest
      layout.node? token rest
    else if c == '|' && !layout.inFlow then layout.block? .literal rest
    else if c == '>' && !layout.inFlow then layout.block? .folded rest
    else if c == '\'' then do
      let (text, rest) ← readSingle? .empty rest
      layout.node? (.scalar .single (String.ofList text)) rest
    else if c == '"' then do
      let (text, rest) ← readDouble? .empty rest
      layout.node? (.scalar .double (String.ofList text)) rest
    else if isGap c || isIndicator c then none
    else layout.plain?

/-- All tokens of a text, with fuel for as many as it has characters. -/
def run? : Nat → Layout → Option (List Token)
  | 0, _ => none
  | fuel + 1, layout => do
    let layout ← layout.approach?
    if layout.cursor.rest.isEmpty then
      let layout ← layout.closeAll.dropCandidate?
      some layout.tokens.reverse
    else run? fuel (← layout.step?)

end Layout

/-- The tokens of a text with unified breaks. -/
def tokens? (cs : List Char) : Option (List Token) := Layout.run? (cs.length + 1) (.start cs)

end DesignMatrix.Yaml
