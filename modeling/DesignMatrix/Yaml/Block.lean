import DesignMatrix.Yaml.Gap

/-!
# Block scalars

Lines that are indented as one block. A literal block keeps its breaks, a folded one joins lines
that start with a word by a space. The header says what becomes of the breaks at the end, and may
say how far the block is indented; else its first line with a word decides.
-/

namespace DesignMatrix.Yaml

/-- What becomes of the breaks at the end of a block. -/
inductive Chomping where
  /-- None is kept. -/
  | strip
  /-- The first one is kept. -/
  | clip
  /-- All are kept. -/
  | keep
  deriving DecidableEq, Repr

/-- The mark of a chomping; without one a block is clipped. -/
def Chomping.ofMark? : Char → Option Chomping
  | '-' => some .strip
  | '+' => some .keep
  | _ => none

/-- What stands behind the indicator of a block. -/
structure BlockHeader where
  chomping : Chomping
  /-- How many columns the block is indented against what holds it. -/
  increment? : Option Nat
  deriving DecidableEq, Repr

/-- An optional mark for the chomping. -/
def readChomping : List Char → Option Chomping × List Char
  | [] => (none, [])
  | c :: rest =>
    match Chomping.ofMark? c with
    | some chomping => (some chomping, rest)
    | none => (none, c :: rest)

/-- An optional increment of one digit, which must not be zero. -/
def readIncrement? : List Char → Option (Option Nat × List Char)
  | [] => some (none, [])
  | c :: rest =>
    if c == '0' then none
    else if c.isDigit then some (some (c.toNat - '0'.toNat), rest)
    else some (none, c :: rest)

/-- The text without the rest of a line that holds blanks and a comment at most. -/
def endLine? (cs : List Char) : Option (List Char) :=
  let cs := cs.dropWhile isBlank
  let cs := if cs.head? = some '#' then cs.dropWhile (!isBreak ·) else cs
  match cs with
  | [] => some []
  | c :: rest => if isBreak c then some rest else none

/-- The header of a block, the two marks in either order, and the lines below it. -/
def readHeader? (cs : List Char) : Option (BlockHeader × List Char) := do
  let (early, rest) := readChomping cs
  let (increment?, rest) ← readIncrement? rest
  let (late, rest) := if early.isNone && increment?.isSome then readChomping rest else (none, rest)
  some (⟨(early.or late).getD .clip, increment?⟩, ← endLine? rest)

/-- The front of a line of a block. -/
structure LineStart where
  /-- The breaks of the empty lines above. -/
  breaks : List Char
  column : Nat
  /-- The largest column that was reached in the empty lines and in this one. -/
  widest : Nat
  rest : List Char

/--
Goes over empty lines to the front of the next line with a word. In a block of known indentation
spaces beyond it are part of the text. A tab must not stand where the indentation goes on.
-/
def lineStart? (indent? : Option Nat) (column widest : Nat) : List Char → Option LineStart
  | ' ' :: rest =>
    if indent?.all (column < ·) then lineStart? indent? (column + 1) widest rest
    else some ⟨[], column, max widest column, ' ' :: rest⟩
  | '\t' :: rest =>
    if indent?.all (column < ·) then none
    else some ⟨[], column, max widest column, '\t' :: rest⟩
  | c :: rest =>
    if isBreak c then
      (lineStart? indent? 0 (max widest column) rest).map fun start =>
        { start with breaks := c :: start.breaks }
    else some ⟨[], column, max widest column, c :: rest⟩
  | [] => some ⟨[], column, max widest column, []⟩

/-- What stands for the break between two lines of a folded block with words on both. -/
def foldedBreak (ending breaks : List Char) : List Char :=
  if ending = ['\n'] then (if breaks.isEmpty then [' '] else []) else ending

/--
The text of a block from the front of a line on, and what follows the block. `ending` is the break
behind the line above, and `loose` if that line started with a blank.
-/
def blockText? (folded : Bool) (chomping : Chomping) (indent : Nat) :
    Nat → (ending : List Char) → (loose : Bool) → LineStart → Option Reading
  | 0, _, _, _ => none
  | fuel + 1, ending, loose, start =>
    match start.rest with
    | c :: _ =>
      if start.column = indent then do
        let joined :=
          if folded && !loose && !isBlank c then foldedBreak ending start.breaks else ending
        let line := start.rest.takeWhile (!isBreak ·)
        let below := start.rest.dropWhile (!isBreak ·)
        let next ← lineStart? (some indent) 0 0 (below.drop 1)
        let (text, rest) ←
          blockText? folded chomping indent fuel (below.take 1) (isBlank c) next
        some (joined ++ start.breaks ++ line ++ text, rest)
      else some (tail ending start, start.rest)
    | [] => some (tail ending start, [])
where
  /-- The breaks that are kept at the end. -/
  tail (ending : List Char) (start : LineStart) : List Char :=
    match chomping with
    | .strip => []
    | .clip => ending
    | .keep => ending ++ start.breaks

/--
The text of a block behind its indicator, and what follows the block. `outer` is the column of the
collection that holds the block, if there is one.
-/
def readBlock? (folded : Bool) (outer : Option Nat) (cs : List Char) :
    Option Reading := do
  let (header, rest) ← readHeader? cs
  let known? := header.increment?.map (outer.getD 0 + ·)
  let start ← lineStart? known? 0 0 rest
  let least := (outer.map (· + 1)).getD 1
  let indent := known?.getD (max start.widest least)
  blockText? folded header.chomping indent (rest.length + 1) [] false start

end DesignMatrix.Yaml
