import DesignMatrix.Toml.Bare
import DesignMatrix.Toml.Table

/-!
# Documents of TOML

Lines of keys with their values, under the headers of the tables they belong to.
-/

namespace DesignMatrix.Toml

/-- How many keys may have dots between them, and how deep brackets may be nested. -/
def depthLimit : Nat := 79

/-! ## Keys -/

/-- The character may stand in a key without quotes. -/
def isKeyCharacter (c : Char) : Bool := c.isAlphanum || c == '_' || c == '-'

/-- A key, with quotes or without, and what follows it. -/
def readKey? (cs : List Char) : Option (String × List Char) :=
  match cs with
  | '"' :: rest => (readBasic? rest).map fun (key, rest) => (String.ofList key, rest)
  | '\'' :: rest => (readLiteral? rest).map fun (key, rest) => (String.ofList key, rest)
  | _ =>
    let key := cs.takeWhile isKeyCharacter
    if key.isEmpty then none else some (String.ofList key, cs.dropWhile isKeyCharacter)

/--
At most `limit` keys with dots between them: those in front of the last dot, the last key, and what
follows.
-/
def readKeys? : (limit : Nat) → List Char → Option (List String × String × List Char)
  | 0, _ => none
  | limit + 1, cs => do
    let (key, rest) ← readKey? (skipBlanks cs)
    match skipBlanks rest with
    | '.' :: rest =>
      let (path, last, rest) ← readKeys? limit rest
      some (key :: path, last, rest)
    | rest => some ([], key, rest)

/-- Keys with dots between them. -/
def readPath? (cs : List Char) : Option (List String × String × List Char) :=
  readKeys? depthLimit cs

/-! ## Values -/

/-- What follows blanks, newlines and comments. -/
def skipFiller? : Nat → List Char → Option (List Char)
  | 0, _ => none
  | fuel + 1, cs =>
    match cs.dropWhile fun c => isBlank c || c == '\n' with
    | '#' :: rest => do skipFiller? fuel (← skipComment? ('#' :: rest))
    | rest => some rest

/-- A value without quotes and brackets, and what follows it. -/
def readBare? (cs : List Char) : Option (Value × List Char) :=
  let word := cs.takeWhile isBare
  let rest := cs.dropWhile isBare
  if word = "true".toList then some (.truth true, rest)
  else if word = "false".toList then some (.truth false, rest)
  else match skipSpacedMoment? cs with
    | some rest => some (.other, rest)
    | none => if isBareValue word then some (.other, rest) else none

mutual

/-- The value at the front of a text, in which brackets may go `depth` deep, and what follows it. -/
def readValue? : (fuel depth : Nat) → List Char → Option (Value × List Char)
  | 0, _, _ => none
  | _ + 1, 0, '[' :: _ | _ + 1, 0, '{' :: _ => none
  | fuel + 1, depth + 1, '[' :: rest => (readArray? fuel depth rest).map fun rest => (.other, rest)
  | fuel + 1, depth + 1, '{' :: rest =>
    match skipBlanks rest with
    | '}' :: rest => some (.other, rest)
    | rest => (readBraces? fuel depth [] rest).map fun rest => (.other, rest)
  | _ + 1, _, cs =>
    if cs.head? = some '"' || cs.head? = some '\'' then
      (readText? cs).map fun (text, rest) => (.text (String.ofList text), rest)
    else readBare? cs

/-- What follows the items of an array and its bracket. The last item may have a comma. -/
def readArray? : (fuel depth : Nat) → List Char → Option (List Char)
  | 0, _, _ => none
  | fuel + 1, depth, cs => do
    match ← skipFiller? (cs.length + 1) cs with
    | ']' :: rest => some rest
    | rest =>
      let (_, rest) ← readValue? fuel depth rest
      match ← skipFiller? (rest.length + 1) rest with
      | ']' :: rest => some rest
      | ',' :: rest => readArray? fuel depth rest
      | _ => none

/-- What follows the members of a table in braces and the brace. -/
def readBraces? : (fuel depth : Nat) → Members → List Char → Option (List Char)
  | 0, _, _, _ => none
  | fuel + 1, depth, members, cs => do
    let (path, key, rest) ← readPath? cs
    let (value, rest) ← readValue? fuel depth (skipBlanks (← after? '=' rest))
    let members ← members.addDotted? path key value .header
    match skipBlanks rest with
    | '}' :: rest => some rest
    | ',' :: rest => readBraces? fuel depth members rest
    | _ => none

end

/-! ## Lines -/

/-- A document up to some line. -/
structure Document where
  members : Members
  /-- The path of the table to which the next keys belong. -/
  table : List String

namespace Document

/-- Adds a value under a key with dots to the current table. -/
def add? (document : Document) (path : List String) (key : String) (value : Value) :
    Option Document := do
  let change := fun origin members => Members.addDotted? path key value origin members
  let members ← document.members.modifyAt? false change .header document.table
  some { document with members }

/-- Goes on with the table at a path, which `define` adds. -/
def openTable? (document : Document) (define : String → Members → Option Members)
    (path : List String) (key : String) : Option Document := do
  let members ← document.members.modifyAt? false (fun _ => define key) .header path
  some ⟨members, path ++ [key]⟩

end Document

/-- What a line adds to a document, and what follows on the line. Blanks in front are gone. -/
def readLine? (document : Document) : List Char → Option (Document × List Char)
  | '[' :: '[' :: rest => do
    let (path, key, rest) ← readPath? rest
    let rest ← after? ']' (← after? ']' rest)
    some (← document.openTable? Members.addItem? path key, rest)
  | '[' :: rest => do
    let (path, key, rest) ← readPath? rest
    let rest ← after? ']' rest
    some (← document.openTable? Members.addTable? path key, rest)
  | [] => some (document, [])
  | c :: rest =>
    if c == '\n' || c == '#' then some (document, c :: rest)
    else do
      let (path, key, rest) ← readPath? (c :: rest)
      let rest := skipBlanks (← after? '=' rest)
      let (value, rest) ← readValue? (rest.length + 1) depthLimit rest
      some (← document.add? path key value, rest)

/-- What all lines add to a document. -/
def readLines? : Nat → Document → List Char → Option Document
  | 0, _, _ => none
  | fuel + 1, document, cs => do
    let (document, rest) ← readLine? document (skipBlanks cs)
    match ← skipComment? (skipBlanks rest) with
    | [] => some document
    | '\n' :: rest => readLines? fuel document rest
    | _ => none

/-- Reads the members of a document from a text. -/
def parse? (text : String) : Option Members := do
  let cs := unifyNewlines text.toList
  let cs := if cs.head? = some '\ufeff' then cs.drop 1 else cs
  (← readLines? (cs.length + 1) ⟨[], []⟩ cs).members

end DesignMatrix.Toml
