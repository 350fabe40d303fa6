import DesignMatrix.Text.Hex
import DesignMatrix.Yaml.Token

/-!
# Properties and directives

Names of anchors, tags, and the lines in front of a document that set its version and its handles.
-/

namespace DesignMatrix.Yaml

/-- A word at the front of a text, and what follows it. -/
def readWord (cs : List Char) : List Char × List Char := (cs.takeWhile isWord, cs.dropWhile isWord)

/-- What may follow the name of an anchor. -/
def endsAnchor : List Char → Bool
  | [] => true
  | c :: _ =>
    isGap c || c == '?' || c == ':' || c == ',' || c == ']' || c == '}' || c == '%' || c == '@' ||
      c == '\x60'

/-- The name of an anchor or of an alias. -/
def readAnchor? (cs : List Char) : Option (String × List Char) :=
  let (name, rest) := readWord cs
  if name.isEmpty || !endsAnchor rest then none else some (String.ofList name, rest)

/-- The character may stand in a tag; those of flow collections only in a tag in angle brackets. -/
def isTagCharacter (verbatim : Bool) (c : Char) : Bool :=
  isWord c || c == ';' || c == '/' || c == '?' || c == ':' || c == '@' || c == '&' || c == '=' ||
    c == '+' || c == '$' || c == '.' || c == '!' || c == '~' || c == '*' || c == '\'' ||
    c == '(' || c == ')' || (verbatim && (c == ',' || c == '[' || c == ']'))

/-- How many octets there are in a sequence of UTF-8 that starts with this one. -/
def sequenceLength? (octet : Nat) : Option Nat :=
  if octet < 0x80 then some 1
  else if 0xc0 ≤ octet && octet < 0xe0 then some 2
  else if 0xe0 ≤ octet && octet < 0xf0 then some 3
  else if 0xf0 ≤ octet && octet < 0xf8 then some 4
  else none

/-- How many octets of a sequence are left behind one of them, of which `due` were left before. -/
def octetsDue? (due octet : Nat) : Option Nat :=
  if due = 0 then (sequenceLength? octet).map (· - 1)
  else if 0x80 ≤ octet && octet < 0xc0 then some (due - 1)
  else none

/--
The octets of a tag and what follows them. An escape stands for one octet; `due` octets of a sequence
of UTF-8 have to follow as escapes.
-/
def readOctets? (verbatim : Bool) : (due : Nat) → List Char → Option (List Char × List Char)
  | due, '%' :: a :: b :: rest => do
    let octet ← Hex.value? [a, b]
    let (text, rest) ← readOctets? verbatim (← octetsDue? due octet) rest
    some (Char.ofNat octet :: text, rest)
  | due, cs =>
    if due ≠ 0 then none
    else match cs with
      | c :: rest =>
        if c == '%' then none
        else if isTagCharacter verbatim c then
          (readOctets? verbatim 0 rest).map fun (text, rest) => (c :: text, rest)
        else some ([], c :: rest)
      | [] => some ([], [])

/-- The octets of a tag, which has at least one. -/
def readTagText? (verbatim : Bool) (cs : List Char) : Option (List Char × List Char) := do
  let (text, rest) ← readOctets? verbatim 0 cs
  if text.isEmpty then none else some (text, rest)

/-- A tag ends in front of an octet of zero. -/
def tagOf (text : List Char) : String := String.ofList (text.takeWhile (· != '\x00'))

/-- The tag behind its mark, as a handle and a suffix, and what follows it. -/
def readTag? (cs : List Char) : Option (Token × List Char) :=
  match cs with
  | '<' :: rest => do
    let (text, rest) ← readTagText? true rest
    match rest with
    | '>' :: rest => some (.tag "" (tagOf text), rest)
    | _ => none
  | _ =>
    match readWord cs with
    | (name, '!' :: rest) => do
      let (suffix, rest) ← readTagText? false rest
      some (.tag ("!" ++ String.ofList name ++ "!") (tagOf suffix), rest)
    | _ => do
      let (suffix, rest) ← readOctets? false 0 cs
      let suffix := tagOf suffix
      some (if suffix.isEmpty then .tag "" "!" else .tag "!" suffix, rest)

/-- A tag that is followed by a gap, or by a comma inside brackets. -/
def readTagProperty? (inFlow : Bool) (cs : List Char) : Option (Token × List Char) := do
  let (token, rest) ← readTag? cs
  if atGap rest || (inFlow && rest.head? = some ',') then some (token, rest) else none

/-- A natural number of at most nine digits, and what follows it. -/
def readVersionNumber? (cs : List Char) : Option (Nat × List Char) := do
  let digits := cs.takeWhile Char.isDigit
  if digits.length ≤ 9 then some (← (String.ofList digits).toNat?, cs.dropWhile Char.isDigit)
  else none

/-- A version behind the name of its directive, and what follows it. -/
def readVersion? (cs : List Char) : Option (Token × List Char) := do
  let (major, rest) ← readVersionNumber? (cs.dropWhile isBlank)
  match rest with
  | '.' :: rest =>
    let (minor, rest) ← readVersionNumber? rest
    some (.version major minor, rest)
  | _ => none

/-- A handle and its text behind the name of its directive, and what follows them. -/
def readTagHandle? (cs : List Char) : Option (Token × List Char) := do
  match cs.dropWhile isBlank with
  | '!' :: rest =>
    let (name, rest) := readWord rest
    let (handle, rest) ← match rest with
      | '!' :: rest => some ('!' :: name ++ ['!'], rest)
      | rest => if name.isEmpty then some (['!'], rest) else none
    if !(rest.head?.any isBlank) then none
    else
      let (text, rest) ← readTagText? true (rest.dropWhile isBlank)
      if atGap rest then some (.tagHandle (String.ofList handle) (tagOf text), rest) else none
  | _ => none

/-- A directive behind its mark, and what follows it on its line. -/
def readDirective? (cs : List Char) : Option (Token × List Char) :=
  let (name, rest) := readWord cs
  if !atGap rest then none
  else if name = "YAML".toList then readVersion? rest
  else if name = "TAG".toList then readTagHandle? rest
  else none

end DesignMatrix.Yaml
