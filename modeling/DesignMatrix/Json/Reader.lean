import DesignMatrix.Text.Hex
import DesignMatrix.Json.Value

/-!
# Reading JSON

The grammar of JSON without extensions: no comments, no trailing commas, no control characters in
strings, no leading zeros. Blanks may stand around every value.
-/

namespace DesignMatrix

namespace Json

/-- The blanks between tokens. -/
def isBlank (c : Char) : Bool := c == ' ' || c == '\t' || c == '\n' || c == '\r'

/-- The text without the blanks in front. -/
def skipBlanks (cs : List Char) : List Char := cs.dropWhile isBlank

/-- What follows a word at the front of a text. -/
def afterWord? : List Char → List Char → Option (List Char)
  | [], cs => some cs
  | w :: word, c :: cs => if w = c then afterWord? word cs else none
  | _ :: _, [] => none

/-- The digits at the front of a text, at least one, and what follows them. -/
def digits? (cs : List Char) : Option (List Char × List Char) :=
  let digits := cs.takeWhile Char.isDigit
  if digits.isEmpty then none else some (digits, cs.dropWhile Char.isDigit)

/-- The digits before the point: `0`, or digits of which the first is no `0`. -/
def wholePart? : List Char → Option (List Char × List Char)
  | '0' :: rest => if (rest.head?.map Char.isDigit).getD false then none else some (['0'], rest)
  | cs => digits? cs

/-- The digits behind the point with the point, or nothing. -/
def fractionPart? : List Char → Option (List Char × List Char)
  | '.' :: rest => (digits? rest).map fun (digits, rest) => ('.' :: digits, rest)
  | cs => some ([], cs)

/-- The power of ten with its mark, or nothing. -/
def powerPart? : List Char → Option (List Char × List Char)
  | c :: rest =>
    if c = 'e' || c = 'E' then
      let (sign, rest) := match rest with
        | '+' :: rest => (['+'], rest)
        | '-' :: rest => (['-'], rest)
        | rest => ([], rest)
      (digits? rest).map fun (digits, rest) => (c :: sign ++ digits, rest)
    else some ([], c :: rest)
  | [] => some ([], [])

/-- A number at the front of a text. -/
def readNumber? (cs : List Char) : Option (Json × List Char) := do
  let (sign, rest) := match cs with
    | '-' :: rest => (['-'], rest)
    | rest => ([], rest)
  let (whole, rest) ← wholePart? rest
  let (fraction, rest) ← fractionPart? rest
  let (power, rest) ← powerPart? rest
  some (.number (String.ofList (sign ++ whole ++ fraction ++ power)), rest)

/-- The character of an escape of one letter. -/
def shortEscape? : Char → Option Char
  | '"' => some '"'
  | '\\' => some '\\'
  | '/' => some '/'
  | 'b' => some '\x08'
  | 'f' => some '\x0c'
  | 'n' => some '\n'
  | 'r' => some '\r'
  | 't' => some '\t'
  | _ => none

/-- The code of the first half of a surrogate pair. -/
def isHighSurrogate (code : Nat) : Bool := 0xD800 ≤ code && code ≤ 0xDBFF

/-- The code of the second half of a surrogate pair. -/
def isLowSurrogate (code : Nat) : Bool := 0xDC00 ≤ code && code ≤ 0xDFFF

/-- The character of a surrogate pair. -/
def pairCharacter (high low : Nat) : Char :=
  Char.ofNat (0x10000 + (high - 0xD800) * 0x400 + (low - 0xDC00))

/-- Puts a character, `none` for half of a pair, in front of a text. -/
def prependCharacter (c : Option Char) (read : Option (List Char) × List Char) :
    Option (List Char) × List Char :=
  (match c, read.1 with
    | some c, some cs => some (c :: cs)
    | _, _ => none, read.2)

/--
The characters of a string up to its closing quote, and what follows it. The characters are `none`
when one of them is half of a surrogate pair.
-/
def readCharacters? : List Char → Option (Option (List Char) × List Char)
  | [] => none
  | '"' :: rest => some (some [], rest)
  | '\\' :: 'u' :: a :: b :: c :: d :: '\\' :: 'u' :: a' :: b' :: c' :: d' :: rest => do
    let high ← Hex.value? [a, b, c, d]
    let low ← Hex.value? [a', b', c', d']
    if isHighSurrogate high && isLowSurrogate low then
      (readCharacters? rest).map (prependCharacter (some (pairCharacter high low)))
    else
      (readCharacters? ('\\' :: 'u' :: a' :: b' :: c' :: d' :: rest)).map
        (prependCharacter (Hex.character? high))
  | '\\' :: 'u' :: a :: b :: c :: d :: rest => do
    let code ← Hex.value? [a, b, c, d]
    (readCharacters? rest).map (prependCharacter (Hex.character? code))
  | '\\' :: c :: rest => do
    let escaped ← shortEscape? c
    (readCharacters? rest).map (prependCharacter (some escaped))
  | c :: rest =>
    if c.toNat < 0x20 then none else (readCharacters? rest).map (prependCharacter (some c))

/-- A string behind its opening quote. -/
def readString? (cs : List Char) : Option (Option String × List Char) :=
  (readCharacters? cs).map fun (characters, rest) => (characters.map String.ofList, rest)

mutual

/-- A value at the front of a text without blanks in front. -/
def readValue? : Nat → List Char → Option (Json × List Char)
  | 0, _ => none
  | _ + 1, '"' :: rest => (readString? rest).map fun (text, rest) => (.string text, rest)
  | fuel + 1, '[' :: rest =>
    match skipBlanks rest with
    | ']' :: rest => some (.array [], rest)
    | rest => (readItems? fuel rest).map fun (items, rest) => (.array items, rest)
  | fuel + 1, '{' :: rest =>
    match skipBlanks rest with
    | '}' :: rest => some (.object [], rest)
    | rest => (readMembers? fuel rest).map fun (members, rest) => (.object members, rest)
  | _ + 1, 'n' :: rest => (afterWord? "ull".toList rest).map (.null, ·)
  | _ + 1, 't' :: rest => (afterWord? "rue".toList rest).map (.boolean true, ·)
  | _ + 1, 'f' :: rest => (afterWord? "alse".toList rest).map (.boolean false, ·)
  | _ + 1, cs => readNumber? cs

/-- The items of an array and its closing bracket. -/
def readItems? : Nat → List Char → Option (List Json × List Char)
  | 0, _ => none
  | fuel + 1, cs => do
    let (item, rest) ← readValue? fuel cs
    match skipBlanks rest with
    | ']' :: rest => some ([item], rest)
    | ',' :: rest =>
      let (items, rest) ← readItems? fuel (skipBlanks rest)
      some (item :: items, rest)
    | _ => none

/-- The members of an object and its closing brace. -/
def readMembers? : Nat → List Char → Option (List (Option String × Json) × List Char)
  | 0, _ => none
  | fuel + 1, '"' :: rest => do
    let (key, rest) ← readString? rest
    match skipBlanks rest with
    | ':' :: rest =>
      let (value, rest) ← readValue? fuel (skipBlanks rest)
      match skipBlanks rest with
      | '}' :: rest => some ([(key, value)], rest)
      | ',' :: rest =>
        let (members, rest) ← readMembers? fuel (skipBlanks rest)
        some ((key, value) :: members, rest)
      | _ => none
    | _ => none
  | _ + 1, _ => none

end

/-- Reads a text that is one JSON value. -/
def parse? (text : String) : Option Json := do
  let cs := text.toList
  let (value, rest) ← readValue? (cs.length + 1) (skipBlanks cs)
  if (skipBlanks rest).isEmpty then some value else none

end Json

end DesignMatrix
