import DesignMatrix.Number.Based
import DesignMatrix.Number.Decimal
import DesignMatrix.Yaml.Gap

/-!
# Writing texts in YAML

A text is written as the value of a key, in the plainest style that reads back as the same text. A
text of several lines is a literal block; a text that would not read as a text is in quotes.
-/

namespace DesignMatrix.Yaml

/-! ## Which plain scalars are no texts -/

/-- The words that stand for no value or for a truth value. -/
def reservedWords : List String :=
  ["null", "Null", "NULL", "~", "true", "True", "TRUE", "false", "False", "FALSE"]

/-- Digits with a zero in front, which are no number but a text. -/
def isPaddedDigits (cs : List Char) : Bool :=
  match (Decimal.splitSign cs).2 with
  | '0' :: digits => !digits.isEmpty && digits.all Char.isDigit
  | _ => false

/-- An integer of at most 128 bits with its base in front. -/
def isBasedInteger (cs : List Char) : Bool :=
  let (magnitude, largest) := match cs with
    | '+' :: rest => (rest, Nat.pow 2 128 - 1)
    | '-' :: rest => (rest, Nat.pow 2 127)
    | rest => (rest, Nat.pow 2 128 - 1)
  match magnitude with
  | '0' :: letter :: digits =>
    ((Based.base? letter).bind fun base => Based.value? base digits).any (· ≤ largest)
  | _ => false

/-- The words for what is infinite or no number. -/
def isSpecialNumber (cs : List Char) : Bool :=
  let word := String.ofList cs
  let magnitude := String.ofList (Decimal.splitSign cs).2
  magnitude == ".inf" || magnitude == ".Inf" || magnitude == ".INF" ||
    word == ".nan" || word == ".NaN" || word == ".NAN"

/-- A decimal number that is finite as a double. -/
def isDecimal (cs : List Char) : Bool := !isPaddedDigits cs && (double? cs).any Float.isFinite

/-- The text, if it is plain, does not read as a text, or might not for every reader. -/
def isAmbiguous (cs : List Char) : Bool :=
  reservedWords.any (·.toList == cs) || isBasedInteger cs || isSpecialNumber cs || isDecimal cs ||
    isPaddedDigits cs

/-! ## Which styles a text can have -/

/-- A character that a plain scalar must not start with, whatever follows it. -/
def isLeadingIndicator (c : Char) : Bool :=
  c == '#' || c == ',' || c == '[' || c == ']' || c == '{' || c == '}' || c == '&' || c == '*' ||
    c == '!' || c == '|' || c == '>' || c == '\'' || c == '"' || c == '%' || c == '@' || c == '\x60'

/-- The character is a space or a break. -/
def isSpacing (c : Char) : Bool := c == ' ' || isBreak c

/-- A character for which `p` holds is followed by one for which `q` holds. -/
def hasPair (p q : Char → Bool) : List Char → Bool
  | a :: b :: rest => (p a && q b) || hasPair p q (b :: rest)
  | _ => false

/-- A colon that ends a word, or a comment. -/
def hasInnerIndicator : List Char → Bool
  | c :: rest =>
    (c == ':' && atGap rest) || (isGap c && rest.head? == some '#') || hasInnerIndicator rest
  | [] => false

/-- The text starts like a document or with an indicator. -/
def startsWithIndicator (cs : List Char) : Bool :=
  match cs with
  | '-' :: '-' :: '-' :: _ | '.' :: '.' :: '.' :: _ => true
  | c :: rest =>
    isLeadingIndicator c || ((c == '?' || c == ':' || c == '-') && atGap rest)
  | [] => false

/-- The text has a space next to a break, in this order or the other. -/
def mixesSpacing (cs : List Char) : Bool :=
  hasPair (· == ' ') isBreak cs || hasPair isBreak (· == ' ') cs

/-- The text can be written without quotes. -/
def allowsPlain (cs : List Char) : Bool :=
  cs.all (fun c => isPrintable c && !isBreak c) &&
    !(cs.head?.any isSpacing) && !(cs.getLast?.any isSpacing) &&
    !startsWithIndicator cs && !hasInnerIndicator cs

/-- The text can be written between single quotes. -/
def allowsSingle (cs : List Char) : Bool := cs.all isPrintable && !mixesSpacing cs

/-- The text can be written as a block. -/
def allowsLiteral (cs : List Char) : Bool :=
  cs.all isPrintable && !hasPair (· == ' ') isBreak cs && cs.getLast? != some ' '

/-! ## Writing -/

/-- The columns by which the lines of a text are indented. -/
def indentation : List Char := [' ', ' ']

/-- The text with indentation in front of every line with a word, but the first if `below` is false. -/
def indentLines : (below : Bool) → List Char → List Char
  | _, [] => []
  | below, c :: rest =>
    if isBreak c then c :: indentLines true rest
    else (if below then indentation else []) ++ c :: indentLines false rest

/-- The letter of an escape, if there is one. -/
def escapeLetter? : Char → Option Char
  | '\x00' => some '0'
  | '\x07' => some 'a'
  | '\x08' => some 'b'
  | '\t' => some 't'
  | '\n' => some 'n'
  | '\x0b' => some 'v'
  | '\x0c' => some 'f'
  | '\r' => some 'r'
  | '\x1b' => some 'e'
  | '"' => some '"'
  | '\\' => some '\\'
  | '\u0085' => some 'N'
  | '\u2028' => some 'L'
  | '\u2029' => some 'P'
  | _ => none

/-- The character by its code. Those that are not printable have at most four digits. -/
def escapeCode (c : Char) : List Char :=
  if c.toNat ≤ 0xff then 'x' :: Hex.fixedUpper 2 c.toNat else 'u' :: Hex.fixedUpper 4 c.toNat

/-- A character between double quotes. -/
def escape (c : Char) : List Char :=
  if isPrintable c && !isBreak c && c != '"' && c != '\\' then [c]
  else '\\' :: (match escapeLetter? c with
    | some letter => [letter]
    | none => escapeCode c)

def writeDouble (cs : List Char) : List Char := '"' :: cs.flatMap escape ++ ['"']

/-- Between single quotes a quote is doubled, and what follows a break is indented. -/
def writeSingle (cs : List Char) : List Char :=
  let lines := indentLines false (cs.flatMap fun c => if c == '\'' then [c, c] else [c])
  let last := if cs.getLast?.any isBreak then indentation else []
  '\'' :: lines ++ last ++ ['\'']

/-- The mark for the breaks at the end of a block. -/
def chompingMark (cs : List Char) : List Char :=
  match cs.reverse with
  | [] => ['-']
  | [last] => if isBreak last then ['+'] else ['-']
  | last :: before :: _ => if !isBreak last then ['-'] else if isBreak before then ['+'] else []

/-- The number of columns of the indentation, which a block has to say if it starts with spacing. -/
def incrementMark (cs : List Char) : List Char :=
  if cs.head?.any isSpacing then Nat.toDigits 10 indentation.length else []

def writeLiteral (cs : List Char) : List Char :=
  '|' :: incrementMark cs ++ chompingMark cs ++ '\n' :: indentLines true cs

/-- A text between quotes, single ones if they will do. -/
def writeQuoted (cs : List Char) : List Char :=
  if allowsSingle cs then writeSingle cs else writeDouble cs

/-- A text as the value of a key. -/
def writeText (cs : List Char) : List Char :=
  if '\n' ∈ cs then (if allowsLiteral cs then writeLiteral cs else writeDouble cs)
  else if cs.isEmpty || isAmbiguous cs || !allowsPlain cs then writeQuoted cs
  else cs

/-- A key and its value, on a line of their own or more. -/
def writeMember (key value : List Char) : List Char :=
  let ending := if value.getLast?.any isBreak then [] else ['\n']
  key ++ ':' :: ' ' :: value ++ ending

end DesignMatrix.Yaml
