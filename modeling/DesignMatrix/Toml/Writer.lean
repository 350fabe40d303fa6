import DesignMatrix.Text.Hex

/-!
# Writing texts in TOML

A text is written between the first of these quotes that hold it without escapes: double quotes,
single quotes, three double quotes, three single quotes. If none does, it is escaped.
-/

namespace DesignMatrix.Toml

/-- The character is a control character that has to be escaped. -/
def isControl (c : Char) : Bool := (c.toNat < 0x20 && c != '\t' && c != '\n') || c.toNat == 0x7f

/-- The length of the longest run of a character, behind a run of `current`. -/
def longestRun (c : Char) : (current : Nat) → List Char → Nat
  | current, [] => current
  | current, d :: rest =>
    if d = c then longestRun c (current + 1) rest else max current (longestRun c 0 rest)

/-- The letter of an escape; a quote has one too. -/
def escapeLetter? : Char → Option Char
  | '\x08' => some 'b'
  | '\t' => some 't'
  | '\n' => some 'n'
  | '\x0c' => some 'f'
  | '\r' => some 'r'
  | '"' => some '"'
  | '\\' => some '\\'
  | _ => none

/-- A character behind a backslash. -/
def escape (c : Char) : List Char :=
  match escapeLetter? c with
  | some letter => ['\\', letter]
  | none => '\\' :: 'u' :: Hex.fixedUpper 4 c.toNat

/-- How many quotes in a row need no escape. -/
def freeQuotes (long : Bool) : Nat := if long then 2 else 0

/--
The text between double quotes, three of them if `long`. `run` is the number of quotes in front that
are not escaped.
-/
def escaped (long : Bool) : (run : Nat) → List Char → List Char
  | _, [] => []
  | run, c :: rest =>
    if c = '"' then
      if run < freeQuotes long then c :: escaped long (run + 1) rest
      else escape c ++ escaped long 0 rest
    else if c = '\t' || c = '\\' || isControl c || (c = '\n' && !long) then
      escape c ++ escaped long 0 rest
    else c :: escaped long 0 rest

/-- A text between three quotes. One of several lines starts on a line of its own. -/
def writeLong (quote : Char) (cs content : List Char) : List Char :=
  let quotes := [quote, quote, quote]
  quotes ++ (if '\n' ∈ cs then ['\n'] else []) ++ content ++ quotes

def writeBasic (cs : List Char) : List Char := '"' :: escaped false 0 cs ++ ['"']

def writeLiteral (cs : List Char) : List Char := '\'' :: cs ++ ['\'']

def writeLongBasic (cs : List Char) : List Char := writeLong '"' cs (escaped true 0 cs)

def writeLongLiteral (cs : List Char) : List Char := writeLong '\'' cs cs

/-- A text with quotes. -/
def writeText (cs : List Char) : List Char :=
  let control := cs.any isControl
  let multiline := '\n' ∈ cs
  let doubles := longestRun '"' 0 cs
  let singles := longestRun '\'' 0 cs
  if !control && '\\' ∉ cs && doubles = 0 && !multiline then writeBasic cs
  else if !control && singles = 0 && !multiline then writeLiteral cs
  else if !control && '\\' ∉ cs && doubles ≤ 2 then writeLongBasic cs
  else if !control && singles ≤ 2 then writeLongLiteral cs
  else if multiline then writeLongBasic cs
  else writeBasic cs

end DesignMatrix.Toml
