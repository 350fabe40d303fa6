import DesignMatrix.Text.Hex
import DesignMatrix.Yaml.Gap

/-!
# Quoted scalars

Between single quotes a quote is written twice and nothing else is escaped. Between double quotes a
backslash starts an escape; in front of a break it joins two lines. Both kinds may go over several
lines, none of which may look like the start or the end of a document.
-/

namespace DesignMatrix.Yaml

/-- The text up to a closing single quote, behind a gap, and what follows the quote. -/
def readSingle? : Gap → List Char → Option Reading
  | _, [] => none
  | gap, '\'' :: '\'' :: rest => (readSingle? .empty rest).map (.prepend (gap.text ++ ['\'']))
  | gap, '\'' :: rest => some (gap.text, rest)
  | gap, c :: rest =>
    if isBreak c && startsMarker rest then none
    else if isGap c then readSingle? (gap.push c) rest
    else (readSingle? .empty rest).map (.prepend (gap.text ++ [c]))

/-- The character of an escape of one letter. -/
def shortEscape? : Char → Option Char
  | '0' => some '\x00'
  | 'a' => some '\x07'
  | 'b' => some '\x08'
  | 't' | '\t' => some '\t'
  | 'n' => some '\n'
  | 'v' => some '\x0b'
  | 'f' => some '\x0c'
  | 'r' => some '\r'
  | 'e' => some '\x1b'
  | ' ' => some ' '
  | '"' => some '"'
  | '/' => some '/'
  | '\\' => some '\\'
  | 'N' => some '\u0085'
  | '_' => some '\u00a0'
  | 'L' => some '\u2028'
  | 'P' => some '\u2029'
  | _ => none

/-- The text up to a closing double quote, behind a gap, and what follows the quote. -/
def readDouble? : Gap → List Char → Option Reading
  | _, [] => none
  | gap, '"' :: rest => some (gap.text, rest)
  | gap, '\\' :: 'x' :: a :: b :: rest => do
    let c ← Hex.coded? [a, b]
    (readDouble? .empty rest).map (.prepend (gap.text ++ [c]))
  | gap, '\\' :: 'u' :: a :: b :: c :: d :: rest => do
    let c ← Hex.coded? [a, b, c, d]
    (readDouble? .empty rest).map (.prepend (gap.text ++ [c]))
  | gap, '\\' :: 'U' :: a :: b :: c :: d :: e :: f :: g :: h :: rest => do
    let c ← Hex.coded? [a, b, c, d, e, f, g, h]
    (readDouble? .empty rest).map (.prepend (gap.text ++ [c]))
  | gap, '\\' :: c :: rest =>
    if isBreak c then
      if startsMarker rest then none
      else (readDouble? (.breaks none []) rest).map (.prepend gap.text)
    else do
      let c ← shortEscape? c
      (readDouble? .empty rest).map (.prepend (gap.text ++ [c]))
  | gap, c :: rest =>
    if isBreak c && startsMarker rest then none
    else if isGap c then readDouble? (gap.push c) rest
    else (readDouble? .empty rest).map (.prepend (gap.text ++ [c]))

end DesignMatrix.Yaml
