/-!
# Characters of YAML

Every way to end a line but the line and paragraph separators counts as a newline; the separators
end a line too, but stay what they are.
-/

namespace DesignMatrix.Yaml

/-- The mark that may stand at the front of a text and has no meaning there. -/
def byteOrderMark : Char := '\ufeff'

/-- The text with a newline in place of every other end of a line. -/
def unifyBreaks : List Char → List Char
  | '\r' :: '\n' :: rest => '\n' :: unifyBreaks rest
  | '\r' :: rest => '\n' :: unifyBreaks rest
  | '\u0085' :: rest => '\n' :: unifyBreaks rest
  | c :: rest => c :: unifyBreaks rest
  | [] => []

/-- The character ends a line of a text with unified breaks. -/
def isBreak (c : Char) : Bool := c == '\n' || c == '\u2028' || c == '\u2029'

/-- The character separates words of a line. -/
def isBlank (c : Char) : Bool := c == ' ' || c == '\t'

/-- The character separates words or lines. -/
def isGap (c : Char) : Bool := isBlank c || isBreak c

/-- The text has come to its end, to a blank or to a break. -/
def atGap : List Char → Bool
  | [] => true
  | c :: _ => isGap c

/-- The character may stand in a document. -/
def isAllowed (c : Char) : Bool :=
  c == '\t' || c == '\n' || c == '\r' || c == '\u0085' ||
    (0x20 ≤ c.toNat && c.toNat ≤ 0x7e) || (0xa0 ≤ c.toNat && c.toNat ≤ 0xfffd) ||
    0x10000 ≤ c.toNat

/-- The character may be written as it is. -/
def isPrintable (c : Char) : Bool :=
  c == '\n' || (0x20 ≤ c.toNat && c.toNat ≤ 0x7e) ||
    (0xa0 ≤ c.toNat && c.toNat ≤ 0xfffd && c != byteOrderMark) || 0x10000 ≤ c.toNat

/-- The character may stand in the name of an anchor or a tag handle. -/
def isWord (c : Char) : Bool := c.isAlphanum || c == '-' || c == '_'

/-- The text starts with a line of its own that begins or ends a document. -/
def startsMarker : List Char → Bool
  | '-' :: '-' :: '-' :: rest | '.' :: '.' :: '.' :: rest => atGap rest
  | _ => false

end DesignMatrix.Yaml
