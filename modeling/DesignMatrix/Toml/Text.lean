import DesignMatrix.Text.Hex
import DesignMatrix.Text.Reading

/-!
# Texts of TOML

A text stands between double quotes, where a backslash starts an escape, or between single quotes,
where it does not. Between three quotes it may go over several lines. Every line ends in a newline.
-/

namespace DesignMatrix.Toml

/-- The text with a newline for a carriage return and a newline. -/
def unifyNewlines : List Char → List Char
  | '\r' :: '\n' :: rest => '\n' :: unifyNewlines rest
  | c :: rest => c :: unifyNewlines rest
  | [] => []

/-- The character separates words of a line. -/
def isBlank (c : Char) : Bool := c == ' ' || c == '\t'

def skipBlanks (cs : List Char) : List Char := cs.dropWhile isBlank

/-- The character is none of the control characters, or a tab. -/
def isPrintable (c : Char) : Bool := c == '\t' || (0x20 ≤ c.toNat && c.toNat != 0x7f)

/-- The character of an escape of one letter. -/
def shortEscape? : Char → Option Char
  | 'b' => some '\x08'
  | 't' => some '\t'
  | 'n' => some '\n'
  | 'f' => some '\x0c'
  | 'r' => some '\r'
  | '"' => some '"'
  | '\\' => some '\\'
  | _ => none

/-- The text up to a closing double quote, and what follows it. -/
def readBasic? : List Char → Option Reading
  | [] => none
  | '"' :: rest => some ([], rest)
  | '\\' :: 'u' :: a :: b :: c :: d :: rest => do
    let c ← Hex.coded? [a, b, c, d]
    (readBasic? rest).map (.prepend [c])
  | '\\' :: 'U' :: a :: b :: c :: d :: e :: f :: g :: h :: rest => do
    let c ← Hex.coded? [a, b, c, d, e, f, g, h]
    (readBasic? rest).map (.prepend [c])
  | '\\' :: c :: rest => do
    let c ← shortEscape? c
    (readBasic? rest).map (.prepend [c])
  | c :: rest => if isPrintable c then (readBasic? rest).map (.prepend [c]) else none

/-- The text up to a closing single quote, and what follows it. -/
def readLiteral? : List Char → Option Reading
  | [] => none
  | '\'' :: rest => some ([], rest)
  | c :: rest => if isPrintable c then (readLiteral? rest).map (.prepend [c]) else none

/--
The end of a text between three quotes, behind three of them: up to two more quotes belong to the
text.
-/
def closeLong (quote : Char) : List Char → Reading
  | c :: d :: rest =>
    if c = quote then (if d = quote then ([c, d], rest) else ([c], d :: rest)) else ([], c :: d :: rest)
  | [c] => if c = quote then ([c], []) else ([], [c])
  | [] => ([], [])

/-- Only blanks are left on the line. -/
def endsLine (cs : List Char) : Bool := (skipBlanks cs).head? == some '\n'

/--
The text up to three double quotes, and what follows them. A backslash at the end of a line takes
away the break and all blanks and breaks behind it; they are being skipped if `skipping`.
-/
def readLongBasic? : (skipping : Bool) → List Char → Option Reading
  | _, [] => none
  | _, '"' :: '"' :: '"' :: rest => some (closeLong '"' rest)
  | _, '\\' :: 'u' :: a :: b :: c :: d :: rest => do
    let c ← Hex.coded? [a, b, c, d]
    (readLongBasic? false rest).map (.prepend [c])
  | _, '\\' :: 'U' :: a :: b :: c :: d :: e :: f :: g :: h :: rest => do
    let c ← Hex.coded? [a, b, c, d, e, f, g, h]
    (readLongBasic? false rest).map (.prepend [c])
  | _, '\\' :: c :: rest =>
    if endsLine (c :: rest) then readLongBasic? true rest
    else do
      let c ← shortEscape? c
      (readLongBasic? false rest).map (.prepend [c])
  | skipping, c :: rest =>
    if skipping && (isBlank c || c == '\n') then readLongBasic? true rest
    else if isPrintable c || c == '\n' then (readLongBasic? false rest).map (.prepend [c])
    else none

/-- The text up to three single quotes, and what follows them. -/
def readLongLiteral? : List Char → Option Reading
  | [] => none
  | '\'' :: '\'' :: '\'' :: rest => some (closeLong '\'' rest)
  | c :: rest =>
    if isPrintable c || c == '\n' then (readLongLiteral? rest).map (.prepend [c]) else none

/-- The text without a newline at its front. -/
def dropNewline : List Char → List Char
  | '\n' :: rest => rest
  | cs => cs

/-- A text with its quotes, and what follows it. -/
def readText? : List Char → Option Reading
  | '"' :: '"' :: '"' :: rest => readLongBasic? false (dropNewline rest)
  | '"' :: rest => readBasic? rest
  | '\'' :: '\'' :: '\'' :: rest => readLongLiteral? (dropNewline rest)
  | '\'' :: rest => readLiteral? rest
  | _ => none

/-- What follows a comment on its line, if there is one. -/
def skipComment? (cs : List Char) : Option (List Char) :=
  if cs.head? = some '#' then
    if (cs.takeWhile (· != '\n')).all isPrintable then some (cs.dropWhile (· != '\n')) else none
  else some cs

end DesignMatrix.Toml
