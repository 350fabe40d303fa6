import DesignMatrix.Number.Based
import DesignMatrix.Number.Decimal
import DesignMatrix.Toml.Text

/-!
# Bare words of TOML

Values without quotes or brackets: truth values, integers of 64 bits, doubles, dates and times.
-/

namespace DesignMatrix.Toml

/-- The character may stand in a value without quotes. -/
def isBare (c : Char) : Bool :=
  c.isAlphanum || c == '_' || c == '+' || c == '-' || c == '.' || c == ':'

/-- The parts of a text between the underscores in it. -/
def groups : List Char → List (List Char)
  | [] => [[]]
  | c :: rest =>
    if c == '_' then [] :: groups rest
    else match groups rest with
      | first :: more => (c :: first) :: more
      | [] => [[c]]

/-- Digits, possibly with single underscores between them. -/
def isGrouped (isDigit : Char → Bool) (cs : List Char) : Bool :=
  (groups cs).all fun digits => !digits.isEmpty && digits.all isDigit

/-- The text without underscores. -/
def withoutUnderscores (cs : List Char) : List Char := cs.filter (· != '_')

/-- What follows a sign, or the text if there is none in front. -/
def afterSign (cs : List Char) : List Char := (Decimal.splitSign cs).2

/-- Decimal digits without a zero in front of others. -/
def isWhole (cs : List Char) : Bool :=
  isGrouped Char.isDigit cs && (cs.head? != some '0' || cs.length == 1)

/-- The value of digits in a base up to 16, possibly with underscores. -/
def digitsValue? (base : Nat) (cs : List Char) : Option Nat :=
  if isGrouped (fun c => (Based.digit? base c).isSome) cs then
    Based.value? base (withoutUnderscores cs)
  else none

/-- An integer of 64 bits. -/
def isInteger (cs : List Char) : Bool :=
  match cs with
  | '0' :: letter :: digits =>
    ((Based.base? letter).bind fun base => digitsValue? base digits).any (· < Nat.pow 2 63)
  | _ =>
    isWhole (afterSign cs) && (digitsValue? 10 (afterSign cs)).any fun magnitude =>
      magnitude < Nat.pow 2 63 || (magnitude == Nat.pow 2 63 && cs.head? == some '-')

/-- A power of ten with its mark. -/
def isPower : List Char → Bool
  | 'e' :: rest | 'E' :: rest => isGrouped Char.isDigit (afterSign rest)
  | _ => false

/-- What makes digits a double: a fraction, a power of ten or both. -/
def isFractional : List Char → Bool
  | '.' :: rest =>
    let isDigit := fun c : Char => c.isDigit || c == '_'
    let power := rest.dropWhile isDigit
    isGrouped Char.isDigit (rest.takeWhile isDigit) && (power.isEmpty || isPower power)
  | cs => isPower cs

/-- A double. One that is too large must have a minus sign. -/
def isDouble (cs : List Char) : Bool :=
  let magnitude := afterSign cs
  let isDigit := fun c : Char => c.isDigit || c == '_'
  magnitude == "inf".toList || magnitude == "nan".toList ||
    (isWhole (magnitude.takeWhile isDigit) && isFractional (magnitude.dropWhile isDigit) &&
      (double? (withoutUnderscores cs)).any (· < Decimal.infinity))

/-- The value of exactly `count` digits at the front, and what follows them. -/
def readDigits? (count : Nat) (cs : List Char) : Option (Nat × List Char) :=
  let digits := cs.take count
  if digits.length = count && digits.all Char.isDigit then
    some (Decimal.ofDigits digits, cs.drop count)
  else none

/-- What follows a character at the front. -/
def after? (c : Char) (cs : List Char) : Option (List Char) :=
  if cs.head? = some c then some (cs.drop 1) else none

/-- The number of days of a month. -/
def daysOf (year month : Nat) : Nat :=
  if month = 2 then
    (if year % 4 = 0 && (year % 100 != 0 || year % 400 = 0) then 29 else 28)
  else if month = 4 || month = 6 || month = 9 || month = 11 then 30
  else 31

/-- What follows a date. -/
def skipDate? (cs : List Char) : Option (List Char) := do
  let (year, rest) ← readDigits? 4 cs
  let (month, rest) ← readDigits? 2 (← after? '-' rest)
  let (day, rest) ← readDigits? 2 (← after? '-' rest)
  if 1 ≤ month && month ≤ 12 && 1 ≤ day && day ≤ daysOf year month then some rest else none

/-- What follows the hours and minutes of a clock. -/
def skipClock? (cs : List Char) : Option (List Char) := do
  let (hour, rest) ← readDigits? 2 cs
  let (minute, rest) ← readDigits? 2 (← after? ':' rest)
  if hour ≤ 23 && minute ≤ 59 then some rest else none

/-- What follows a time of day, the fraction of its seconds included. -/
def skipTime? (cs : List Char) : Option (List Char) := do
  let (second, rest) ← readDigits? 2 (← after? ':' (← skipClock? cs))
  if second ≤ 60 then
    match rest with
    | '.' :: rest => if (rest.head?.any Char.isDigit) then some (rest.dropWhile Char.isDigit) else none
    | rest => some rest
  else none

/-- Nothing, or how far a time is from that of Greenwich. -/
def isOffset : List Char → Bool
  | [] | ['Z'] | ['z'] => true
  | '+' :: rest | '-' :: rest => skipClock? rest == some []
  | _ => false

/-- A time of day, possibly with an offset. -/
def isZonedTime (cs : List Char) : Bool := (skipTime? cs).any isOffset

/-- A date, a time, or a date and a time with a letter between them. -/
def isMoment (cs : List Char) : Bool :=
  skipTime? cs == some [] || (skipDate? cs).any fun rest =>
    match rest with
    | [] => true
    | 'T' :: time | 't' :: time => isZonedTime time
    | _ => false

/-- A date and a time with a space between them at the front, and what follows them. -/
def skipSpacedMoment? (cs : List Char) : Option (List Char) :=
  match (skipDate? cs) with
  | some (' ' :: rest) =>
    if isZonedTime (rest.takeWhile isBare) then some (rest.dropWhile isBare) else none
  | _ => none

/-- The characters are a number, a date or a time. -/
def isBareValue (cs : List Char) : Bool := isInteger cs || isDouble cs || isMoment cs

end DesignMatrix.Toml
