import DesignMatrix.Number.Double

/-!
# Reading decimal numerals

A numeral is an optional sign followed by a word for infinity or for "not a number", in any case, or
by digits with at most one point among them and an optional power of ten. It stands for the nearest
double; of two equally near doubles, for the one with the even mantissa.
-/

namespace DesignMatrix

/-- A numeral, before it is rounded. -/
inductive Decimal where
  /-- `± mantissa · 10^exponent`. -/
  | finite (negative : Bool) (mantissa : Nat) (exponent : Int)
  | infinite (negative : Bool)
  | notANumber
  deriving DecidableEq, Repr

namespace Decimal

/-- The value of a list of decimal digits, the most significant first. -/
def ofDigits (digits : List Char) : Nat :=
  digits.foldl (fun value digit => 10 * value + (digit.toNat - '0'.toNat)) 0

/-- The number of decimal digits of a natural number. -/
def length (n : Nat) : Nat := (Nat.toDigits 10 n).length

/-- The digits before the point, those behind it, and what follows them. -/
def splitPoint (cs : List Char) : List Char × List Char × List Char :=
  match cs.dropWhile Char.isDigit with
  | '.' :: rest => (cs.takeWhile Char.isDigit, rest.takeWhile Char.isDigit,
      rest.dropWhile Char.isDigit)
  | rest => (cs.takeWhile Char.isDigit, [], rest)

/-- The sign in front of a text, `true` for a minus, and what follows it. -/
def splitSign : List Char → Bool × List Char
  | '-' :: rest => (true, rest)
  | '+' :: rest => (false, rest)
  | rest => (false, rest)

/-- A list of digits, not empty. -/
def digits? (cs : List Char) : Option Nat :=
  if cs.isEmpty || !cs.all Char.isDigit then none else some (ofDigits cs)

/-- The power of ten at the end of a numeral: nothing, or an `e` with an integer. -/
def power? : List Char → Option Int
  | [] => some 0
  | c :: rest =>
    if c = 'e' || c = 'E' then
      match splitSign rest with
      | (true, digits) => (digits? digits).map fun n => -(n : Int)
      | (false, digits) => (digits? digits).map fun n => (n : Int)
    else none

/-- Digits with at most one point and an optional power of ten. -/
def magnitude? (negative : Bool) (cs : List Char) : Option Decimal :=
  match splitPoint cs with
  | (whole, fraction, rest) =>
    if whole.isEmpty && fraction.isEmpty then none
    else (power? rest).map fun power =>
      .finite negative (ofDigits (whole ++ fraction)) (power - fraction.length)

/-- Reads a numeral that fills the whole text. -/
def read? (cs : List Char) : Option Decimal :=
  match splitSign cs with
  | (negative, rest) =>
    match String.ofList (rest.map Char.toLower) with
    | "inf" | "infinity" => some (.infinite negative)
    | "nan" => some .notANumber
    | _ => magnitude? negative rest

/-- The positive double of infinite size. -/
def infinity : Float := 1 / 0

/-- The double that is no number. -/
def nan : Float := 0 / 0

/--
The double nearest to `mantissa · 10^exponent`. A value of more than 310 digits is beyond the largest
double, one below `10^(-330)` is nearest to zero.
-/
def nearest (mantissa : Nat) (exponent : Int) : Float :=
  let size := length mantissa + exponent
  if mantissa = 0 || size < -330 then 0
  else if 310 < size then infinity
  else .ofScientific mantissa (exponent < 0) exponent.natAbs

/-- The double that a numeral stands for. -/
def toFloat : Decimal → Float
  | .finite negative mantissa exponent =>
    if negative then -nearest mantissa exponent else nearest mantissa exponent
  | .infinite negative => if negative then -infinity else infinity
  | .notANumber => nan

end Decimal

/-- The double that a text stands for, if it is a numeral. -/
def double? (text : List Char) : Option Float := (Decimal.read? text).map Decimal.toFloat

end DesignMatrix
