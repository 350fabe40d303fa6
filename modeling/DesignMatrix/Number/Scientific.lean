import DesignMatrix.Number.Decimal

/-!
# Doubles in scientific notation

A double is written with a fixed number of significant digits, of which trailing zeros are dropped:
one digit, then a point and the others if there are any, then `e` and the power of ten. The exact
value is rounded, and a tie goes to the even digit.
-/

namespace DesignMatrix.Scientific

/-- The quotient rounded to the nearest natural number, a tie to the even one. -/
def roundQuotient (num den : Nat) : Nat :=
  let quotient := num / den
  let twice := 2 * (num % den)
  if twice < den then quotient
  else if den < twice then quotient + 1
  else quotient + quotient % 2

/-- The power of ten of the leading digit of `num / den`, for a positive quotient. -/
def leadingPower (num den : Nat) : Int :=
  let guess : Int := Decimal.length num - Decimal.length den
  if den * Nat.pow 10 guess.toNat ≤ num * Nat.pow 10 (-guess).toNat then guess else guess - 1

/--
A positive quotient rounded to `places` significant digits: the digits as a natural number, and the
power of ten of the first of them.
-/
def significant (places num den : Nat) : Nat × Int :=
  let power := leadingPower num den
  let shift : Int := places - 1 - power
  let rounded := roundQuotient (num * Nat.pow 10 shift.toNat) (den * Nat.pow 10 (-shift).toNat)
  if Decimal.length rounded ≤ places then (rounded, power) else (rounded / 10, power + 1)

/-- The list without the zeros at its end. -/
def dropTrailingZeros (digits : List Char) : List Char :=
  (digits.reverse.dropWhile (· == '0')).reverse

/-- The digits with a point behind the first one, if others follow. -/
def pointed : List Char → List Char
  | [] => ['0']
  | [digit] => [digit]
  | digit :: rest => digit :: '.' :: rest

/-- A positive quotient in scientific notation. -/
def ofQuotient (places num den : Nat) : String :=
  let (digits, power) := significant places num den
  String.ofList (pointed (dropTrailingZeros (Nat.toDigits 10 digits))) ++ "e" ++ toString power

/-- A double with the given number of significant digits. -/
def text (places : Nat) (x : Float) : String :=
  match Dyadic.ofFloat x with
  | .notANumber => "NaN"
  | .infinite negative => if negative then "-inf" else "inf"
  | .finite negative mantissa exponent =>
    let unsigned := if mantissa = 0 then "0e0"
      else ofQuotient places (mantissa * Nat.pow 2 exponent.toNat) (Nat.pow 2 (-exponent).toNat)
    if negative then "-" ++ unsigned else unsigned

end DesignMatrix.Scientific
