/-!
# Doubles as dyadic numbers

A double is split into a sign, a natural number and a power of two, so that its value can be
handled in exact arithmetic.
-/

namespace DesignMatrix

/-- What the bits of a double stand for. -/
inductive Dyadic where
  /-- `± mantissa · 2^exponent`; the two zeros differ in their sign. -/
  | finite (negative : Bool) (mantissa : Nat) (exponent : Int)
  | infinite (negative : Bool)
  | notANumber
  deriving DecidableEq, Repr

namespace Dyadic

/-- The value of a double with the given sign, exponent field and fraction field. -/
def ofFields (negative : Bool) (exponent fraction : Nat) : Dyadic :=
  if exponent = 2047 then (if fraction = 0 then .infinite negative else .notANumber)
  else if exponent = 0 then .finite negative fraction (-1074)
  else .finite negative (Nat.pow 2 52 + fraction) (exponent - 1075)

/-- The value of a double. -/
def ofFloat (x : Float) : Dyadic :=
  let bits := x.toBits.toNat
  ofFields (Nat.pow 2 63 ≤ bits) (bits / Nat.pow 2 52 % Nat.pow 2 11) (bits % Nat.pow 2 52)

/-- The natural number that the value is, if it is one. -/
def natural? : Dyadic → Option Nat
  | .finite negative mantissa exponent =>
    if mantissa = 0 then some 0
    else if negative then none
    else if 0 ≤ exponent then some (mantissa * Nat.pow 2 exponent.toNat)
    else
      let divisor := Nat.pow 2 exponent.natAbs
      if mantissa % divisor = 0 then some (mantissa / divisor) else none
  | _ => none

end Dyadic

/-- The natural number that a double is, if it is one; both zeros are `0`. -/
def natural? (x : Float) : Option Nat := (Dyadic.ofFloat x).natural?

/--
Where a double stands among all doubles from the most negative to the most positive, the negative
zero before the positive one and anything that is not a number beyond the infinities.
-/
def rank (x : Float) : Int :=
  let bits := x.toBits.toNat
  if bits < Nat.pow 2 63 then bits else -(bits - Nat.pow 2 63) - 1

end DesignMatrix
