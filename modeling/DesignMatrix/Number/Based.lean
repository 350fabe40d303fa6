import DesignMatrix.Text.Hex

/-!
# Integers with their base in front

A zero and a letter for the base stand in front of the digits.
-/

namespace DesignMatrix.Based

/-- The base that a letter stands for. -/
def base? : Char → Option Nat
  | 'x' => some 16
  | 'o' => some 8
  | 'b' => some 2
  | _ => none

/-- The value of a digit in a base up to 16. -/
def digit? (base : Nat) (c : Char) : Option Nat := (Hex.digit? c).filter (· < base)

/-- The value of a list of digits in a base up to 16, at least one. -/
def value? (base : Nat) (digits : List Char) : Option Nat :=
  if digits.isEmpty then none
  else digits.foldlM (fun value c => (digit? base c).map (base * value + ·)) 0

end DesignMatrix.Based
