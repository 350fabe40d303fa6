/-!
# Hexadecimal digits
-/

namespace DesignMatrix.Hex

/-- The value of a hexadecimal digit in either case. -/
def digit? (c : Char) : Option Nat :=
  if c.isDigit then some (c.toNat - '0'.toNat)
  else if 'a' ≤ c && c ≤ 'f' then some (c.toNat - 'a'.toNat + 10)
  else if 'A' ≤ c && c ≤ 'F' then some (c.toNat - 'A'.toNat + 10)
  else none

/-- The value of a list of hexadecimal digits, the most significant first. -/
def value? (digits : List Char) : Option Nat :=
  digits.foldlM (fun value c => (digit? c).map (16 * value + ·)) 0

/-- The last `width` hexadecimal digits of a number, in lower case. -/
def fixed (width n : Nat) : List Char :=
  (List.range width).reverse.map fun place => Nat.digitChar (n / Nat.pow 16 place % 16)

/-- The last `width` hexadecimal digits of a number, in upper case. -/
def fixedUpper (width n : Nat) : List Char := (fixed width n).map Char.toUpper

/-- The character of a code point, if there is one. -/
def character? (code : Nat) : Option Char :=
  if code.isValidChar then some (Char.ofNat code) else none

/-- The character whose code point has the given hexadecimal digits. -/
def coded? (digits : List Char) : Option Char := (value? digits).bind character?

end DesignMatrix.Hex
