/-!
# Sets of characters given by ranges of code points

A set of characters is a list of closed intervals of code points. The tables of the character
properties (`Alphabetic`, `Numeric`, `Blank`) are such lists, in increasing order.
-/

namespace DesignMatrix.Text

/-- Closed intervals of code points, each given by its first and last member. -/
abbrev Ranges := List (Nat × Nat)

namespace Ranges

/-- Some interval holds the character's code point. -/
def covers (ranges : Ranges) (c : Char) : Bool :=
  ranges.any fun range => range.1 ≤ c.toNat && c.toNat ≤ range.2

theorem covers_iff (ranges : Ranges) (c : Char) :
    ranges.covers c = true ↔ ∃ range ∈ ranges, range.1 ≤ c.toNat ∧ c.toNat ≤ range.2 := by
  simp [covers]

end Ranges

end DesignMatrix.Text
