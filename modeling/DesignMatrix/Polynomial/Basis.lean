import DesignMatrix.Number.Double
import DesignMatrix.Polynomial.Recurrence

/-!
# Orthogonal polynomial bases

The basis of a column up to a degree: the orthogonal polynomials over its values, each scaled to
unit length. There is one as long as the degree is below the number of distinct values.
-/

namespace DesignMatrix

/-- Why a column has no basis of some degree. -/
inductive BasisFault where
  /-- The named column has a missing value. -/
  | missingValue (source : String)
  | degreeTooLarge (degree distinct : Nat)
  deriving DecidableEq, Repr

def BasisFault.message : BasisFault → String
  | .missingValue source => "poly() does not accept missing values in '" ++ source ++ "'"
  | .degreeTooLarge degree distinct =>
    "poly() degree must be less than the number of distinct values (degree " ++ toString degree ++
      ", distinct values " ++ toString distinct ++ ")"

namespace Basis

/-- The number of runs of numerically equal neighbours. -/
def runs : List Float → Nat
  | [] => 0
  | [_] => 1
  | x :: y :: rest => if x == y then runs (y :: rest) else runs (y :: rest) + 1

/-- The number of distinct values. The two zeros are one value; what is no number equals nothing. -/
def distinctCount (values : List Float) : Nat :=
  runs (values.mergeSort fun x y => rank x ≤ rank y)

/-- A polynomial scaled to unit length. -/
def normalized (polynomial : List Float × Float) : List Float :=
  let length := polynomial.2.sqrt
  polynomial.1.map (· / length)

/-- The columns of the basis of some values, those of degree `1` up to `degree`. -/
def columns (values : List Float) (degree : Nat) : Except BasisFault (List (List Float)) :=
  if values.isEmpty then .ok (List.replicate degree [])
  else if distinctCount values ≤ degree then
    .error (.degreeTooLarge degree (distinctCount values))
  else .ok ((Recurrence.polynomials values degree).map normalized)

/-- Column `order` of the basis, the first one being `1`; zeros if the basis has no such column. -/
def column (values : List Float) (degree order : Nat) : Except BasisFault (List Float) :=
  (columns values degree).map fun basis =>
    (basis[order - 1]?).getD (values.map fun _ => 0)

end Basis

end DesignMatrix
