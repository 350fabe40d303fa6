import DesignMatrix.Proofs.CellRows
import DesignMatrix.Proofs.ExactCells
import DesignMatrix.Proofs.FloatSums

/-!
# Operators row by row

An operator acts on a value for all rows as it acts on a value in each row, with two exceptions: a
floating zero that is added or subtracted, which does not touch the sign of a zero, and a divisor,
whose reciprocal is rounded on its own.
-/

namespace DesignMatrix

/-- A zero with a sign. -/
def ElementType.isSignedZero : (type : ElementType) → type.Value → Bool
  | .float64, x => x == 0
  | .float32, x => x == 0
  | .int64, _ | .int32, _ | .uint32, _ | .boolean, _ | .text, _ => false

namespace Operator

open FloatSums

section Arithmetic

variable {α : Type} [Add α] [BEq α] [OfNat α 0]

theorem shifted_of_nonzero {number : α} (nonzero : (number == 0) = false) (x : α) :
    shifted number x = x + number := by
  simp [shifted, nonzero]

variable [Sub α] [Neg α]

theorem sum_eq_neither (subtracts : SubtractsByAdding α) {spread : Spread} {x y : α}
    (left : spread = .left → (x == 0) = false) (right : spread = .right → (y == 0) = false) :
    sum spread x y = sum .neither x y := by
  cases spread with
  | neither => rfl
  | left => exact (shifted_of_nonzero (left rfl) y).trans (subtracts.add_comm y x)
  | right => exact shifted_of_nonzero (right rfl) x

theorem difference_eq_neither (subtracts : SubtractsByAdding α) {spread : Spread} {x y : α}
    (left : spread = .left → (x == 0) = false) (right : spread = .right → (y == 0) = false) :
    difference spread x y = difference .neither x y := by
  cases spread with
  | neither => rfl
  | left => simp [difference, mirrored, left rfl]
  | right =>
    have nonzero : (-y == 0) = false := (subtracts.neg_beq_zero y).trans (right rfl)
    exact (shifted_of_nonzero nonzero x).trans (subtracts.sub_eq x y).symm

variable [Mul α]

theorem arithmetic?_eq_neither (subtracts : SubtractsByAdding α) {operator : Operator}
    {spread : Spread} {x y : α}
    (left : operator = .add ∨ operator = .subtract → spread = .left → (x == 0) = false)
    (right : operator = .add ∨ operator = .subtract → spread = .right → (y == 0) = false) :
    arithmetic? operator spread x y = arithmetic? operator .neither x y := by
  cases operator with
  | add => simp only [arithmetic?, sum_eq_neither subtracts (left (.inl rfl)) (right (.inl rfl))]
  | subtract =>
    simp only [arithmetic?, difference_eq_neither subtracts (left (.inr rfl)) (right (.inr rfl))]
  | multiply | divide | power => rfl

theorem arithmetic?_eq_neither_of_wrapsAround {ofInt : ℤ → α} (wraps : WrapsAround α ofInt)
    (operator : Operator) (spread : Spread) {x y : α} {m n : ℤ} (hx : x = ofInt m)
    (hy : y = ofInt n) : arithmetic? operator spread x y = arithmetic? operator .neither x y := by
  subst hx hy
  cases operator with
  | add => simp only [arithmetic?, sum_ofInt wraps]
  | subtract => simp only [arithmetic?, difference_ofInt wraps]
  | multiply | divide | power => rfl

end Arithmetic

/--
The operator handles the operand that is one value for all rows, if there is one, like any other: it
is no floating zero of a sum or a difference, and no divisor.
-/
structure IsPlain (operator : Operator) (spread : Spread) (type : ElementType)
    (x y : type.Value) : Prop where
  left : operator = .add ∨ operator = .subtract → spread = .left → type.isSignedZero x = false
  right : operator = .add ∨ operator = .subtract → spread = .right → type.isSignedZero y = false
  divisor : spread = .right → operator ≠ .divide

theorem IsPlain.perform?_eq {operator : Operator} {spread : Spread} {type : ElementType}
    {x y : type.Value} (plain : operator.IsPlain spread type x y) :
    operator.perform? spread type x y = operator.perform? .neither type x y := by
  cases type with
  | float64 =>
    simp only [perform?]
    split
    · rename_i division
      have dividend : spread ≠ .right := fun right => plain.divisor right division
      simp [quotient, dividend]
    · exact arithmetic?_eq_neither subtractsByAdding_double plain.left plain.right
  | float32 => exact arithmetic?_eq_neither subtractsByAdding_single plain.left plain.right
  | int64 =>
    exact arithmetic?_eq_neither_of_wrapsAround wrapsAround_int64 operator spread
      (Int64.ofInt_toInt x).symm (Int64.ofInt_toInt y).symm
  | int32 =>
    exact arithmetic?_eq_neither_of_wrapsAround wrapsAround_int32 operator spread
      (Int32.ofInt_toInt x).symm (Int32.ofInt_toInt y).symm
  | uint32 =>
    exact arithmetic?_eq_neither_of_wrapsAround wrapsAround_uint32 operator spread
      (eq_ofInt_uint32 rfl) (eq_ofInt_uint32 rfl)
  | boolean | text => rfl

end Operator

end DesignMatrix
