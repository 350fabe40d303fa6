import DesignMatrix.Frame.Evaluation
import DesignMatrix.Proofs.ExactDoubles

/-!
# Integers in cells

A cell of an integer type or a double stands for a number. The types that two such cells are
brought to keep the number, and a sum, a difference or a product is exact in every type that holds
the result.
-/

namespace DesignMatrix

namespace ElementType

/-- The number that a cell stands for, if its type is one of integers or of doubles. -/
def number? : (type : ElementType) → type.Value → Option ℚ
  | .float64, x => Double.number? x
  | .int64, x => some x.toInt
  | .int32, x => some x.toInt
  | .uint32, x => some x.toNat
  | .float32, _ | .boolean, _ | .text, _ => none

/-- The cells of the type stand for numbers. -/
def isExact (type : ElementType) : Bool := type.isInteger || type = .float64

/-- An integer that a cell of the type can stand for, of magnitude at most `2 ^ 53`. -/
def Holds (type : ElementType) (n : ℤ) : Prop :=
  |n| ≤ 2 ^ 53 ∧ match type with
    | .int32 => -2 ^ 31 ≤ n ∧ n < 2 ^ 31
    | .uint32 => 0 ≤ n ∧ n < 2 ^ 32
    | _ => True

instance (type : ElementType) (n : ℤ) : Decidable (type.Holds n) :=
  match type with
  | .int32 | .uint32 => inferInstanceAs (Decidable (_ ∧ _ ∧ _))
  | .float64 | .float32 | .int64 | .boolean | .text => inferInstanceAs (Decidable (_ ∧ True))

/-- The integers of the one type are among those of the other. -/
def widens (source target : ElementType) : Bool :=
  source.isExact && (target = source || target = .float64 || (target = .int64 && source.isInteger))

/-- A signed word and the unsigned word of the same bits agree below `2 ^ 63`. -/
theorem toInt_eq_toNat_toUInt64 {x : Int64} (small : 0 ≤ x.toInt ∨ x.toUInt64.toNat < 2 ^ 63) :
    x.toInt = x.toUInt64.toNat := by
  have bits : x.toInt = if 2 * x.toUInt64.toNat < 2 ^ 64 then (x.toUInt64.toNat : ℤ)
      else x.toUInt64.toNat - 2 ^ 64 := BitVec.toInt_eq_toNat_cond x.toBitVec
  have bounded := x.toUInt64.toNat_lt
  split at bits <;> omega

/-- The conversion of a natural number is the same from every unsigned type. -/
theorem number?_toFloat {x : UInt64} {n : ℤ} (value : (x.toNat : ℤ) = n) (small : |n| ≤ 2 ^ 53) :
    Double.number? x.toFloat = some (n : ℚ) := by
  subst value
  exact Double.number?_ofNat small

theorem number?_signedDouble {x : Int64} (small : |x.toInt| ≤ 2 ^ 53) :
    Double.number? (signedDouble x) = some (x.toInt : ℚ) := by
  have bounds := abs_le.mp small
  unfold signedDouble
  split
  · rename_i negative
    have below : x.toInt < 0 := Int64.lt_iff_toInt_lt.mp negative
    have opposite : (-x).toInt = -x.toInt := by
      rw [Int64.toInt_neg]
      exact Int.bmod_eq_of_le (by omega) (by omega)
    have magnitude : ((-x).toUInt64.toNat : ℤ) = -x.toInt := by
      rw [← toInt_eq_toNat_toUInt64 (.inl (by omega)), opposite]
    have exact := Double.number?_neg (number?_toFloat magnitude (by rwa [abs_neg]))
    rwa [neg_neg] at exact
  · rename_i nonnegative
    have above : 0 ≤ x.toInt := by
      by_contra below
      exact nonnegative (Int64.lt_iff_toInt_lt.mpr (not_le.mp below))
    exact number?_toFloat (toInt_eq_toNat_toUInt64 (.inl above)).symm small

theorem exists_convert? {source target : ElementType} (wider : widens source target)
    {x : source.Value} {n : ℤ} (hx : source.number? x = some (n : ℚ)) (small : |n| ≤ 2 ^ 53) :
    ∃ y, source.convert? target x = some y ∧ target.number? y = some (n : ℚ) := by
  cases source with
  | float32 | boolean | text => cases wider
  | float64 =>
    cases target with
    | float64 => exact ⟨x, rfl, hx⟩
    | _ => cases wider
  | int64 =>
    cases target with
    | float64 =>
      obtain rfl : Int64.toInt x = n := by simpa [number?] using hx
      exact ⟨_, rfl, number?_signedDouble small⟩
    | int64 => exact ⟨x, rfl, hx⟩
    | _ => cases wider
  | int32 =>
    have widened : (Int32.toInt64 x).toInt = n := by
      rw [Int32.toInt_toInt64]
      simpa [number?] using hx
    cases target with
    | float64 =>
      subst widened
      exact ⟨_, rfl, number?_signedDouble small⟩
    | int64 => exact ⟨_, rfl, by simp [number?, widened]⟩
    | int32 => exact ⟨x, rfl, hx⟩
    | _ => cases wider
  | uint32 =>
    have value : (UInt32.toNat x : ℤ) = n := by
      have := Option.some.inj hx
      exact_mod_cast this
    cases target with
    | float64 =>
      subst value
      exact ⟨_, rfl, Double.number?_ofNat small⟩
    | int64 =>
      have widened : (UInt32.toUInt64 x).toInt64.toInt = n := by
        have below := UInt32.toNat_lt x
        rw [toInt_eq_toNat_toUInt64 (.inr _), UInt64.toUInt64_toInt64, UInt32.toNat_toUInt64, value]
        rw [UInt64.toUInt64_toInt64, UInt32.toNat_toUInt64]
        omega
      exact ⟨_, rfl, by simp [number?, widened]⟩
    | uint32 => exact ⟨x, rfl, hx⟩
    | _ => cases wider

/-- Two cells that stand for numbers are brought to a type that keeps both. -/
theorem widens_common? {left right shared : ElementType} (hl : left.isExact) (hr : right.isExact)
    (h : left.common? right = some shared) : left.widens shared ∧ right.widens shared := by
  cases left <;> cases right <;> simp_all [common?, widens, isExact, isInteger]

end ElementType

namespace Operator

/-- A sum, a difference or a product of numbers. -/
def onNumbers? (operator : Operator) (x y : ℚ) : Option ℚ :=
  match operator with
  | .add => some (x + y)
  | .subtract => some (x - y)
  | .multiply => some (x * y)
  | .divide | .power => none

/-- Cells that count integers up to a modulus, and come back to the same cell beyond it. -/
structure WrapsAround (α : Type) [Add α] [Sub α] [Mul α] [Neg α] [BEq α] [OfNat α 0]
    (ofInt : ℤ → α) : Prop where
  add (m n : ℤ) : ofInt (m + n) = ofInt m + ofInt n
  mul (m n : ℤ) : ofInt (m * n) = ofInt m * ofInt n
  neg (n : ℤ) : ofInt (-n) = -ofInt n
  sub (x y : α) : x - y = x + -y
  zero (x : α) : (x == 0) = true → x = ofInt 0

theorem wrapsAround_int64 : WrapsAround Int64 Int64.ofInt where
  add := Int64.ofInt_add
  mul := Int64.ofInt_mul
  neg := Int64.ofInt_neg
  sub := Int64.sub_eq_add_neg
  zero _ := eq_of_beq

theorem wrapsAround_int32 : WrapsAround Int32 Int32.ofInt where
  add := Int32.ofInt_add
  mul := Int32.ofInt_mul
  neg := Int32.ofInt_neg
  sub := Int32.sub_eq_add_neg
  zero _ := eq_of_beq

theorem wrapsAround_uint32 : WrapsAround UInt32 UInt32.ofInt where
  add := UInt32.ofInt_add
  mul := UInt32.ofInt_mul
  neg := UInt32.ofInt_neg
  sub := UInt32.sub_eq_add_neg
  zero _ := eq_of_beq

variable {operator : Operator} {a b c : ℤ}

theorem onNumbers?_cases (hc : operator.onNumbers? a b = some (c : ℚ)) :
    (operator = .add ∧ a + b = c) ∨ (operator = .subtract ∧ a - b = c) ∨
      (operator = .multiply ∧ a * b = c) := by
  cases operator with
  | add => exact .inl ⟨rfl, by exact_mod_cast Option.some.inj hc⟩
  | subtract => exact .inr (.inl ⟨rfl, by exact_mod_cast Option.some.inj hc⟩)
  | multiply => exact .inr (.inr ⟨rfl, by exact_mod_cast Option.some.inj hc⟩)
  | divide | power => cases hc

section Words

variable {α : Type} [Add α] [Sub α] [Mul α] [Neg α] [BEq α] [OfNat α 0] {ofInt : ℤ → α}

theorem shifted_ofInt (wraps : WrapsAround α ofInt) (m n : ℤ) :
    shifted (ofInt m) (ofInt n) = ofInt (n + m) := by
  unfold shifted
  split
  · rename_i zero
    rw [wraps.add, wraps.zero _ zero, ← wraps.add, add_zero]
  · rw [wraps.add]

theorem mirrored_ofInt (wraps : WrapsAround α ofInt) (m n : ℤ) :
    mirrored (ofInt m) (ofInt n) = ofInt (m - n) := by
  have difference : ofInt (m - n) = ofInt m + -ofInt n := by
    rw [Int.sub_eq_add_neg, wraps.add, wraps.neg]
  unfold mirrored
  split
  · rename_i zero
    rw [difference, wraps.zero _ zero, ← wraps.neg, ← wraps.add, zero_add]
  · rw [difference, wraps.sub]

theorem sum_ofInt (wraps : WrapsAround α ofInt) (spread : Spread) (m n : ℤ) :
    sum spread (ofInt m) (ofInt n) = ofInt (m + n) := by
  cases spread with
  | neither => exact (wraps.add m n).symm
  | left => rw [sum, shifted_ofInt wraps, add_comm]
  | right => exact shifted_ofInt wraps n m

theorem difference_ofInt (wraps : WrapsAround α ofInt) (spread : Spread) (m n : ℤ) :
    difference spread (ofInt m) (ofInt n) = ofInt (m - n) := by
  cases spread with
  | neither => rw [difference, wraps.sub, ← wraps.neg, ← wraps.add, Int.sub_eq_add_neg]
  | left => exact mirrored_ofInt wraps m n
  | right => rw [difference, ← wraps.neg, shifted_ofInt wraps, Int.sub_eq_add_neg]

/-- However the cells are spread, the result is that of the integers. -/
theorem arithmetic?_ofInt (wraps : WrapsAround α ofInt)
    (hc : operator.onNumbers? a b = some (c : ℚ)) (spread : Spread) :
    arithmetic? operator spread (ofInt a) (ofInt b) = some (ofInt c) := by
  obtain ⟨rfl, rfl⟩ | ⟨rfl, rfl⟩ | ⟨rfl, rfl⟩ := onNumbers?_cases hc
  · simp only [arithmetic?, sum_ofInt wraps]
  · simp only [arithmetic?, difference_ofInt wraps]
  · simp only [arithmetic?, wraps.mul]

end Words

section Doubles

variable {x y : Float} (hx : Double.number? x = some (a : ℚ))
  (hy : Double.number? y = some (b : ℚ))

include hx hy

theorem number?_shifted (small : |b + a| ≤ 2 ^ 53) :
    Double.number? (shifted x y) = some ((b + a : ℤ) : ℚ) := by
  unfold shifted
  split
  · rename_i zero
    rwa [Double.eq_zero_of_beq_zero hx zero, add_zero]
  · exact Double.number?_add hy hx small

theorem number?_mirrored (small : |a - b| ≤ 2 ^ 53) :
    Double.number? (mirrored x y) = some ((a - b : ℤ) : ℚ) := by
  unfold mirrored
  split
  · rename_i zero
    rw [Double.eq_zero_of_beq_zero hx zero, zero_sub]
    exact Double.number?_neg hy
  · exact Double.number?_sub hx hy small

theorem number?_sum (spread : Spread) (small : |a + b| ≤ 2 ^ 53) :
    Double.number? (sum spread x y) = some ((a + b : ℤ) : ℚ) := by
  cases spread with
  | neither => exact Double.number?_add hx hy small
  | left =>
    rw [add_comm] at small ⊢
    exact number?_shifted hx hy small
  | right => exact number?_shifted hy hx small

theorem number?_difference (spread : Spread) (small : |a - b| ≤ 2 ^ 53) :
    Double.number? (difference spread x y) = some ((a - b : ℤ) : ℚ) := by
  cases spread with
  | neither => exact Double.number?_sub hx hy small
  | left => exact number?_mirrored hx hy small
  | right =>
    rw [sub_eq_add_neg] at small ⊢
    exact number?_shifted (Double.number?_neg hy) hx small

theorem exists_arithmetic?_double (spread : Spread)
    (hc : operator.onNumbers? a b = some (c : ℚ)) (small : |c| ≤ 2 ^ 53) :
    ∃ z, arithmetic? operator spread x y = some z ∧ Double.number? z = some (c : ℚ) := by
  obtain ⟨rfl, rfl⟩ | ⟨rfl, rfl⟩ | ⟨rfl, rfl⟩ := onNumbers?_cases hc
  · exact ⟨_, rfl, number?_sum hx hy spread small⟩
  · exact ⟨_, rfl, number?_difference hx hy spread small⟩
  · exact ⟨_, rfl, Double.number?_mul hx hy small⟩

end Doubles

theorem eq_ofInt_int64 {x : Int64} (hx : ElementType.int64.number? x = some (a : ℚ)) :
    x = Int64.ofInt a := by
  obtain rfl : x.toInt = a := by exact_mod_cast Option.some.inj hx
  exact (Int64.ofInt_toInt x).symm

theorem eq_ofInt_int32 {x : Int32} (hx : ElementType.int32.number? x = some (a : ℚ)) :
    x = Int32.ofInt a := by
  obtain rfl : x.toInt = a := by exact_mod_cast Option.some.inj hx
  exact (Int32.ofInt_toInt x).symm

theorem toNat_ofInt_uint32 (n : ℤ) : ((UInt32.ofInt n).toNat : ℤ) = n % 2 ^ 32 := by
  simp only [UInt32.ofInt, UInt32.toNat_ofNat']
  omega

theorem eq_ofInt_uint32 {x : UInt32} (hx : ElementType.uint32.number? x = some (a : ℚ)) :
    x = UInt32.ofInt a := by
  obtain rfl : (x.toNat : ℤ) = a := by exact_mod_cast Option.some.inj hx
  have bounded := x.toNat_lt
  have value := toNat_ofInt_uint32 x.toNat
  exact UInt32.toNat_inj.mp (by omega)

/-- In a type that holds the result, the operator is exact. -/
theorem exists_perform? {type : ElementType} {x y : type.Value}
    (hx : type.number? x = some (a : ℚ)) (hy : type.number? y = some (b : ℚ))
    (hc : operator.onNumbers? a b = some (c : ℚ)) (holds : type.Holds c) (spread : Spread) :
    ∃ z, operator.perform? spread type x y = some z ∧ type.number? z = some (c : ℚ) := by
  obtain ⟨small, range⟩ := holds
  have bounds := abs_le.mp small
  cases type with
  | float32 | boolean | text => cases hx
  | float64 =>
    have plain : operator ≠ .divide := by
      rintro rfl
      cases hc
    simp only [perform?, plain, if_false]
    exact exists_arithmetic?_double hx hy spread hc small
  | int64 =>
    rw [eq_ofInt_int64 hx, eq_ofInt_int64 hy]
    refine ⟨_, arithmetic?_ofInt wrapsAround_int64 hc spread, ?_⟩
    have kept : (Int64.ofInt c).toInt = c := Int64.toInt_ofInt_of_le (by omega) (by omega)
    simp only [ElementType.number?, kept]
  | int32 =>
    rw [eq_ofInt_int32 hx, eq_ofInt_int32 hy]
    refine ⟨_, arithmetic?_ofInt wrapsAround_int32 hc spread, ?_⟩
    have kept : (Int32.ofInt c).toInt = c := Int32.toInt_ofInt_of_le range.1 range.2
    simp only [ElementType.number?, kept]
  | uint32 =>
    rw [eq_ofInt_uint32 hx, eq_ofInt_uint32 hy]
    refine ⟨_, arithmetic?_ofInt wrapsAround_uint32 hc spread, ?_⟩
    have kept : ((UInt32.ofInt c).toNat : ℤ) = c := by
      rw [toNat_ofInt_uint32, Int.emod_eq_of_lt range.1 range.2]
    have value : (((UInt32.ofInt c).toNat : ℤ) : ℚ) = c := by rw [kept]
    exact congrArg some value

end Operator

end DesignMatrix
