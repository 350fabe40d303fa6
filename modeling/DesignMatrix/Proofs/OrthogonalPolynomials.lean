import Mathlib.Algebra.Order.BigOperators.Group.List
import Mathlib.Algebra.Polynomial.Eval.SMul
import Mathlib.Algebra.Polynomial.Roots
import Mathlib.Analysis.Real.Sqrt
import Mathlib.Tactic.LinearCombination
import Mathlib.Tactic.NormNum
import DesignMatrix.Proofs.BasisColumns

/-!
# The recurrence yields orthogonal polynomials

Over exact numbers each vector of the three-term recurrence has the values of a monic polynomial,
one degree higher than the last, and is orthogonal to all vectors before it, although a step looks
at two of them only. Below the number of distinct values no vector is zero, and so no step divides
by zero.
-/

namespace DesignMatrix.Recurrence

open Polynomial

variable {K : Type} [Field K]

/-- The sum of the products of the entries of two vectors. -/
def dot (u v : List K) : K := (List.zipWith (· * ·) u v).sum

theorem total_eq_sum (xs : List K) : total xs = xs.sum := by
  cases xs with
  | nil => rfl
  | cons x xs => rw [List.sum_eq_foldl, List.foldl_cons, zero_add, total]

theorem squares_eq_dot (v : List K) : squares v = dot v v := by
  rw [squares, total_eq_sum, dot, List.zipWith_self]

/-- The sum of a polynomial over the values, which is linear in the polynomial. -/
noncomputable def sumOver (values : List K) : K[X] →ₗ[K] K := (values.map leval).sum

theorem sumOver_apply (values : List K) (p : K[X]) :
    sumOver values p = (values.map fun x => p.eval x).sum := by
  induction values with
  | nil => simp [sumOver]
  | cons x values ih => simpa [sumOver, leval_apply] using ih

theorem dot_map_eval (values : List K) (p q : K[X]) :
    dot (values.map p.eval) (values.map q.eval) = sumOver values (p * q) := by
  simp [dot, sumOver_apply, List.zipWith_map, List.zipWith_self, eval_mul]

/-! ## The polynomials behind the vectors -/

/-- The recurrence after a number of steps. -/
def stageAt (values : List K) (step : ℕ) : Stage K := (next (centered values))^[step] (start values)

theorem stageAt_succ (values : List K) (step : ℕ) :
    stageAt values (step + 1) = next (centered values) (stageAt values step) :=
  Function.iterate_succ_apply' _ _ _

/-- The variable, centred at the mean of the values. -/
noncomputable def center (values : List K) : K[X] := X - C (total values / count values)

/-- The quotient of two norms by which a step takes off the polynomial before the last one. -/
def ratio (stage : Stage K) : K := stage.currentNorm / stage.previousNorm

/-- The polynomials after a number of steps, the last but one and the last. -/
noncomputable def lastTwo (values : List K) : ℕ → K[X] × K[X]
  | 0 => (0, 1)
  | step + 1 =>
    let (p, q) := lastTwo values step
    let stage := stageAt values step
    (q, (center values - C (shift (centered values) stage)) * q - C (ratio stage) * p)

/-- The polynomial of a degree. -/
noncomputable def polynomial (values : List K) (degree : ℕ) : K[X] := (lastTwo values degree).2

/-- The polynomial of one degree less, and nothing below the constant one. -/
noncomputable def before (values : List K) (degree : ℕ) : K[X] := (lastTwo values degree).1

section Polynomials

variable (values : List K)

@[simp] theorem before_zero : before values 0 = 0 := rfl

@[simp] theorem before_succ (degree : ℕ) :
    before values (degree + 1) = polynomial values degree := rfl

@[simp] theorem polynomial_zero : polynomial values 0 = 1 := rfl

theorem polynomial_succ (degree : ℕ) : polynomial values (degree + 1) =
    (center values - C (shift (centered values) (stageAt values degree))) *
        polynomial values degree -
      C (ratio (stageAt values degree)) * before values degree := rfl

theorem eval_center (x : K) :
    (center values).eval x = x - total values / count values := by
  simp [center]

theorem centered_eq : centered values = values.map (center values).eval := by
  simp only [centered, eval_center]

/-- The vectors of a stage have the values of the last two polynomials. -/
theorem stageAt_vectors (step : ℕ) :
    (stageAt values step).previous = values.map (before values step).eval ∧
      (stageAt values step).current = values.map (polynomial values step).eval := by
  induction step with
  | zero => simp [stageAt, start, ones]
  | succ step ih =>
    obtain ⟨previous, current⟩ := ih
    rw [stageAt_succ]
    refine ⟨current, ?_⟩
    simp only [next, nextValues, previous, current, List.zip_map', polynomial_succ, eval_sub,
      eval_mul, eval_C, ratio]
    rw [centered_eq, List.zipWith_map, List.zipWith_self]

/-- The squared length of a polynomial, over the values. -/
noncomputable def squaredLength (degree : ℕ) : K :=
  sumOver values (polynomial values degree * polynomial values degree)

theorem currentNorm_stageAt (step : ℕ) :
    (stageAt values step).currentNorm = squaredLength values step := by
  cases step with
  | zero => simp [stageAt, start, squaredLength, count, total_eq_sum, ones, sumOver_apply]
  | succ step =>
    have current := (stageAt_vectors values (step + 1)).2
    rw [stageAt_succ] at current ⊢
    rw [squaredLength, ← dot_map_eval, ← current]
    exact squares_eq_dot _

theorem previousNorm_stageAt_succ (step : ℕ) :
    (stageAt values (step + 1)).previousNorm = squaredLength values step := by
  rw [stageAt_succ, ← currentNorm_stageAt]
  rfl

theorem monic_and_degree (degree : ℕ) :
    (polynomial values degree).Monic ∧ (polynomial values degree).degree = degree ∧
      (before values degree).degree < degree := by
  induction degree with
  | zero => simp
  | succ degree ih =>
    obtain ⟨monic, exact, lower⟩ := ih
    let stage := stageAt values degree
    let line := center values - C (shift (centered values) stage)
    have isLine : line = X - C (total values / count values + shift (centered values) stage) := by
      simp only [line, center, C_add]
      ring
    have lineMonic : line.Monic := isLine ▸ monic_X_sub_C _
    have product : (line * polynomial values degree).degree = (degree + 1 : ℕ) := by
      rw [monic.degree_mul, isLine, degree_X_sub_C, exact, Nat.cast_add, Nat.cast_one, add_comm]
    have rest : (C (ratio stage) * before values degree).degree < (degree + 1 : ℕ) := by
      rw [← smul_eq_C_mul]
      refine (degree_smul_le _ _).trans_lt (lower.trans ?_)
      exact_mod_cast Nat.lt_succ_self degree
    -- The polynomial before the last one is too low in degree to reach the leading coefficient.
    rw [← product] at rest
    refine ⟨(lineMonic.mul monic).sub_of_left rest, ?_, ?_⟩
    · rw [polynomial_succ, degree_sub_eq_left_of_degree_lt rest, product]
    · rw [before_succ, exact]
      exact_mod_cast Nat.lt_succ_self degree

theorem natDegree_polynomial (degree : ℕ) : (polynomial values degree).natDegree = degree :=
  natDegree_eq_of_degree_eq_some (monic_and_degree values degree).2.1

theorem shift_mul_squaredLength {degree : ℕ} (nonzero : squaredLength values degree ≠ 0) :
    shift (centered values) (stageAt values degree) * squaredLength values degree =
      sumOver values (center values * polynomial values degree * polynomial values degree) := by
  have current := (stageAt_vectors values degree).2
  rw [shift, currentNorm_stageAt, div_mul_cancel₀ _ nonzero, current, centered_eq,
    List.zipWith_map, List.zipWith_self, total_eq_sum, sumOver_apply]
  simp only [eval_mul]

theorem ratio_succ_mul_squaredLength {degree : ℕ} (nonzero : squaredLength values degree ≠ 0) :
    ratio (stageAt values (degree + 1)) * squaredLength values degree =
      squaredLength values (degree + 1) := by
  rw [ratio, currentNorm_stageAt, previousNorm_stageAt_succ, div_mul_cancel₀ _ nonzero]

theorem center_mul_polynomial (degree : ℕ) : center values * polynomial values degree =
    polynomial values (degree + 1) +
      shift (centered values) (stageAt values degree) • polynomial values degree +
      ratio (stageAt values degree) • before values degree := by
  rw [polynomial_succ, smul_eq_C_mul, smul_eq_C_mul]
  ring

/-- The polynomials up to a degree are orthogonal to each other. -/
def OrthogonalUpTo (degree : ℕ) : Prop :=
  ∀ i j, i < j → j ≤ degree → sumOver values (polynomial values i * polynomial values j) = 0

variable {values}

theorem OrthogonalUpTo.before_mul {degree i : ℕ} (h : OrthogonalUpTo values degree)
    (le : i ≤ degree) : sumOver values (before values i * polynomial values degree) = 0 := by
  cases i with
  | zero => simp
  | succ i => exact h i degree le (Nat.le_refl degree)

theorem OrthogonalUpTo.succ_self {degree : ℕ} (h : OrthogonalUpTo values degree)
    (nonzero : squaredLength values degree ≠ 0) :
    sumOver values (polynomial values degree * polynomial values (degree + 1)) = 0 := by
  have preceding := h.before_mul (Nat.le_refl degree)
  have moment := shift_mul_squaredLength values nonzero
  have expanded : polynomial values degree * polynomial values (degree + 1) =
      center values * polynomial values degree * polynomial values degree -
        shift (centered values) (stageAt values degree) •
          (polynomial values degree * polynomial values degree) -
        ratio (stageAt values degree) •
          (before values degree * polynomial values degree) := by
    rw [polynomial_succ, smul_eq_C_mul, smul_eq_C_mul]
    ring
  rw [expanded, map_sub, map_sub, map_smul, map_smul, preceding, ← moment,
    squaredLength]
  simp

theorem OrthogonalUpTo.succ_of_lt {degree i : ℕ} (h : OrthogonalUpTo values degree)
    (lt : i < degree) (nonzero : squaredLength values i ≠ 0) :
    sumOver values (polynomial values i * polynomial values (degree + 1)) = 0 := by
  -- The centred variable moves over to the earlier polynomial, of which it makes a combination of
  -- three neighbours. Only the one above can meet the polynomial of the last degree.
  have expanded : polynomial values i * polynomial values (degree + 1) =
      polynomial values (i + 1) * polynomial values degree +
        (shift (centered values) (stageAt values i) -
          shift (centered values) (stageAt values degree)) •
          (polynomial values i * polynomial values degree) +
        ratio (stageAt values i) • (before values i * polynomial values degree) -
        ratio (stageAt values degree) • (polynomial values i * before values degree) := by
    have earlier := center_mul_polynomial values i
    rw [polynomial_succ values degree]
    simp only [smul_eq_C_mul, C_sub] at earlier ⊢
    linear_combination polynomial values degree * earlier
  rw [expanded, map_sub, map_add, map_add, map_smul, map_smul, map_smul, h.before_mul lt.le,
    h i degree lt (Nat.le_refl degree)]
  obtain ⟨last, rfl⟩ : ∃ last, degree = last + 1 := ⟨degree - 1, by omega⟩
  rw [before_succ]
  rcases Nat.lt_succ_iff_lt_or_eq.mp lt with below | rfl
  · rw [h (i + 1) (last + 1) (by omega) (by omega), h i last below (by omega)]
    simp
  · have length := ratio_succ_mul_squaredLength values nonzero
    rw [← squaredLength, ← squaredLength]
    simp [length]

theorem OrthogonalUpTo.succ {degree : ℕ} (h : OrthogonalUpTo values degree)
    (nonzero : ∀ i ≤ degree, squaredLength values i ≠ 0) : OrthogonalUpTo values (degree + 1) := by
  intro i j lt le
  rcases Nat.lt_or_eq_of_le le with lower | rfl
  · exact h i j lt (Nat.lt_succ_iff.mp lower)
  · rcases Nat.lt_succ_iff_lt_or_eq.mp lt with below | rfl
    · exact h.succ_of_lt below (nonzero i below.le)
    · exact h.succ_self (nonzero i (Nat.le_refl i))

/-- The polynomials are orthogonal as long as none before the last one vanishes on the values. -/
theorem orthogonalUpTo {degree : ℕ} (nonzero : ∀ i < degree, squaredLength values i ≠ 0) :
    OrthogonalUpTo values degree := by
  induction degree with
  | zero => exact fun i j lt le => by omega
  | succ degree ih =>
    have earlier := ih fun i lt => nonzero i (Nat.lt_succ_of_lt lt)
    exact earlier.succ fun i le => nonzero i (Nat.lt_succ_of_le le)

end Polynomials

/-! ## Vectors that do not vanish -/

section Ordered

variable [LinearOrder K] [IsStrictOrderedRing K]

theorem dot_self_eq_zero {v : List K} (h : dot v v = 0) {x : K} (member : x ∈ v) : x = 0 := by
  rw [dot, List.zipWith_self] at h
  have nonnegative : ∀ y ∈ v.map fun x => x * x, 0 ≤ y :=
    List.forall_mem_map.mpr fun x _ => mul_self_nonneg x
  have square := List.all_zero_of_le_zero_le_of_sum_eq_zero nonnegative h
    (List.mem_map_of_mem member)
  exact mul_self_eq_zero.mp square

theorem squaredLength_ne_zero [DecidableEq K] {values : List K} {degree : ℕ}
    (enough : degree < values.dedup.length) : squaredLength values degree ≠ 0 := by
  intro zero
  rw [squaredLength, ← dot_map_eval] at zero
  have roots : ∀ x ∈ values.toFinset, (polynomial values degree).eval x = 0 := fun x member =>
    dot_self_eq_zero zero (List.mem_map_of_mem (List.mem_toFinset.mp member))
  -- A monic polynomial has no more roots than its degree.
  rw [← List.card_toFinset, ← natDegree_polynomial values degree] at enough
  have vanishes := eq_zero_of_natDegree_lt_card_of_eval_eq_zero' _ _ roots enough
  exact (monic_and_degree values degree).1.ne_zero vanishes

end Ordered

/-! ## What the recurrence yields -/

theorem stages_eq (values : List K) (degree : ℕ) :
    stages (centered values) degree (start values) =
      (List.range degree).map fun step => stageAt values (step + 1) := by
  refine List.ext_getElem? fun i => ?_
  rw [getElem?_stages, List.getElem?_map]
  by_cases below : i < degree <;> simp [below, stageAt]

theorem polynomials_eq (values : List K) (degree : ℕ) :
    polynomials values degree = (List.range degree).map fun step =>
      (values.map (polynomial values (step + 1)).eval, squaredLength values (step + 1)) := by
  simp only [polynomials, stages_eq, List.map_map, Function.comp_def, stageAt_vectors,
    currentNorm_stageAt]

theorem exists_ne_zero_of_dot {v : List K} (nonzero : dot v v ≠ 0) : ∃ x ∈ v, x ≠ 0 := by
  by_contra vanishes
  push Not at vanishes
  refine nonzero (List.sum_eq_zero ?_)
  rw [List.zipWith_self, List.forall_mem_map]
  exact fun x member => by rw [vanishes x member, mul_zero]

/-- A vector over the square root of its squared length. -/
noncomputable def unit (vector : List ℚ × ℚ) : List ℝ :=
  vector.1.map fun x : ℚ => (x : ℝ) / √(vector.2 : ℝ)

theorem dot_unit {vector : List ℚ × ℚ} (length : vector.2 = dot vector.1 vector.1)
    (nonzero : vector.2 ≠ 0) : dot (unit vector) (unit vector) = 1 := by
  obtain ⟨entries, squared⟩ := vector
  simp only [dot, List.zipWith_self] at length nonzero
  have nonnegative : 0 ≤ squared := by
    rw [length]
    exact List.sum_nonneg (List.forall_mem_map.mpr fun x _ => mul_self_nonneg x)
  have entry (x : ℚ) : (x : ℝ) / √(squared : ℝ) * ((x : ℝ) / √(squared : ℝ)) =
      ((x * x : ℚ) : ℝ) * (squared : ℝ)⁻¹ := by
    rw [div_mul_div_comm, Real.mul_self_sqrt (by exact_mod_cast nonnegative), Rat.cast_mul,
      div_eq_mul_inv]
  have total : (entries.map fun x => ((x * x : ℚ) : ℝ)).sum = (squared : ℝ) := by
    rw [length, Rat.cast_list_sum, List.map_map]
    rfl
  simp only [dot, unit, List.zipWith_self, List.map_map, Function.comp_def, entry]
  rw [List.sum_map_mul_right, total, mul_inv_cancel₀ (by exact_mod_cast nonzero)]

/-- Vectors with their squared lengths, of the degrees from one up to the given one. -/
structure IsOrthogonalBasis (values : List ℚ) (degree : ℕ) (vectors : List (List ℚ × ℚ)) :
    Prop where
  length : vectors.length = degree
  monic : ∀ i vector, vectors[i]? = some vector →
    ∃ p : ℚ[X], p.Monic ∧ p.natDegree = i + 1 ∧ vector.1 = values.map p.eval
  squared : ∀ vector ∈ vectors, vector.2 = dot vector.1 vector.1
  nonzero : ∀ vector ∈ vectors, ∃ x ∈ vector.1, x ≠ 0
  centred : ∀ vector ∈ vectors, dot (ones values) vector.1 = 0
  orthogonal : vectors.Pairwise fun u v => dot u.1 v.1 = 0
  unit : ∀ vector ∈ vectors, dot (unit vector) (unit vector) = 1

/-- Nothing that a step divides by is zero. -/
def DividesByNonzero (values : List ℚ) (degree : ℕ) : Prop :=
  count values ≠ 0 ∧ ∀ stage ∈ start values :: stages (centered values) degree (start values),
    stage.previousNorm ≠ 0 ∧ stage.currentNorm ≠ 0

theorem isOrthogonalBasis_polynomials {values : List ℚ} {degree : ℕ}
    (nonzero : ∀ i ≤ degree, squaredLength values i ≠ 0) :
    IsOrthogonalBasis values degree (polynomials values degree) := by
  have orthogonal := orthogonalUpTo fun i lt => nonzero i (Nat.le_of_lt lt)
  have squared : ∀ vector ∈ polynomials values degree,
      vector.2 = dot vector.1 vector.1 ∧ dot vector.1 vector.1 ≠ 0 := by
    rw [polynomials_eq, List.forall_mem_map]
    intro step member
    rw [dot_map_eval]
    exact ⟨rfl, nonzero (step + 1) (List.mem_range.mp member)⟩
  refine ⟨?_, fun i vector found => ?_, fun vector member => (squared vector member).1,
    fun vector member => exists_ne_zero_of_dot (squared vector member).2, ?_, ?_,
    fun vector member => ?_⟩
  · rw [polynomials_eq, List.length_map, List.length_range]
  · rw [polynomials_eq, List.getElem?_map, Option.map_eq_some_iff] at found
    obtain ⟨step, ranged, rfl⟩ := found
    obtain rfl : i = step := by grind
    exact ⟨polynomial values (i + 1), (monic_and_degree values (i + 1)).1,
      natDegree_polynomial values (i + 1), rfl⟩
  · have constant : ones values = values.map (polynomial values 0).eval := by simp [ones]
    rw [polynomials_eq, List.forall_mem_map, constant]
    intro step member
    rw [dot_map_eval]
    exact orthogonal 0 (step + 1) (Nat.succ_pos step) (List.mem_range.mp member)
  · rw [polynomials_eq, List.pairwise_map]
    refine List.pairwise_lt_range.imp_of_mem fun _ below lt => ?_
    rw [dot_map_eval]
    exact orthogonal _ _ (Nat.succ_lt_succ lt) (List.mem_range.mp below)
  · obtain ⟨length, positive⟩ := squared vector member
    exact dot_unit length (length ▸ positive)

theorem dividesByNonzero {values : List ℚ} {degree : ℕ}
    (nonzero : ∀ i ≤ degree, squaredLength values i ≠ 0) : DividesByNonzero values degree := by
  have first : (start values).currentNorm = squaredLength values 0 := currentNorm_stageAt values 0
  have positive : (start values).currentNorm ≠ 0 := first ▸ nonzero 0 (Nat.zero_le degree)
  refine ⟨positive, List.forall_mem_cons.mpr ⟨⟨one_ne_zero, positive⟩, ?_⟩⟩
  rw [stages_eq, List.forall_mem_map]
  intro step member
  have le : step + 1 ≤ degree := List.mem_range.mp member
  rw [previousNorm_stageAt_succ, currentNorm_stageAt]
  exact ⟨nonzero step (by omega), nonzero (step + 1) le⟩

/-- Below the number of distinct values the recurrence divides by nothing that is zero. It yields a
monic polynomial of each degree from one up, orthogonal to the constants and to all others. -/
theorem isOrthogonalBasis_and_dividesByNonzero (values : List ℚ) (degree : ℕ)
    (enough : degree < values.dedup.length) :
    IsOrthogonalBasis values degree (polynomials values degree) ∧
      DividesByNonzero values degree := by
  have nonzero : ∀ i ≤ degree, squaredLength values i ≠ 0 := fun i le =>
    squaredLength_ne_zero (Nat.lt_of_le_of_lt le enough)
  exact ⟨isOrthogonalBasis_polynomials nonzero, dividesByNonzero nonzero⟩

theorem isOrthogonalBasis_repeated :
    2 < ([0, 2, 2, 4] : List ℚ).dedup.length ∧
      polynomials ([0, 2, 2, 4] : List ℚ) 2 = [([-2, 0, 0, 2], 8), ([2, -2, -2, 2], 16)] ∧
      IsOrthogonalBasis [0, 2, 2, 4] 2 [([-2, 0, 0, 2], 8), ([2, -2, -2, 2], 16)] ∧
      DividesByNonzero [0, 2, 2, 4] 2 := by
  have enough : 2 < ([0, 2, 2, 4] : List ℚ).dedup.length := by decide
  have vectors : polynomials ([0, 2, 2, 4] : List ℚ) 2 =
      [([-2, 0, 0, 2], 8), ([2, -2, -2, 2], 16)] := by
    norm_num [polynomials, stages, next, nextValues, shift, start, centered, count, ones, total,
      squares]
  have whole := isOrthogonalBasis_and_dividesByNonzero [0, 2, 2, 4] 2 enough
  rw [vectors] at whole
  exact ⟨enough, vectors, whole⟩

end DesignMatrix.Recurrence
