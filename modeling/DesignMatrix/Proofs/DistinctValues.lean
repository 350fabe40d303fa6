import DesignMatrix.Polynomial.Basis
import DesignMatrix.Proofs.EqualDoubles

/-!
# Distinct values

The values of a column are counted by sorting them and counting the runs of equal neighbours. Equal
doubles stand side by side once they are sorted, so every number has one run, and a column of
numbers has a basis of some degree exactly if it has more distinct numbers than that, or no rows.
-/

namespace DesignMatrix.Basis

open Double

theorem sorted_mergeSort (values : List Float) :
    (values.mergeSort fun x y => rank x ≤ rank y).Pairwise fun x y => rank x ≤ rank y := by
  have transitive : ∀ x y z : Float, decide (rank x ≤ rank y) = true →
      decide (rank y ≤ rank z) = true → decide (rank x ≤ rank z) = true := by
    intro x y z lower upper
    simp only [decide_eq_true_eq] at *
    exact lower.trans upper
  have total : ∀ x y : Float, (decide (rank x ≤ rank y) || decide (rank y ≤ rank x)) = true := by
    intro x y
    simpa using le_total (rank x) (rank y)
  have sorted := List.pairwise_mergeSort transitive total values
  exact sorted.imp of_decide_eq_true

variable {values : List Float}

/-- Among sorted numbers each distinct one has one run. -/
theorem runs_eq_card (numbers : ∀ x ∈ values, x.isNaN = false)
    (sorted : values.Pairwise fun x y => rank x ≤ rank y) :
    runs values = (values.map value?).toFinset.card := by
  induction values with
  | nil => rfl
  | cons x values ih =>
    obtain ⟨number, numbers⟩ := List.forall_mem_cons.mp numbers
    obtain ⟨least, sorted⟩ := List.pairwise_cons.mp sorted
    replace ih := ih numbers sorted
    cases values with
    | nil => rfl
    | cons y rest =>
      have next := beq_iff_value?_eq number (numbers y List.mem_cons_self)
      rw [runs, List.map_cons, List.toFinset_cons, ih]
      by_cases same : (x == y) = true
      · have listed : value? x ∈ ((y :: rest).map value?).toFinset := by
          rw [next.mp same]
          simp
        rw [if_pos same, Finset.insert_eq_of_mem listed]
      · -- A later value equal to the first would make the second equal to it, which is in between.
        have new : value? x ∉ ((y :: rest).map value?).toFinset := by
          rw [List.mem_toFinset]
          intro listed
          obtain ⟨z, member, equal⟩ := List.mem_map.mp listed
          have between : rank y ≤ rank z := by
            rcases List.mem_cons.mp member with rfl | behind
            · exact le_rfl
            · exact (List.pairwise_cons.mp sorted).1 z behind
          exact same (beq_of_rank_between (least y List.mem_cons_self) between
            ((beq_iff_value?_eq number (numbers z member)).mpr equal.symm))
        rw [if_neg same, Finset.card_insert_of_notMem new]

theorem distinctCount_eq_card (numbers : ∀ x ∈ values, x.isNaN = false) :
    distinctCount values = (values.map value?).toFinset.card := by
  have perm := List.mergeSort_perm values fun x y => rank x ≤ rank y
  rw [distinctCount, runs_eq_card (fun x member => numbers x (perm.mem_iff.mp member))
    (sorted_mergeSort values), List.toFinset_eq_of_perm _ _ (perm.map value?)]

/-- Numbers count as one value if they are equal, as the two zeros are. They have no basis of some
degree exactly if there are some and not more distinct ones than the degree; without any rows the
basis has empty columns. -/
theorem columns_eq_error_iff_card_le (numbers : ∀ x ∈ values, x.isNaN = false) (degree : ℕ) :
    (∀ x ∈ values, ∀ y ∈ values, (x == y) = true ↔ value? x = value? y) ∧
      distinctCount values = (values.map value?).toFinset.card ∧
      ((∃ fault, columns values degree = .error fault) ↔
        values ≠ [] ∧ (values.map value?).toFinset.card ≤ degree) ∧
      (values = [] → columns values degree = .ok (List.replicate degree [])) := by
  have count := distinctCount_eq_card numbers
  refine ⟨fun x inX y inY => beq_iff_value?_eq (numbers x inX) (numbers y inY), count, ?_, ?_⟩
  · rw [← count, ← List.isEmpty_eq_false_iff]
    unfold columns
    cases values.isEmpty
    · by_cases few : distinctCount values ≤ degree <;> simp [few]
    · simp
  · rintro rfl
    rfl

/-- Four distinct numbers, with both zeros, both infinities and one of them twice. -/
def repeatedValues : List Float := [0, 1 / 0, 2, -0, 2, -(1 / 0)]

theorem columns_eq_error_repeatedValues :
    (∀ x ∈ repeatedValues, x.isNaN = false) ∧ distinctCount repeatedValues = 4 ∧
      (∃ fault, columns repeatedValues 4 = .error fault) ∧
      ¬ ∃ fault, columns repeatedValues 3 = .error fault := by
  have numbers : ∀ x ∈ repeatedValues, x.isNaN = false := by decide +kernel
  have four : (repeatedValues.map value?).toFinset.card = 4 := by decide +kernel
  obtain ⟨-, count, fails, -⟩ := columns_eq_error_iff_card_le numbers 4
  obtain ⟨-, -, fails', -⟩ := columns_eq_error_iff_card_le numbers 3
  refine ⟨numbers, count.trans four, fails.mpr ⟨List.cons_ne_nil _ _, four.le⟩, fun error => ?_⟩
  have few := (fails'.mp error).2
  omega

end DesignMatrix.Basis
