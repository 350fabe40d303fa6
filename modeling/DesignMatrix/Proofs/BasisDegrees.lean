import DesignMatrix.Proofs.BasisColumns
import DesignMatrix.Frame.Evaluation

/-!
# Bases of several degrees

The basis of a smaller degree is the front of the basis of a larger one, to the last bit. So where a
column has a basis of some degree, it has the columns of those of all smaller degrees as well.
-/

namespace DesignMatrix

open Outcomes

namespace Recurrence

variable {α : Type} [Add α] [Sub α] [Mul α] [Div α] [OfNat α 0]

@[simp] theorem length_stages (c : List α) (steps : ℕ) (stage : Stage α) :
    (stages c steps stage).length = steps := by
  induction steps generalizing stage with
  | zero => rfl
  | succ steps ih => simp [stages, ih]

theorem take_stages (c : List α) {steps larger : ℕ} (le : steps ≤ larger) (stage : Stage α) :
    (stages c larger stage).take steps = stages c steps stage := by
  apply List.ext_getElem?
  intro i
  rw [List.getElem?_take, getElem?_stages, getElem?_stages]
  by_cases below : i < steps
  · rw [if_pos below, if_pos below, if_pos (by omega)]
  · rw [if_neg below, if_neg below]

/-- Both vectors of the stage have an entry for every value. -/
structure Stage.Covers (stage : Stage α) (c : List α) : Prop where
  previous : stage.previous.length = c.length
  current : stage.current.length = c.length

theorem Stage.Covers.next {c : List α} {stage : Stage α} (covers : stage.Covers c) :
    (Recurrence.next c stage).Covers c where
  previous := covers.current
  current := by simp [Recurrence.next, nextValues, covers.previous, covers.current]

theorem covers_of_mem_stages {c : List α} {steps : ℕ} {stage later : Stage α}
    (covers : stage.Covers c) (member : later ∈ stages c steps stage) : later.Covers c := by
  induction steps generalizing stage with
  | zero => cases member
  | succ steps ih =>
    rcases List.mem_cons.mp member with rfl | behind
    · exact covers.next
    · exact ih covers.next behind

omit [Mul α] in
theorem covers_start [OfNat α 1] (values : List α) : (start values).Covers (centered values) where
  previous := by simp [start, centered]
  current := by simp [start, ones, centered]

end Recurrence

namespace Basis

theorem length_of_columns {values : List Float} {degree : ℕ} {basis : List (List Float)}
    (h : columns values degree = .ok basis) : basis.length = degree := by
  unfold columns at h
  split at h
  · cases h
    simp
  · split at h
    · cases h
    · cases h
      simp [Recurrence.polynomials]

theorem length_of_mem_columns {values column : List Float} {degree : ℕ}
    {basis : List (List Float)} (h : columns values degree = .ok basis) (member : column ∈ basis) :
    column.length = values.length := by
  unfold columns at h
  split at h
  · rename_i empty
    cases h
    rw [List.eq_of_mem_replicate member, List.isEmpty_iff.mp empty]
  · split at h
    · cases h
    · cases h
      obtain ⟨polynomial, listed, rfl⟩ := List.mem_map.mp member
      obtain ⟨stage, reached, rfl⟩ := List.mem_map.mp listed
      have covers := Recurrence.covers_of_mem_stages (Recurrence.covers_start values) reached
      simpa [normalized, Recurrence.centered] using covers.current

/-- Where there is a basis of some degree, its front is the basis of each smaller degree. -/
theorem columns_of_le {values : List Float} {degree larger : ℕ} {basis : List (List Float)}
    (le : degree ≤ larger) (h : columns values larger = .ok basis) :
    columns values degree = .ok (basis.take degree) := by
  unfold columns at h ⊢
  split at h
  · rename_i empty
    cases h
    simp [empty, le]
  · rename_i nonempty
    split at h
    · cases h
    · rename_i enough
      have below : ¬ distinctCount values ≤ degree := by omega
      cases h
      rw [if_neg nonempty, if_neg below, ← List.map_take, Recurrence.polynomials,
        Recurrence.polynomials, ← List.map_take, Recurrence.take_stages _ le]

theorem exists_column_of_le {values column : List Float} {degree larger order order' : ℕ}
    (le : degree ≤ larger) (h : Basis.column values larger order' = .ok column) :
    ∃ column', Basis.column values degree order = .ok column' := by
  obtain ⟨basis, hasBasis, -⟩ := map_eq_ok.mp h
  exact ⟨_, map_eq_ok.mpr ⟨_, columns_of_le le hasBasis, rfl⟩⟩

end Basis

theorem exists_basisColumn_of_le {height degree larger order order' : ℕ}
    {series column : Series height} (le : degree ≤ larger)
    (h : basisColumn series larger order' = .ok column) :
    ∃ column', basisColumn series degree order = .ok column' := by
  unfold basisColumn at h ⊢
  split at h
  · cases h
  · rename_i values present
    obtain ⟨cells, read, -⟩ := bind_eq_ok.mp h
    obtain ⟨cells', read'⟩ : ∃ cells', Basis.column values degree order = .ok cells' :=
      Basis.exists_column_of_le le read
    exact ⟨_, bind_eq_ok.mpr ⟨cells', read', rfl⟩⟩

/-- Where a column has a basis of some degree, it has the columns of those of smaller degrees. -/
theorem Expr.exists_valueOn_basis_of_le {frame : Frame} {source : String}
    {degree larger order order' : ℕ} {value : Value frame.height} (le : degree ≤ larger)
    (h : (Expr.basis source larger order').valueOn frame = .ok value) :
    ∃ value', (Expr.basis source degree order).valueOn frame = .ok value' := by
  simp only [valueOn, bind_eq_ok, mapError_eq_ok] at h ⊢
  obtain ⟨series, read, column, found, -⟩ := h
  obtain ⟨column', found'⟩ : ∃ column', basisColumn series degree order = .ok column' :=
    exists_basisColumn_of_le le found
  exact ⟨_, series, read, column', found', rfl⟩

end DesignMatrix
