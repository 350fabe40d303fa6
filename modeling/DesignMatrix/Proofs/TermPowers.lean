import DesignMatrix.Proofs.Expansion

/-!
# Powers of a list of terms

The power of order `n` of a list of terms stands for all unions of at least one and at most `n` of
its members. Each round of products adds the unions of one member more; a round that adds nothing
shows that there are no others.
-/

namespace DesignMatrix.Expansion

/-- The unions of at least one and at most `order` members. -/
def unionsUpTo (sets : Finset (Finset String)) (order : ℕ) : Finset (Finset String) :=
  (sets.powerset.filter fun chosen => 1 ≤ chosen.card ∧ chosen.card ≤ order).image
    fun chosen => chosen.biUnion id

section Unions

variable {sets : Finset (Finset String)} {names : Finset String} {order : ℕ}

theorem mem_unionsUpTo : names ∈ unionsUpTo sets order ↔
    ∃ chosen ⊆ sets, 1 ≤ chosen.card ∧ chosen.card ≤ order ∧ chosen.biUnion id = names := by
  simp only [unionsUpTo, Finset.mem_image, Finset.mem_filter, Finset.mem_powerset, and_assoc]

theorem unionsUpTo_one (sets : Finset (Finset String)) : unionsUpTo sets 1 = sets := by
  ext names
  rw [mem_unionsUpTo]
  constructor
  · rintro ⟨chosen, subset, atLeast, atMost, rfl⟩
    obtain ⟨member, rfl⟩ := Finset.card_eq_one.mp (Nat.le_antisymm atMost atLeast)
    simpa using subset
  · intro member
    exact ⟨{names}, by simpa using member, by simp, by simp, by simp⟩

theorem unionsUpTo_mono {more : ℕ} (h : order ≤ more) :
    unionsUpTo sets order ⊆ unionsUpTo sets more := by
  intro names member
  obtain ⟨chosen, subset, atLeast, atMost, same⟩ := mem_unionsUpTo.mp member
  exact mem_unionsUpTo.mpr ⟨chosen, subset, atLeast, atMost.trans h, same⟩

/-- No union needs more members than there are. -/
theorem unionsUpTo_min_card (sets : Finset (Finset String)) (order : ℕ) :
    unionsUpTo sets (min order sets.card) = unionsUpTo sets order := by
  apply Finset.Subset.antisymm (unionsUpTo_mono (Nat.min_le_left _ _))
  intro names member
  obtain ⟨chosen, subset, atLeast, atMost, same⟩ := mem_unionsUpTo.mp member
  exact mem_unionsUpTo.mpr
    ⟨chosen, subset, atLeast, Nat.le_min.mpr ⟨atMost, Finset.card_le_card subset⟩, same⟩

/-- One member more is either not needed or united with a union of the others. -/
theorem unionsUpTo_succ (positive : 1 ≤ order) :
    unionsUpTo sets (order + 1) =
      unionsUpTo sets order ∪ Finset.image₂ (· ∪ ·) (unionsUpTo sets order) sets := by
  ext names
  simp only [Finset.mem_union, Finset.mem_image₂]
  constructor
  · intro member
    obtain ⟨chosen, subset, atLeast, atMost, rfl⟩ := mem_unionsUpTo.mp member
    by_cases enough : chosen.card ≤ order
    · exact .inl (mem_unionsUpTo.mpr ⟨chosen, subset, atLeast, enough, rfl⟩)
    · obtain ⟨last, isChosen⟩ := Finset.card_pos.mp atLeast
      have others := Finset.card_erase_of_mem isChosen
      refine .inr ⟨(chosen.erase last).biUnion id,
        mem_unionsUpTo.mpr ⟨chosen.erase last, ?_, ?_, ?_, rfl⟩, last, subset isChosen, ?_⟩
      · exact (Finset.erase_subset _ _).trans subset
      · omega
      · omega
      · rw [Finset.union_comm, ← id_eq last, ← Finset.biUnion_insert,
          id_eq last, Finset.insert_erase isChosen]
  · rintro (member | ⟨_, member, last, isMember, rfl⟩)
    · exact unionsUpTo_mono (Nat.le_succ order) member
    · obtain ⟨chosen, subset, atLeast, atMost, rfl⟩ := mem_unionsUpTo.mp member
      refine mem_unionsUpTo.mpr ⟨insert last chosen, Finset.insert_subset isMember subset,
        atLeast.trans (Finset.card_le_card (Finset.subset_insert _ _)),
        (Finset.card_insert_le _ _).trans (Nat.succ_le_succ atMost), ?_⟩
      rw [Finset.biUnion_insert, id_eq, Finset.union_comm]

/-- Where one member more yields nothing new, no number of further members does. -/
theorem unionsUpTo_add_eq (positive : 1 ≤ order)
    (closed : unionsUpTo sets (order + 1) = unionsUpTo sets order) (more : ℕ) :
    unionsUpTo sets (order + more) = unionsUpTo sets order := by
  induction more with
  | zero => rfl
  | succ more ih =>
    rw [← Nat.add_assoc, unionsUpTo_succ (positive.trans (Nat.le_add_right _ _)), ih,
      ← unionsUpTo_succ positive, closed]

end Unions

variable {base terms : List Term} {baseSets sets : Finset (Finset String)} {order : ℕ}

/-- Every round adds the unions of one member more, and the rounds stop only when all are there. -/
theorem Represents.growBy (hb : Represents base baseSets) (positive : 1 ≤ order) (rounds : ℕ)
    (h : Represents terms (unionsUpTo baseSets order)) :
    Represents (growBy base rounds terms) (unionsUpTo baseSets (order + rounds)) := by
  induction rounds generalizing terms order with
  | zero => exact h
  | succ rounds ih =>
    have grown := h.union_represents (h.products hb)
    rw [← unionsUpTo_succ positive] at grown
    unfold Expansion.growBy
    simp only
    split
    · rename_i sameLength
      -- The round added nothing, so it has reached the unions that further rounds would add to.
      have sameCard := h.card_eq.trans (sameLength.symm.trans grown.card_eq.symm)
      have closed : unionsUpTo baseSets order = unionsUpTo baseSets (order + 1) :=
        Finset.eq_of_subset_of_card_le (unionsUpTo_mono (Nat.le_succ order)) sameCard.ge
      rw [unionsUpTo_add_eq positive closed.symm, closed]
      exact grown
    · have rest := ih (Nat.le_succ_of_le positive) grown
      rwa [Nat.succ_add_eq_add_succ] at rest

/-- A power stands for all unions of at most as many members as its order. -/
theorem Represents.powerOf (h : Represents base baseSets) (positive : 1 ≤ order) :
    Represents (powerOf base order) (unionsUpTo baseSets order) := by
  by_cases empty : base = []
  · subst empty
    have none : baseSets = ∅ := by rw [← h.exact]; rfl
    subst none
    have noUnion : unionsUpTo ∅ order = ∅ := by
      rw [← unionsUpTo_min_card]
      simp [unionsUpTo]
    rw [noUnion]
    simpa [Expansion.powerOf, Expansion.growBy] using h
  · have nonempty : 1 ≤ base.length := List.length_pos_iff.mpr empty
    have first : Represents base (unionsUpTo baseSets 1) := by rwa [unionsUpTo_one]
    have grown := h.growBy (Nat.le_refl 1) (min order base.length - 1) first
    have rounds : 1 + (min order base.length - 1) = min order base.length := by omega
    rw [rounds, ← h.card_eq, unionsUpTo_min_card, h.card_eq] at grown
    exact grown

end DesignMatrix.Expansion
