import Mathlib.Data.Finset.Card
import Mathlib.Data.Finset.Dedup
import DesignMatrix.Formula.Term

/-!
# Terms as sets of names

A term holds the name of each of its factors once as long as it is made by products of single
factors. Such terms are determined by the sets of their names: a product has the names of both
terms, and two terms are the same exactly if their sets are.
-/

namespace DesignMatrix.Term

/-- The names of the factors, as a set. -/
def nameSet (term : Term) : Finset String := term.names.toFinset

/-- No two factors have the same name. -/
def Proper (term : Term) : Prop := term.names.Nodup

theorem hasName_iff {factors : List Factor} {name : String} :
    hasName factors name = true ↔ name ∈ factors.map Factor.name := by
  simp [hasName]

theorem names_insertFactor (factors : List Factor) (factor : Factor) :
    (insertFactor factors factor).map Factor.name =
      if factor.name ∈ factors.map Factor.name then factors.map Factor.name
      else factors.map Factor.name ++ [factor.name] := by
  simp only [insertFactor, hasName_iff]
  split <;> simp

theorem mem_names_insertFactor {factors : List Factor} {factor : Factor} {name : String} :
    name ∈ (insertFactor factors factor).map Factor.name ↔
      name ∈ factors.map Factor.name ∨ name = factor.name := by
  rw [names_insertFactor]
  split
  · rename_i present
    exact ⟨.inl, fun h => h.elim id fun e => e ▸ present⟩
  · simp

theorem nodup_insertFactor {factors : List Factor} (factor : Factor)
    (distinct : (factors.map Factor.name).Nodup) :
    ((insertFactor factors factor).map Factor.name).Nodup := by
  rw [names_insertFactor]
  split
  · exact distinct
  · rename_i absent
    exact List.nodup_append.mpr ⟨distinct, by simp, by
      rintro name present _ (_ | ⟨_, ⟨⟩⟩) rfl
      exact absent present⟩

theorem mem_names_interact {left right : Term} {name : String} :
    name ∈ (left.interact right).names ↔ name ∈ left.names ∨ name ∈ right.names := by
  obtain ⟨left⟩ := left
  obtain ⟨right⟩ := right
  simp only [interact, names]
  induction right generalizing left with
  | nil => simp
  | cons factor right ih =>
    rw [List.foldl_cons, ih, mem_names_insertFactor, List.map_cons, List.mem_cons, or_assoc]

theorem Proper.interact {left : Term} (proper : left.Proper) (right : Term) :
    (left.interact right).Proper := by
  obtain ⟨left⟩ := left
  obtain ⟨right⟩ := right
  simp only [Proper, Term.interact, names] at proper ⊢
  induction right generalizing left with
  | nil => exact proper
  | cons factor right ih => exact ih _ (nodup_insertFactor factor proper)

@[simp] theorem proper_empty : empty.Proper := List.nodup_nil

@[simp] theorem proper_single (factor : Factor) : (single factor).Proper := by
  simp [Proper, single, names]

@[simp] theorem nameSet_empty : empty.nameSet = ∅ := rfl

@[simp] theorem nameSet_single (factor : Factor) : (single factor).nameSet = {factor.name} := rfl

@[simp] theorem nameSet_interact (left right : Term) :
    (left.interact right).nameSet = left.nameSet ∪ right.nameSet := by
  ext name
  simp [nameSet, mem_names_interact]

theorem Proper.card_nameSet {term : Term} (proper : term.Proper) :
    term.nameSet.card = term.factors.length := by
  rw [nameSet, List.toFinset_card_of_nodup proper, names, List.length_map]

/-- As many names and all of them among the others leave no room for another name. -/
theorem sameAs_iff {left right : Term} (properLeft : left.Proper) (properRight : right.Proper) :
    left.sameAs right = true ↔ left.nameSet = right.nameSet := by
  have included : (left.factors.all fun factor => hasName right.factors factor.name) = true ↔
      left.nameSet ⊆ right.nameSet := by
    simp only [List.all_eq_true, hasName_iff, Finset.subset_iff, nameSet, List.mem_toFinset, names,
      List.forall_mem_map]
  simp only [sameAs, Bool.and_eq_true, beq_iff_eq, included]
  constructor
  · rintro ⟨length, subset⟩
    apply Finset.eq_of_subset_of_card_le subset
    rw [properLeft.card_nameSet, properRight.card_nameSet, length]
  · intro same
    rw [← properLeft.card_nameSet, ← properRight.card_nameSet, same]
    exact ⟨rfl, Finset.Subset.refl _⟩

theorem sameAs_symm {left right : Term} (properLeft : left.Proper) (properRight : right.Proper)
    (same : left.sameAs right = true) : right.sameAs left = true :=
  (sameAs_iff properRight properLeft).mpr ((sameAs_iff properLeft properRight).mp same).symm

/-- Terms that count as the same have the same names, in some order. -/
theorem perm_names_of_sameAs {left right : Term} (properLeft : left.Proper)
    (properRight : right.Proper) (same : left.sameAs right = true) :
    left.names.Perm right.names :=
  List.perm_of_nodup_nodup_toFinset_eq properLeft properRight
    ((sameAs_iff properLeft properRight).mp same)

end DesignMatrix.Term
