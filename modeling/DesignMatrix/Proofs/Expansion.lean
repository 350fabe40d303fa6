import Mathlib.Data.Finset.NAry
import Mathlib.Data.Finset.Powerset
import Mathlib.Data.Finset.Union
import DesignMatrix.Formula.Expansion
import DesignMatrix.Proofs.TermNames

/-!
# Lists of terms as sets of sets of names

The lists of terms that an expansion works with hold each term once. Such a list represents the set
of the name sets of its terms, and every operation on lists has a counterpart on the sets: the
union, the difference, all unions of two members, and all unions of a bounded number of members.
-/

namespace DesignMatrix.Expansion

/-- The list holds a term for each set of names, and only one. -/
structure Represents (terms : List Term) (sets : Finset (Finset String)) : Prop where
  proper : ∀ term ∈ terms, term.Proper
  distinct : (terms.map Term.nameSet).Nodup
  exact : (terms.map Term.nameSet).toFinset = sets

variable {terms left right base : List Term}
  {sets leftSets rightSets baseSets : Finset (Finset String)}

namespace Represents

theorem nil : Represents [] ∅ := ⟨by simp, by simp, rfl⟩

theorem mem_iff (h : Represents terms sets) {names : Finset String} :
    names ∈ sets ↔ ∃ term ∈ terms, term.nameSet = names := by
  rw [← h.exact]
  simp

theorem card_eq (h : Represents terms sets) : sets.card = terms.length := by
  rw [← h.exact, List.toFinset_card_of_nodup h.distinct, List.length_map]

theorem contains_iff (h : Represents terms sets) {term : Term} (proper : term.Proper) :
    contains terms term = true ↔ term.nameSet ∈ sets := by
  rw [h.mem_iff]
  simp only [contains, List.any_eq_true]
  refine exists_congr fun other => and_congr_right fun member => ?_
  exact Term.sameAs_iff (h.proper other member) proper

theorem single {term : Term} (proper : term.Proper) : Represents [term] {term.nameSet} := by
  refine ⟨fun other member => ?_, by simp, by simp⟩
  rw [List.mem_singleton] at member
  exact member ▸ proper

theorem insertTerm (h : Represents terms sets) {term : Term} (proper : term.Proper) :
    Represents (insertTerm terms term) (insert term.nameSet sets) := by
  unfold Expansion.insertTerm
  rw [if_congr (h.contains_iff proper) rfl rfl]
  split
  · rename_i present
    rwa [Finset.insert_eq_of_mem present]
  · rename_i absent
    have notListed : ∀ other ∈ terms, other.nameSet ≠ term.nameSet := fun other member same =>
      absent (h.mem_iff.mpr ⟨other, member, same⟩)
    refine ⟨fun other member => ?_, ?_, ?_⟩
    · rcases List.mem_append.mp member with old | new
      · exact h.proper other old
      · rw [List.mem_singleton] at new
        exact new ▸ proper
    · rw [List.map_append, List.nodup_append]
      refine ⟨h.distinct, by simp, ?_⟩
      rintro _ listed _ (_ | ⟨_, ⟨⟩⟩)
      obtain ⟨other, member, rfl⟩ := List.mem_map.mp listed
      exact notListed other member
    · rw [List.map_append, List.toFinset_append, h.exact]
      ext names
      simp [or_comm]

/-- The union holds the terms of both lists, whatever the second one repeats. -/
theorem union (h : Represents terms sets) {more : List Term} (proper : ∀ term ∈ more, term.Proper) :
    Represents (union terms more) (sets ∪ (more.map Term.nameSet).toFinset) := by
  induction more generalizing terms sets with
  | nil => simpa [Expansion.union] using h
  | cons term more ih =>
    have rest := ih (h.insertTerm (proper term List.mem_cons_self))
      fun other member => proper other (List.mem_cons_of_mem _ member)
    rw [List.map_cons, List.toFinset_cons, Finset.union_insert, ← Finset.insert_union]
    exact rest

theorem union_represents (hl : Represents left leftSets) (hr : Represents right rightSets) :
    Represents (Expansion.union left right) (leftSets ∪ rightSets) := by
  have both := hl.union hr.proper
  rwa [hr.exact] at both

/-- The products of the terms have the unions of their names. -/
theorem products (hl : Represents left leftSets) (hr : Represents right rightSets) :
    Represents (products left right) (Finset.image₂ (· ∪ ·) leftSets rightSets) := by
  have proper : ∀ term ∈ left.flatMap (fun l => right.map fun r => l.interact r), term.Proper := by
    intro term member
    obtain ⟨l, inLeft, fromRight⟩ := List.mem_flatMap.mp member
    obtain ⟨r, -, rfl⟩ := List.mem_map.mp fromRight
    exact (hl.proper l inLeft).interact r
  have all := nil.union proper
  have same : ∅ ∪ ((left.flatMap fun l => right.map fun r => l.interact r).map
      Term.nameSet).toFinset = Finset.image₂ (· ∪ ·) leftSets rightSets := by
    ext names
    simp only [Finset.empty_union, List.mem_toFinset, List.mem_map, List.mem_flatMap,
      Finset.mem_image₂, hl.mem_iff, hr.mem_iff]
    constructor
    · rintro ⟨_, ⟨l, inLeft, r, inRight, rfl⟩, rfl⟩
      exact ⟨_, ⟨l, inLeft, rfl⟩, _, ⟨r, inRight, rfl⟩, (Term.nameSet_interact l r).symm⟩
    · rintro ⟨_, ⟨l, inLeft, rfl⟩, _, ⟨r, inRight, rfl⟩, rfl⟩
      exact ⟨_, ⟨l, inLeft, r, inRight, rfl⟩, Term.nameSet_interact l r⟩
  rwa [same] at all

theorem without (hl : Represents left leftSets) (hr : Represents right rightSets) :
    Represents (without left right) (leftSets \ rightSets) := by
  refine ⟨fun term member => hl.proper term (List.mem_filter.mp member).1,
    hl.distinct.sublist (List.filter_sublist.map _), ?_⟩
  ext names
  simp only [Expansion.without, List.mem_toFinset, List.mem_map, List.mem_filter, Bool.not_eq_true',
    Finset.mem_sdiff, hl.mem_iff]
  constructor
  · rintro ⟨term, ⟨member, absent⟩, rfl⟩
    refine ⟨⟨term, member, rfl⟩, fun present => ?_⟩
    rw [(hr.contains_iff (hl.proper term member)).mpr present] at absent
    cases absent
  · rintro ⟨⟨term, member, rfl⟩, absent⟩
    refine ⟨term, ⟨member, ?_⟩, rfl⟩
    rwa [← Bool.not_eq_true, hr.contains_iff (hl.proper term member)]

end Represents

end DesignMatrix.Expansion
