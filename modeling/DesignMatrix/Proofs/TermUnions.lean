import DesignMatrix.Proofs.TermMeaning

/-!
# Unions of lists of terms

A union keeps the terms of its first list in their order and appends those of the second that are
new. So a union of unions is the list of all terms without repeats, in whichever way the lists were
grouped.
-/

namespace DesignMatrix

namespace Expansion

/-- The terms but for those that are the same as an earlier one. -/
def withoutRepeats : List Term → List Term
  | [] => []
  | term :: later => term :: (withoutRepeats later).filter fun other => !term.sameAs other

variable {left right terms : List Term} {sets leftSets rightSets : Finset (Finset String)}

theorem contains_append (left right : List Term) (term : Term) :
    contains (left ++ right) term = (contains left term || contains right term) :=
  List.any_append

theorem contains_singleton (other term : Term) : contains [other] term = other.sameAs term := by
  simp [contains]

theorem contains_iff_mem (proper : ∀ other ∈ terms, other.Proper) {term : Term}
    (h : term.Proper) : contains terms term = true ↔ term.nameSet ∈ terms.map Term.nameSet := by
  simp only [contains, List.any_eq_true, List.mem_map]
  refine exists_congr fun other => and_congr_right fun member => ?_
  exact Term.sameAs_iff (proper other member) h

theorem mem_of_mem_withoutRepeats {term : Term} (member : term ∈ withoutRepeats terms) :
    term ∈ terms := by
  induction terms with
  | nil => exact member
  | cons first later ih =>
    rcases List.mem_cons.mp member with rfl | kept
    · exact List.mem_cons_self
    · exact List.mem_cons_of_mem _ (ih (List.mem_filter.mp kept).1)

theorem withoutRepeats_append (left right : List Term) : withoutRepeats (left ++ right) =
    withoutRepeats left ++ (withoutRepeats right).filter fun term => !contains left term := by
  induction left with
  | nil => simp [withoutRepeats, contains]
  | cons first left ih =>
    simp only [List.cons_append, withoutRepeats, ih, List.filter_append, List.filter_filter,
      contains, List.any_cons, Bool.not_or]

/-- A union appends the terms that are new, each once. -/
theorem union_eq_append (properLeft : ∀ term ∈ left, term.Proper)
    (properRight : ∀ term ∈ right, term.Proper) :
    union left right =
      left ++ (withoutRepeats right).filter fun term => !contains left term := by
  induction right generalizing left with
  | nil => simp [union, withoutRepeats]
  | cons term right ih =>
    obtain ⟨proper, properRight⟩ := List.forall_mem_cons.mp properRight
    have step : union left (term :: right) = union (insertTerm left term) right := rfl
    rw [step, insertTerm, withoutRepeats]
    split
    · rename_i present
      -- What is the same as a term of the left list is there already.
      have kept : ∀ other ∈ withoutRepeats right,
          (!contains left other) = (!contains left other && !term.sameAs other) := by
        intro other member
        by_cases same : term.sameAs other = true
        · have properOther := properRight other (mem_of_mem_withoutRepeats member)
          rw [contains_iff_mem properLeft proper,
            (Term.sameAs_iff proper properOther).mp same,
            ← contains_iff_mem properLeft properOther] at present
          simp [present]
        · simp [same]
      rw [ih properLeft properRight, List.filter_cons_of_neg (by simp [present]),
        List.filter_filter, List.filter_congr kept]
    · rename_i absent
      have properBoth : ∀ other ∈ left ++ [term], other.Proper :=
        List.forall_mem_append.mpr ⟨properLeft, by simpa using proper⟩
      rw [ih properBoth properRight, List.filter_cons_of_pos (by simp [absent]),
        List.filter_filter, List.append_assoc]
      simp only [List.singleton_append, contains_append, contains_singleton, Bool.not_or]

theorem union_nil_eq (proper : ∀ term ∈ terms, term.Proper) :
    union [] terms = withoutRepeats terms := by
  rw [union_eq_append (by simp) proper]
  simp [contains]

theorem represents_withoutRepeats (proper : ∀ term ∈ terms, term.Proper) :
    Represents (withoutRepeats terms) (terms.map Term.nameSet).toFinset := by
  have all := Represents.nil.union proper
  rwa [union_nil_eq proper, Finset.empty_union] at all

/-- Leaving out the repeats leaves no name set out. -/
theorem contains_withoutRepeats (proper : ∀ term ∈ terms, term.Proper) {term : Term}
    (h : term.Proper) : contains (withoutRepeats terms) term = contains terms term := by
  rw [Bool.eq_iff_iff, (represents_withoutRepeats proper).contains_iff h, List.mem_toFinset,
    contains_iff_mem proper h]

theorem Represents.withoutRepeats_eq (h : Represents terms sets) : withoutRepeats terms = terms := by
  obtain ⟨proper, distinct, -⟩ := h
  induction terms with
  | nil => rfl
  | cons first later ih =>
    obtain ⟨properFirst, properLater⟩ := List.forall_mem_cons.mp proper
    obtain ⟨new, distinct⟩ := List.nodup_cons.mp distinct
    rw [withoutRepeats, ih properLater distinct, List.filter_eq_self.mpr]
    intro other member
    rw [Bool.not_eq_true', ← Bool.not_eq_true,
      Term.sameAs_iff properFirst (properLater other member)]
    intro same
    exact new (same ▸ List.mem_map_of_mem member)

/-- The union of two lists without their repeats is that of both without repeats. -/
theorem union_withoutRepeats (properLeft : ∀ term ∈ left, term.Proper)
    (properRight : ∀ term ∈ right, term.Proper) :
    union (withoutRepeats left) (withoutRepeats right) = withoutRepeats (left ++ right) := by
  have hl := represents_withoutRepeats properLeft
  have hr := represents_withoutRepeats properRight
  rw [union_eq_append hl.proper hr.proper, hr.withoutRepeats_eq, withoutRepeats_append]
  congr 1
  refine List.filter_congr fun term member => ?_
  rw [contains_withoutRepeats properLeft (hr.proper term member)]

namespace Represents

/-- A union that adds no set adds no term. -/
theorem union_eq_left (hl : Represents left leftSets) (hr : Represents right rightSets)
    (subset : rightSets ⊆ leftSets) : Expansion.union left right = left := by
  have nothingNew : right.filter (fun term => !contains left term) = [] := by
    refine List.filter_eq_nil_iff.mpr fun term member => ?_
    have inLeft := subset (hr.mem_iff.mpr ⟨term, member, rfl⟩)
    simp [(hl.contains_iff (hr.proper term member)).mpr inLeft]
  rw [union_eq_append hl.proper hr.proper, hr.withoutRepeats_eq, nothingNew, List.append_nil]

end Represents

end Expansion

namespace Tree

open Expansion

/-- The terms of every tree are apart, also those of a power of order zero, which are the terms of
its base. -/
theorem exists_represents_expand (tree : Tree) : ∃ sets, Represents tree.expand.terms sets := by
  induction tree with
  | zero => exact ⟨_, .nil⟩
  | one => exact ⟨_, .nil⟩
  | factor atom => exact ⟨_, .single (Term.proper_single atom)⟩
  | poly source degree raw => exact ⟨_, represents_polyTerms source degree raw⟩
  | negate operand => exact ⟨_, .nil⟩
  | power base order ih =>
    obtain ⟨sets, h⟩ := ih
    cases order with
    | zero => exact ⟨sets, by simpa [expand, Expansion.power, powerOf, growBy] using h⟩
    | succ order => exact ⟨_, h.powerOf (Nat.succ_pos order)⟩
  | binary connective lhs rhs ihl ihr =>
    obtain ⟨leftSets, hl⟩ := ihl
    obtain ⟨rightSets, hr⟩ := ihr
    cases connective with
    | add => exact ⟨_, hl.union_represents hr⟩
    | remove => exact ⟨_, hl.without hr⟩
    | interact => exact ⟨_, hl.products hr⟩
    | cross => exact ⟨_, (hl.union_represents hr).union_represents (hl.products hr)⟩
    | nest => exact ⟨_, represents_nest hl hr⟩

end Tree

end DesignMatrix
