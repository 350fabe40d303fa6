import Mathlib.Data.Nat.SuccPred
import Mathlib.Order.Interval.Finset.Nat
import DesignMatrix.Proofs.NumberedNames
import DesignMatrix.Proofs.TermPowers

/-!
# What the operators between terms mean

One side of a formula means a set of sets of factor names, given by the operators of set algebra.
Its expansion is the list of terms that represents this set: there is one term for each set of names
and no other.
-/

namespace DesignMatrix

namespace Tree

/-- The name of the factor of one order that `poly` stands for. -/
def polyName (source : String) (raw : Bool) (order : ℕ) : String :=
  if raw then if order = 1 then source else source ++ "_" ++ toString order
  else "poly_" ++ source ++ "_" ++ toString order

/-- The sets of factor names that a side of a formula means. -/
def meaning : Tree → Finset (Finset String)
  | .zero | .one | .negate _ => ∅
  | .factor atom => {{atom.name}}
  | .poly source degree raw => (Finset.Icc 1 degree).image fun order => {polyName source raw order}
  | .binary .add lhs rhs => lhs.meaning ∪ rhs.meaning
  | .binary .remove lhs rhs => lhs.meaning \ rhs.meaning
  | .binary .interact lhs rhs => Finset.image₂ (· ∪ ·) lhs.meaning rhs.meaning
  | .binary .cross lhs rhs =>
    lhs.meaning ∪ rhs.meaning ∪ Finset.image₂ (· ∪ ·) lhs.meaning rhs.meaning
  | .binary .nest lhs rhs =>
    lhs.meaning ∪ rhs.meaning.image fun names => lhs.meaning.biUnion id ∪ names
  | .power base order => Expansion.unionsUpTo base.meaning order

/-- Every power in the tree has an order of at least one. -/
def OrdersPositive : Tree → Prop
  | .zero | .one | .factor _ | .poly _ _ _ => True
  | .negate operand => operand.OrdersPositive
  | .binary _ lhs rhs => lhs.OrdersPositive ∧ rhs.OrdersPositive
  | .power base order => base.OrdersPositive ∧ 1 ≤ order

end Tree

namespace Expansion

theorem name_polyFactor (source : String) (degree order : ℕ) (raw : Bool) :
    (if raw then rawPower source order else basisColumn source degree order).name =
      Tree.polyName source raw order := by
  cases raw with
  | false => rfl
  | true =>
    by_cases first : order = 1
    · simp [rawPower, Tree.polyName, first, Factor.ofColumn]
    · simp [rawPower, Tree.polyName, first]

theorem polyName_injOn (source : String) (raw : Bool) {i j : ℕ}
    (same : Tree.polyName source raw i = Tree.polyName source raw j) : i = j := by
  unfold Tree.polyName at same
  split at same
  · split at same <;> split at same
    · omega
    · exact absurd same.symm (numbered_ne_self source j)
    · exact absurd same (numbered_ne_self source i)
    · exact (numbered_injective same).2
  · exact (numbered_injective same).2

theorem represents_polyTerms (source : String) (degree : ℕ) (raw : Bool) :
    Represents (polyTerms source degree raw)
      ((Finset.Icc 1 degree).image fun order => {Tree.polyName source raw order}) := by
  have sets : (polyTerms source degree raw).map Term.nameSet =
      (List.range' 1 degree).map fun order => {Tree.polyName source raw order} := by
    simp only [polyTerms, List.map_map, Function.comp_def, Term.nameSet_single, name_polyFactor]
  refine ⟨fun term member => ?_, ?_, ?_⟩
  · obtain ⟨order, -, rfl⟩ := List.mem_map.mp member
    exact Term.proper_single _
  · rw [sets]
    refine List.Nodup.map (fun i j same => ?_) List.nodup_range'
    exact polyName_injOn source raw (Finset.singleton_injective same)
  · rw [sets]
    ext names
    simp [Nat.add_comm]

/-- The product of all terms has all their names. -/
theorem nameSet_productOf (terms : List Term) :
    (productOf terms).nameSet = (terms.map Term.nameSet).toFinset.biUnion id := by
  have general (start : Term) : (terms.foldl Term.interact start).nameSet =
      start.nameSet ∪ (terms.map Term.nameSet).toFinset.biUnion id := by
    induction terms generalizing start with
    | nil => simp
    | cons term terms ih => simp [ih, Finset.union_assoc]
  simpa [productOf] using general .empty

theorem proper_productOf (terms : List Term) : (productOf terms).Proper := by
  have general {start : Term} (proper : start.Proper) :
      (terms.foldl Term.interact start).Proper := by
    induction terms generalizing start with
    | nil => exact proper
    | cons term terms ih => exact ih (proper.interact term)
  exact general Term.proper_empty

variable {left right : Expansion} {leftSets rightSets : Finset (Finset String)}

theorem represents_nest (hl : Represents left.terms leftSets)
    (hr : Represents right.terms rightSets) :
    Represents (nest left right).terms
      (leftSets ∪ rightSets.image fun names => leftSets.biUnion id ∪ names) := by
  have outer := Represents.single (proper_productOf left.terms)
  rw [nameSet_productOf, hl.exact] at outer
  have nested := hl.union_represents (outer.products hr)
  rwa [Finset.image₂_singleton_left] at nested

end Expansion

namespace Tree

open Expansion

/-- The terms of an expansion represent the meaning of the tree. -/
theorem represents_expand {tree : Tree} (positive : tree.OrdersPositive) :
    Represents tree.expand.terms tree.meaning := by
  induction tree with
  | zero => exact .nil
  | one => exact .nil
  | factor atom => exact .single (Term.proper_single atom)
  | poly source degree raw => exact represents_polyTerms source degree raw
  | negate operand => exact .nil
  | power base order ih => exact (ih positive.1).powerOf positive.2
  | binary connective lhs rhs ihl ihr =>
    have hl := ihl positive.1
    have hr := ihr positive.2
    cases connective with
    | add => exact hl.union_represents hr
    | remove => exact hl.without hr
    | interact => exact hl.products hr
    | cross => exact (hl.union_represents hr).union_represents (hl.products hr)
    | nest => exact represents_nest hl hr

end Tree

end DesignMatrix
