import DesignMatrix.Proofs.CrossedTerms
import DesignMatrix.Proofs.TermUnions

/-!
# Sums without their grouping

A sum of sums expands to what its operands say from left to right, however parentheses group them:
the terms of all operands, each where it first stands, and the effect on the intercept of the last
operand that has one.
-/

namespace DesignMatrix

namespace InterceptEffect

/-- The last of several effects that says something. -/
def lastSaid (effects : List InterceptEffect) : InterceptEffect :=
  (effects.filter (· ≠ .unsaid)).getLast?.getD .unsaid

@[simp] theorem lastSaid_nil : lastSaid [] = .unsaid := rfl

@[simp] theorem lastSaid_singleton (effect : InterceptEffect) : lastSaid [effect] = effect := by
  cases effect <;> rfl

theorem followedBy_assoc (first second third : InterceptEffect) :
    (first.followedBy second).followedBy third = first.followedBy (second.followedBy third) := by
  cases third <;> rfl

theorem lastSaid_append_singleton (effects : List InterceptEffect) (last : InterceptEffect) :
    lastSaid (effects ++ [last]) = (lastSaid effects).followedBy last := by
  cases last <;> simp [lastSaid, followedBy]

theorem lastSaid_append (first later : List InterceptEffect) :
    lastSaid (first ++ later) = (lastSaid first).followedBy (lastSaid later) := by
  induction later using List.reverseRec with
  | nil => simp
  | append_singleton later last ih =>
    rw [← List.append_assoc, lastSaid_append_singleton, ih, followedBy_assoc,
      ← lastSaid_append_singleton later last]

end InterceptEffect

namespace Expansion

/-- The expansion of operands that are added up: all terms but for repeats, and the last effect. -/
def sum (operands : List Expansion) : Expansion :=
  ⟨.lastSaid (operands.map effect), withoutRepeats (operands.flatMap terms)⟩

theorem sum_singleton {operand : Expansion} {sets : Finset (Finset String)}
    (h : Represents operand.terms sets) : sum [operand] = operand := by
  simp [sum, h.withoutRepeats_eq]

theorem sum_append {left right : List Expansion}
    (properLeft : ∀ term ∈ left.flatMap terms, term.Proper)
    (properRight : ∀ term ∈ right.flatMap terms, term.Proper) :
    sum (left ++ right) = (sum left).add (sum right) := by
  simp only [sum, add, List.map_append, List.flatMap_append, InterceptEffect.lastSaid_append,
    union_withoutRepeats properLeft properRight]

end Expansion

namespace Tree

open Expansion

/-- The operands of a sum from left to right, none of them a sum itself. -/
def summands : Tree → List Tree
  | .binary .add lhs rhs => lhs.summands ++ rhs.summands
  | tree => [tree]

theorem proper_of_mem_expansions (trees : List Tree) :
    ∀ term ∈ (trees.map expand).flatMap Expansion.terms, term.Proper := by
  intro term member
  obtain ⟨_, listed, inTerms⟩ := List.mem_flatMap.mp member
  obtain ⟨tree, -, rfl⟩ := List.mem_map.mp listed
  obtain ⟨_, represents⟩ := tree.exists_represents_expand
  exact represents.proper term inTerms

theorem expand_eq_sum_singleton (tree : Tree) : tree.expand = Expansion.sum ([tree].map expand) := by
  obtain ⟨_, represents⟩ := tree.exists_represents_expand
  exact (sum_singleton represents).symm

theorem expand_eq_sum (tree : Tree) : tree.expand = Expansion.sum (tree.summands.map expand) := by
  induction tree with
  | zero | one | factor | poly | negate | power => exact expand_eq_sum_singleton _
  | binary connective lhs rhs ihl ihr =>
    cases connective with
    | remove | interact | cross | nest => exact expand_eq_sum_singleton _
    | add =>
      calc (Tree.binary .add lhs rhs).expand
        _ = (Expansion.sum (lhs.summands.map expand)).add
              (Expansion.sum (rhs.summands.map expand)) := by rw [← ihl, ← ihr, expand]
        _ = Expansion.sum (lhs.summands.map expand ++ rhs.summands.map expand) :=
          (sum_append (proper_of_mem_expansions _) (proper_of_mem_expansions _)).symm
        _ = Expansion.sum ((Tree.binary .add lhs rhs).summands.map expand) := by
          rw [← List.map_append, summands]

/-- What a tree expands to depends on the operands of its sum and not on their grouping. -/
theorem expand_eq_sum_and_add_assoc :
    (∀ tree : Tree, tree.expand = Expansion.sum (tree.summands.map expand)) ∧
      ∀ a b c : Tree, (Tree.binary .add (.binary .add a b) c).expand =
        (Tree.binary .add a (.binary .add b c)).expand := by
  refine ⟨expand_eq_sum, fun a b c => ?_⟩
  rw [expand_eq_sum (.binary .add (.binary .add a b) c),
    expand_eq_sum (.binary .add a (.binary .add b c))]
  simp only [summands, List.append_assoc]

end Tree

end DesignMatrix
