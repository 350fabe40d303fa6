import Mathlib.Logic.Function.Iterate
import DesignMatrix.Formula.TreeReader
import DesignMatrix.Proofs.TermUnions

/-!
# Powers as repeated crosses

The power `a ** n` expands to the same terms, in the same order and with their factors in the same
order, as the cross `a * a * ... * a` of `n` copies. Each cross is one round of products with the
base. The power leaves out rounds that would add nothing: those after a round that added nothing,
and those after as many as there are base terms.
-/

namespace DesignMatrix

namespace Expansion

/-- The terms together with their products with the base terms. -/
def addProducts (base terms : List Term) : List Term := union terms (products terms base)

variable {base terms : List Term} {baseSets sets : Finset (Finset String)}

namespace Represents

theorem addProducts (hb : Represents base baseSets) (h : Represents terms sets) :
    Represents (addProducts base terms) (sets ∪ Finset.image₂ (· ∪ ·) sets baseSets) :=
  h.union_represents (h.products hb)

/-- A round that leaves the number of terms as it was leaves the terms as they were. -/
theorem addProducts_eq_self (hb : Represents base baseSets) (h : Represents terms sets)
    (sameLength : (Expansion.addProducts base terms).length = terms.length) :
    Expansion.addProducts base terms = terms := by
  have products := h.products hb
  have appended := union_eq_append h.proper products.proper
  have nothingNew := congrArg List.length appended
  rw [← Expansion.addProducts, sameLength, List.length_append, Nat.left_eq_add,
    List.length_eq_zero_iff] at nothingNew
  rw [Expansion.addProducts, appended, nothingNew, List.append_nil]

/-- The rounds that are left out after one that added nothing would not have added anything. -/
theorem growBy_eq_iterate (hb : Represents base baseSets) (h : Represents terms sets)
    (rounds : ℕ) : Expansion.growBy base rounds terms =
      (Expansion.addProducts base)^[rounds] terms := by
  induction rounds generalizing terms sets with
  | zero => rfl
  | succ rounds ih =>
    have step : Expansion.growBy base (rounds + 1) terms =
        if (Expansion.addProducts base terms).length = terms.length then
          Expansion.addProducts base terms
        else Expansion.growBy base rounds (Expansion.addProducts base terms) := rfl
    rw [step, Function.iterate_succ_apply]
    split
    · rename_i sameLength
      have fixed := hb.addProducts_eq_self h sameLength
      rw [fixed, Function.iterate_fixed fixed]
    · exact ih (hb.addProducts h)

/-- After some rounds the terms are all unions of at most one base term more. -/
theorem iterate_addProducts (hb : Represents base baseSets) (rounds : ℕ) :
    Represents ((Expansion.addProducts base)^[rounds] base) (unionsUpTo baseSets (rounds + 1)) := by
  induction rounds with
  | zero => rwa [Function.iterate_zero_apply, unionsUpTo_one]
  | succ rounds ih =>
    rw [Function.iterate_succ_apply', unionsUpTo_succ (Nat.succ_pos rounds)]
    exact hb.addProducts ih

/-- As many rounds as there are base terms leave no further union to add. -/
theorem addProducts_iterate_eq_self (hb : Represents base baseSets) {rounds : ℕ}
    (enough : base.length ≤ rounds + 1) :
    Expansion.addProducts base ((Expansion.addProducts base)^[rounds] base) =
      (Expansion.addProducts base)^[rounds] base := by
  rw [← hb.card_eq] at enough
  have saturated : unionsUpTo baseSets (rounds + 1 + 1) = unionsUpTo baseSets (rounds + 1) := by
    rw [← unionsUpTo_min_card baseSets (rounds + 1 + 1),
      ← unionsUpTo_min_card baseSets (rounds + 1), Nat.min_eq_right enough,
      Nat.min_eq_right (Nat.le_succ_of_le enough)]
  have grown := hb.iterate_addProducts (rounds + 1)
  rw [saturated, Function.iterate_succ_apply'] at grown
  have all := hb.iterate_addProducts rounds
  exact hb.addProducts_eq_self all (grown.card_eq.symm.trans all.card_eq)

/-- Neither the bound on the rounds of a power nor its early end loses a term. -/
theorem powerOf_eq_iterate (hb : Represents base baseSets) (order : ℕ) :
    Expansion.powerOf base order = (Expansion.addProducts base)^[order - 1] base := by
  rw [Expansion.powerOf, hb.growBy_eq_iterate hb]
  rcases Nat.le_total order base.length with few | many
  · rw [Nat.min_eq_left few]
  · -- The bound leaves out rounds, but the terms were complete before them.
    have enough : base.length ≤ base.length - 1 + 1 := by omega
    have fixed := hb.addProducts_iterate_eq_self enough
    obtain ⟨more, split⟩ := Nat.exists_eq_add_of_le (Nat.sub_le_sub_right many 1)
    rw [Nat.min_eq_right many, split, Nat.add_comm, Function.iterate_add_apply,
      Function.iterate_fixed fixed]

end Represents

end Expansion

namespace Tree

open Expansion

/-- The cross `a * a * ... * a` of a number of copies of a tree, grouped to the left. -/
def crossOfCopies (tree : Tree) : ℕ → Tree
  | 0 | 1 => tree
  | copies + 2 => .binary .cross (tree.crossOfCopies (copies + 1)) tree

/-- Each cross with the base is a round of products, for the base terms are there already. -/
theorem terms_expand_crossOfCopies (base : Tree) (copies : ℕ) :
    (base.crossOfCopies (copies + 1)).expand.terms =
      (addProducts base.expand.terms)^[copies] base.expand.terms := by
  obtain ⟨sets, hb⟩ := base.exists_represents_expand
  induction copies with
  | zero => rfl
  | succ copies ih =>
    have all := hb.iterate_addProducts copies
    have first : unionsUpTo sets 1 ⊆ unionsUpTo sets (copies + 1) :=
      unionsUpTo_mono (Nat.le_add_left 1 copies)
    rw [unionsUpTo_one] at first
    rw [crossOfCopies, expand, Expansion.cross, ih, all.union_eq_left hb first,
      Function.iterate_succ_apply', addProducts]

/-- A power expands as the cross of as many copies of its base, whatever its base is. -/
theorem expand_power_eq_crossOfCopies (base : Tree) (order : ℕ) (several : 2 ≤ order) :
    (Tree.power base order).expand = (base.crossOfCopies order).expand ∧
      (Tree.power base 1).expand.terms = base.expand.terms := by
  obtain ⟨sets, hb⟩ := base.exists_represents_expand
  refine ⟨?_, hb.powerOf_eq_iterate 1⟩
  obtain ⟨copies, rfl⟩ := Nat.exists_eq_add_of_le' several
  have terms : powerOf base.expand.terms (copies + 2) =
      (base.crossOfCopies (copies + 2)).expand.terms := by
    rw [hb.powerOf_eq_iterate, terms_expand_crossOfCopies]
    rfl
  rw [expand, Expansion.power, terms]
  rfl

theorem expand_crossOfCopies_overlapping :
    let sum : Tree := .binary .add (.factor (.ofColumn "a")) (.binary .add
      (.binary .interact (.factor (.ofColumn "b")) (.factor (.ofColumn "c")))
      (.binary .interact (.factor (.ofColumn "c")) (.factor (.ofColumn "a"))))
    2 ≤ maxOrder ∧ (sum.crossOfCopies maxOrder).expand.effect = .unsaid ∧
      (sum.crossOfCopies maxOrder).expand.terms.map Term.name =
        ["a", "b:c", "c:a", "a:b:c"] := by
  intro sum
  have several : 2 ≤ maxOrder := by decide
  rw [← (expand_power_eq_crossOfCopies sum maxOrder several).1]
  exact ⟨several, rfl, by decide +kernel⟩

end Tree

end DesignMatrix
