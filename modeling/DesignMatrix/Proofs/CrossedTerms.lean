import DesignMatrix.Proofs.DescriptionText

/-!
# Crosses and the sums they are short for

The cross `a * b` stands for the terms of the sum `a + b + a:b`, in the same order. What the
operands say about the intercept counts in the sum only, so that the two differ where the sum
removes it.
-/

namespace DesignMatrix

open Outcomes

namespace InterceptEffect

@[simp] theorem followedBy_unsaid (effect : InterceptEffect) :
    effect.followedBy .unsaid = effect := rfl

@[simp] theorem unsaid_followedBy (effect : InterceptEffect) :
    followedBy .unsaid effect = effect := by
  cases effect <;> rfl

end InterceptEffect

namespace Tree

/-- The sum `(a + b) + a:b`. -/
def sumOfCross (a b : Tree) : Tree := .binary .add (.binary .add a b) (.binary .interact a b)

/-- Neither `0` nor `1` is mentioned in the tree. -/
def WithoutConstants : Tree → Prop
  | .zero | .one | .negate _ => False
  | .factor _ | .poly _ _ _ => True
  | .binary _ lhs rhs => lhs.WithoutConstants ∧ rhs.WithoutConstants
  | .power base _ => base.WithoutConstants

/-- The terms come in the same order, and only the sum passes on what its operands say about the
intercept. -/
theorem expand_sumOfCross (a b : Tree) : (a.sumOfCross b).expand =
    ⟨a.expand.effect.followedBy b.expand.effect, (Tree.binary .cross a b).expand.terms⟩ := rfl

theorem effect_cross (a b : Tree) : (Tree.binary .cross a b).expand.effect = .unsaid := rfl

theorem WithoutConstants.isZero {tree : Tree} (h : tree.WithoutConstants) :
    tree.isZero = false := by
  cases tree <;> first | rfl | exact h.elim

/-- Only `0` and `1` have an effect on the intercept. -/
theorem WithoutConstants.effect_expand {tree : Tree} (h : tree.WithoutConstants) :
    tree.expand.effect = .unsaid := by
  induction tree with
  | zero | one | negate => exact h.elim
  | factor atom => rfl
  | poly source degree raw => rfl
  | power base order ih => rfl
  | binary connective lhs rhs ihl ihr =>
    have left := ihl h.1
    have right := ihr h.2
    cases connective with
    | add => simp [expand, Expansion.add, left, right]
    | remove => simp [expand, Expansion.remove, left, right, h.2.isZero]
    | interact | cross | nest => rfl

theorem expand_cross_eq {a b : Tree} (ha : a.WithoutConstants) (hb : b.WithoutConstants) :
    (Tree.binary .cross a b).expand = (a.sumOfCross b).expand := by
  have effect := effect_cross a b
  rw [expand_sumOfCross, ha.effect_expand, hb.effect_expand, InterceptEffect.followedBy_unsaid,
    ← effect]

end Tree

namespace Description

/-- A cross describes the terms of the sum that it is short for, with an intercept. The sum has one
unless its operands remove it, which nothing but `0` and `1` can do. -/
theorem ofFormula_cross (response : Option Tree) (a b : Tree) :
    ofFormula ⟨response, .binary .cross a b⟩ =
        (ofFormula ⟨response, a.sumOfCross b⟩).map
          (fun sum => ⟨sum.response, sum.predictors, true⟩) ∧
      (∀ sum, ofFormula ⟨response, a.sumOfCross b⟩ = .ok sum →
        (ofFormula ⟨response, .binary .cross a b⟩ = .ok sum ↔
          a.expand.effect.followedBy b.expand.effect ≠ .absent)) ∧
      (a.WithoutConstants → b.WithoutConstants →
        (Tree.binary .cross a b).expand = (a.sumOfCross b).expand) := by
  have crossed : ofFormula ⟨response, .binary .cross a b⟩ =
      (ofFormula ⟨response, a.sumOfCross b⟩).map
        fun sum => ⟨sum.response, sum.predictors, true⟩ := by
    rw [ofFormula_eq, ofFormula_eq, Tree.expand_sumOfCross, Tree.effect_cross]
    cases response.mapM responseOf <;> rfl
  refine ⟨crossed, fun sum described => ?_, Tree.expand_cross_eq⟩
  rw [crossed, described]
  obtain ⟨-, -, intercept⟩ := ofFormula_eq_ok.mp described
  rw [Tree.expand_sumOfCross] at intercept
  obtain ⟨found, terms, hasIntercept⟩ := sum
  simp only [Except.map, Except.ok.injEq, mk.injEq, true_and] at intercept ⊢
  rw [eq_comm, ← intercept, bne_iff_ne]

theorem ofFormula_cross_products :
    ∃ sum : Description, sum.predictors.map Term.name = ["x", "a", "b", "x:a", "x:b"] ∧
      ofFormula ⟨none, (Tree.factor (.ofColumn "x")).sumOfCross
        (.binary .add (.factor (.ofColumn "a")) (.factor (.ofColumn "b")))⟩ = .ok sum ∧
      ofFormula ⟨none, .binary .cross (.factor (.ofColumn "x"))
        (.binary .add (.factor (.ofColumn "a")) (.factor (.ofColumn "b")))⟩ = .ok sum := by
  let a : Tree := .factor (.ofColumn "x")
  let b : Tree := .binary .add (.factor (.ofColumn "a")) (.factor (.ofColumn "b"))
  obtain ⟨sum, described, names⟩ := exists_of_toOption (x := ofFormula ⟨none, a.sumOfCross b⟩)
    (f := fun sum => sum.predictors.map Term.name) (b := ["x", "a", "b", "x:a", "x:b"])
    (by decide +kernel)
  have keeps : a.expand.effect.followedBy b.expand.effect ≠ .absent := by decide
  exact ⟨sum, names, described, ((ofFormula_cross none a b).2.1 sum described).mpr keeps⟩

/-- The operand of a cross removes the intercept, and the cross has one all the same. -/
theorem cross_keeps_removed_intercept :
    ∃ a b, Formula.parse "~ (x - 1) * b" = .ok ⟨none, .binary .cross a b⟩ ∧
      Formula.parse "~ ((x - 1) + b) + (x - 1):b" = .ok ⟨none, a.sumOfCross b⟩ ∧
      (describe "~ (x - 1) * b").toOption.map Description.intercept = some true ∧
      (describe "~ ((x - 1) + b) + (x - 1):b").toOption.map Description.intercept = some false :=
  ⟨.binary .remove (.factor (.ofColumn "x")) .one, .factor (.ofColumn "b"), by decide +kernel,
    by decide +kernel, by decide +kernel, by decide +kernel⟩

end Description

end DesignMatrix
