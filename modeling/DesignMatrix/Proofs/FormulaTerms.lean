import DesignMatrix.Formula.Description
import DesignMatrix.Proofs.ParsedTrees
import DesignMatrix.Proofs.TermMeaning

/-!
# The terms of a formula that is read

No text is read as a power of order zero, so the terms of every formula that the parser returns
represent the meaning of its sides.
-/

namespace DesignMatrix

open Outcomes

namespace Tree

theorem Parsed.ordersPositive {tree : Tree} (h : tree.Parsed) : tree.OrdersPositive := by
  induction h with
  | negate constant => rcases constant with rfl | rfl <;> trivial
  | binary connective hl hr ihl ihr => exact ⟨ihl, ihr⟩
  | power hb positive bounded ih => exact ⟨ih, positive⟩
  | _ => trivial

end Tree

namespace Description

theorem ofFormula_eq (formula : Formula) :
    ofFormula formula = (formula.response.mapM responseOf).map fun found =>
      ⟨found, formula.predictors.expand.terms, formula.predictors.expand.effect != .absent⟩ := by
  rw [ofFormula]
  cases formula.response.mapM responseOf <;> rfl

theorem ofFormula_eq_ok {formula : Formula} {description : Description} :
    ofFormula formula = .ok description ↔
      formula.response.mapM responseOf = .ok description.response ∧
        formula.predictors.expand.terms = description.predictors ∧
        (formula.predictors.expand.effect != .absent) = description.intercept := by
  obtain ⟨response, predictors, intercept⟩ := description
  rw [ofFormula_eq, map_eq_ok]
  simp only [mk.injEq]
  exact ⟨fun ⟨_, found, same, rest⟩ => ⟨same ▸ found, rest⟩, fun ⟨found, rest⟩ =>
    ⟨response, found, rfl, rest⟩⟩

/-- The predictors that a text describes are the terms of the right side that it is read as. -/
theorem exists_parsed {text : String} {description : Description}
    (described : describe text = .ok description) :
    ∃ formula, Formula.parse text = .ok formula ∧ formula.predictors.Parsed ∧
      formula.predictors.expand.terms = description.predictors := by
  obtain ⟨formula, parsed, described⟩ := bind_eq_ok.mp described
  exact ⟨formula, parsed, (Formula.parsed_of_parse parsed).2, (ofFormula_eq_ok.mp described).2.1⟩

end Description

namespace Formula

open Expansion

/-- The terms of every tree without a power of order zero represent what the tree means, and the
parser returns no other trees. -/
theorem represents_expand_and_ordersPositive_of_parse :
    (∀ tree : Tree, tree.OrdersPositive → Represents tree.expand.terms tree.meaning) ∧
      ∀ (text : String) (formula : Formula), parse text = .ok formula →
        (∀ side ∈ formula.response, side.OrdersPositive) ∧ formula.predictors.OrdersPositive := by
  refine ⟨fun tree => Tree.represents_expand, fun text formula parsed => ?_⟩
  obtain ⟨response, predictors⟩ := parsed_of_parse parsed
  exact ⟨fun side isSide => (response side isSide).ordersPositive, predictors.ordersPositive⟩

theorem represents_expand_highest_order :
    Represents (Tree.power (.binary .add (.factor (.ofColumn "a")) (.factor (.ofColumn "b")))
        maxOrder).expand.terms {{"a"}, {"b"}, {"a", "b"}} ∧
      ∃ formula, parse "y ~ (a + b) ** 4294967295" = .ok formula ∧
        (∀ side ∈ formula.response, side.OrdersPositive) ∧ formula.predictors.OrdersPositive := by
  obtain ⟨represents, positive⟩ := represents_expand_and_ordersPositive_of_parse
  let sum : Tree := .binary .add (.factor (.ofColumn "a")) (.factor (.ofColumn "b"))
  let tree : Tree := .power sum maxOrder
  have highest : Represents tree.expand.terms tree.meaning :=
    represents tree ⟨⟨trivial, trivial⟩, by decide⟩
  have meaning : tree.meaning = {{"a"}, {"b"}, {"a", "b"}} := by decide +kernel
  have isOk : (parse "y ~ (a + b) ** 4294967295").isOk = true := by decide +kernel
  refine ⟨meaning ▸ highest, ?_⟩
  cases parsed : parse "y ~ (a + b) ** 4294967295" with
  | error error => simp [parsed, Except.isOk, Except.toBool] at isOk
  | ok formula => exact ⟨formula, rfl, positive _ _ parsed⟩

end Formula

end DesignMatrix
