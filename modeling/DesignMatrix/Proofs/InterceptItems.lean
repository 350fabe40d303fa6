import Mathlib.Algebra.Ring.Int.Units
import DesignMatrix.Proofs.GroupedSums

/-!
# Which item decides about the intercept

In a chain of sums and differences, `0` and `1` may stand anywhere, each with the sign that joins it
to the chain and with one of its own. The last of these items decides whether there is an intercept,
by the product of its signs. Only `- -1` decides nothing: it does not bring an intercept back.
-/

namespace DesignMatrix

/-- A `0` or `1` in a chain of sums and differences. -/
structure InterceptItem where
  /-- The sign that joins the item to those before it. -/
  joint : ℤˣ
  /-- The sign of the item itself. -/
  own : ℤˣ
  isOne : Bool
  deriving DecidableEq

namespace InterceptItem

/-- The item is `+1` or `-0` when both signs are multiplied. -/
def asks (item : InterceptItem) : Bool := item.isOne == decide (item.joint * item.own = 1)

/-- The item is `- -1`. -/
def isNegatedMinusOne (item : InterceptItem) : Bool := item == ⟨-1, -1, true⟩

/-- What the item says about the intercept: what it asks for, and nothing if it is `- -1`. -/
def effect (item : InterceptItem) : InterceptEffect :=
  if item.isNegatedMinusOne then .unsaid else if item.asks then .present else .absent

/-- The last item asks for an intercept, or there is no item. -/
def askedBy (items : List InterceptItem) : Bool := (items.getLast?.map asks).getD true

theorem askedBy_append_singleton (items : List InterceptItem) (last : InterceptItem) :
    askedBy (items ++ [last]) = last.asks := by
  simp [askedBy]

/-- Of items that say what they ask for, the last one counts. -/
theorem lastSaid_map_effect (items : List InterceptItem) :
    (InterceptEffect.lastSaid (items.map effect) != .absent) =
      askedBy (items.filter fun item => !item.isNegatedMinusOne) := by
  induction items using List.reverseRec with
  | nil => rfl
  | append_singleton items last ih =>
    rw [List.map_append, List.map_singleton, InterceptEffect.lastSaid_append_singleton,
      List.filter_append]
    by_cases passed : last.isNegatedMinusOne = true
    · simp [effect, passed, ih]
    · have kept : [last].filter (fun item => !item.isNegatedMinusOne) = [last] := by
        simp [passed]
      rw [kept, askedBy_append_singleton, effect, if_neg passed]
      cases last.asks <;> rfl

/-- The last item decides as it asks, but for `- -1`. -/
theorem askedBy_filter {items : List InterceptItem}
    (decides : ∀ last ∈ items.getLast?, last.isNegatedMinusOne = false) :
    askedBy (items.filter fun item => !item.isNegatedMinusOne) = askedBy items := by
  rcases List.eq_nil_or_concat items with rfl | ⟨front, last, rfl⟩
  · rfl
  · have kept : last.isNegatedMinusOne = false := decides last (by simp)
    simp [List.filter_append, kept, askedBy_append_singleton]

end InterceptItem

namespace Tree

/-- The operands of a chain of sums and differences with the signs that join them. -/
def items : Tree → List (ℤˣ × Tree)
  | .binary .add lhs rhs => lhs.items ++ [(1, rhs)]
  | .binary .remove lhs rhs => lhs.items ++ [(-1, rhs)]
  | tree => [(1, tree)]

/-- The tree is `0`, `1`, `-0` or `-1`: its sign, and whether it is `1`. -/
def constant? : Tree → Option (ℤˣ × Bool)
  | .zero => some (1, false)
  | .one => some (1, true)
  | .negate .zero => some (-1, false)
  | .negate .one => some (-1, true)
  | _ => none

/-- What an operand says about the intercept where a sign joins it to a chain. -/
def interceptItem? (joint : ℤˣ) (operand : Tree) : Option InterceptItem :=
  operand.constant?.map fun (own, isOne) => ⟨joint, own, isOne⟩

/-- The items of a chain that are `0` or `1`. -/
def interceptItems (tree : Tree) : List InterceptItem :=
  tree.items.filterMap fun (joint, operand) => operand.interceptItem? joint

/-- The tree is `0` or `1` with or without a sign, or mentions neither of them. -/
def IsOperand (tree : Tree) : Prop := tree.constant?.isSome ∨ tree.WithoutConstants

/-- All items of the chain are operands. -/
def IsChain (tree : Tree) : Prop := ∀ item ∈ tree.items, item.2.IsOperand

instance : DecidablePred WithoutConstants
  | .zero | .one | .negate _ => .isFalse id
  | .factor _ | .poly _ _ _ => .isTrue trivial
  | .binary _ lhs rhs =>
    have := instDecidablePredWithoutConstants lhs
    have := instDecidablePredWithoutConstants rhs
    inferInstanceAs (Decidable (lhs.WithoutConstants ∧ rhs.WithoutConstants))
  | .power base _ => instDecidablePredWithoutConstants base

instance : DecidablePred IsOperand := fun _ => inferInstanceAs (Decidable (_ ∨ _))

instance : DecidablePred IsChain := fun _ => inferInstanceAs (Decidable (∀ item ∈ _, _))

theorem isOperand_iff {tree : Tree} : tree.IsOperand ↔
    tree = .zero ∨ tree = .one ∨ tree = .negate .zero ∨ tree = .negate .one ∨
      tree.WithoutConstants := by
  constructor
  · rintro (constant | without)
    · unfold constant? at constant
      split at constant <;> simp_all
    · simp [without]
  · rintro (rfl | rfl | rfl | rfl | without)
    · exact .inl rfl
    · exact .inl rfl
    · exact .inl rfl
    · exact .inl rfl
    · exact .inr without

theorem WithoutConstants.interceptItem? {tree : Tree} (h : tree.WithoutConstants) (joint : ℤˣ) :
    tree.interceptItem? joint = none := by
  cases tree <;> first | rfl | exact h.elim

/-- What an operand says about the intercept where it stands alone. -/
theorem IsOperand.effect_expand {operand : Tree} (h : operand.IsOperand) :
    operand.expand.effect =
      .lastSaid ((operand.interceptItem? 1).toList.map InterceptItem.effect) := by
  rcases isOperand_iff.mp h with rfl | rfl | rfl | rfl | without
  · rfl
  · rfl
  · rfl
  · rfl
  · rw [without.effect_expand, without.interceptItem?]
    rfl

/-- What an operand says after a plus. -/
theorem IsOperand.effect_add {rhs : Tree} (h : rhs.IsOperand) (lhs : Tree) :
    (Tree.binary .add lhs rhs).expand.effect = lhs.expand.effect.followedBy
      (.lastSaid ((rhs.interceptItem? 1).toList.map InterceptItem.effect)) := by
  rw [← h.effect_expand]
  rfl

/-- What an operand says after a minus. -/
theorem IsOperand.effect_remove {rhs : Tree} (h : rhs.IsOperand) (lhs : Tree) :
    (Tree.binary .remove lhs rhs).expand.effect = lhs.expand.effect.followedBy
      (.lastSaid ((rhs.interceptItem? (-1)).toList.map InterceptItem.effect)) := by
  rcases isOperand_iff.mp h with rfl | rfl | rfl | rfl | without
  · rfl
  · rfl
  · rfl
  · rfl
  · simp [expand, Expansion.remove, without.effect_expand, without.isZero, without.interceptItem?]

theorem filterMap_singleton_interceptItem? (joint : ℤˣ) (operand : Tree) :
    [(joint, operand)].filterMap (fun (joint, operand) => operand.interceptItem? joint) =
      (operand.interceptItem? joint).toList := by
  cases found : operand.interceptItem? joint <;> simp [found]

/-- A side that is no sum or difference says what its only operand says. -/
theorem effect_expand_of_items {tree : Tree} (single : tree.items = [(1, tree)])
    (chain : tree.IsChain) :
    tree.expand.effect = .lastSaid (tree.interceptItems.map InterceptItem.effect) := by
  have operand : tree.IsOperand := chain (1, tree) (by simp [single])
  rw [operand.effect_expand, interceptItems, single, filterMap_singleton_interceptItem?]

/-- The last operand of a chain adds what it says to what those before it say. -/
theorem effect_expand_of_items_append {tree lhs rhs : Tree} {joint : ℤˣ}
    (parts : tree.items = lhs.items ++ [(joint, rhs)])
    (front : lhs.expand.effect = .lastSaid (lhs.interceptItems.map InterceptItem.effect))
    (last : tree.expand.effect = lhs.expand.effect.followedBy
      (.lastSaid ((rhs.interceptItem? joint).toList.map InterceptItem.effect))) :
    tree.expand.effect = .lastSaid (tree.interceptItems.map InterceptItem.effect) := by
  have items : tree.interceptItems = lhs.interceptItems ++ (rhs.interceptItem? joint).toList := by
    rw [interceptItems, parts, List.filterMap_append, filterMap_singleton_interceptItem?,
      interceptItems]
  rw [last, front, items, List.map_append, InterceptEffect.lastSaid_append]

/-- The last of its items that says something decides what a chain says. -/
theorem IsChain.effect_expand {tree : Tree} (chain : tree.IsChain) :
    tree.expand.effect = .lastSaid (tree.interceptItems.map InterceptItem.effect) := by
  induction tree with
  | zero | one | factor | poly | negate | power => exact effect_expand_of_items rfl chain
  | binary connective lhs rhs ihl ihr =>
    cases connective with
    | interact | cross | nest => exact effect_expand_of_items rfl chain
    | add =>
      obtain ⟨front, last⟩ := List.forall_mem_append.mp chain
      have operand : rhs.IsOperand := last (1, rhs) (List.mem_singleton_self _)
      exact effect_expand_of_items_append rfl (ihl front) (operand.effect_add lhs)
    | remove =>
      obtain ⟨front, last⟩ := List.forall_mem_append.mp chain
      have operand : rhs.IsOperand := last (-1, rhs) (List.mem_singleton_self _)
      exact effect_expand_of_items_append rfl (ihl front) (operand.effect_remove lhs)

end Tree

namespace Formula

open InterceptItem (askedBy)

theorem map_intercept_of_parse {text : String} {formula : Formula}
    (parsed : parse text = .ok formula) : (describe text).map Description.intercept =
      (formula.response.mapM Description.responseOf).map
        fun _ => formula.predictors.expand.effect != .absent := by
  have described : describe text = Description.ofFormula formula := by
    rw [describe, parsed]
    rfl
  rw [described, Description.ofFormula_eq]
  cases formula.response.mapM Description.responseOf <;> rfl

/-- A chain describes an intercept as the last of its items other than `- -1` asks for it, which is
the last of all its items unless that is `- -1`. -/
theorem intercept_of_chain {text : String} {formula : Formula} (parsed : parse text = .ok formula)
    (chain : formula.predictors.IsChain) :
    (describe text).map Description.intercept =
        (formula.response.mapM Description.responseOf).map (fun _ =>
          askedBy (formula.predictors.interceptItems.filter fun item => !item.isNegatedMinusOne)) ∧
      ((∀ last ∈ formula.predictors.interceptItems.getLast?, last.isNegatedMinusOne = false) →
        (describe text).map Description.intercept =
          (formula.response.mapM Description.responseOf).map
            fun _ => askedBy formula.predictors.interceptItems) := by
  have described := map_intercept_of_parse parsed
  rw [chain.effect_expand, InterceptItem.lastSaid_map_effect] at described
  refine ⟨described, fun decides => ?_⟩
  rw [described, InterceptItem.askedBy_filter decides]

theorem intercept_of_chain_restored :
    ∃ formula, parse "y ~ x - 1 - -1 + a * b - -0 - 0 - d:c" = .ok formula ∧
      formula.predictors.IsChain ∧
      formula.predictors.interceptItems =
        [⟨-1, 1, true⟩, ⟨-1, -1, true⟩, ⟨-1, -1, false⟩, ⟨-1, 1, false⟩] ∧
      (describe "y ~ x - 1 - -1 + a * b - -0 - 0 - d:c").map Description.intercept = .ok true := by
  let column (name : String) : Tree := .factor (.ofColumn name)
  let front : Tree := .binary .remove (.binary .remove (column "x") .one) (.negate .one)
  let middle : Tree := .binary .add front (.binary .cross (column "a") (column "b"))
  let back : Tree := .binary .remove (.binary .remove middle (.negate .zero)) .zero
  let tree : Tree := .binary .remove back (.binary .interact (column "d") (column "c"))
  have parsed : parse "y ~ x - 1 - -1 + a * b - -0 - 0 - d:c" = .ok ⟨some (column "y"), tree⟩ := by
    decide +kernel
  have chain : tree.IsChain := by decide
  have decides : ∀ last ∈ tree.interceptItems.getLast?, last.isNegatedMinusOne = false := by decide
  have described := (intercept_of_chain parsed chain).2 decides
  exact ⟨_, parsed, chain, rfl, described⟩

/-- After `0` removed the intercept, `- -1` asks for one and there is none. -/
theorem no_intercept_after_negatedMinusOne :
    ∃ formula, parse "~ x + 0 - -1" = .ok formula ∧ formula.predictors.IsChain ∧
      askedBy formula.predictors.interceptItems = true ∧
      (describe "~ x + 0 - -1").toOption.map Description.intercept = some false := by
  let sum : Tree := .binary .add (.factor (.ofColumn "x")) .zero
  let tree : Tree := .binary .remove sum (.negate .one)
  have parsed : parse "~ x + 0 - -1" = .ok ⟨none, tree⟩ := by decide +kernel
  exact ⟨_, parsed, by decide, by decide, by decide +kernel⟩

end Formula

end DesignMatrix
