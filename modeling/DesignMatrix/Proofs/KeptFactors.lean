import DesignMatrix.Proofs.DescriptionText

/-!
# Which factors a description keeps

A side of a formula that removes no terms keeps every factor that it mentions, but for one thing: an
interaction with an operand that stands for no term, such as `a:1`, stands for no term itself, and
the factors of its operands are lost. What is kept is stated by names, for terms are compared by
them.
-/

namespace DesignMatrix

namespace Tree

/-- No part of the tree removes terms. -/
def WithoutRemoval : Tree → Prop
  | .zero | .one | .factor _ | .poly _ _ _ => True
  | .binary connective lhs rhs => connective ≠ .remove ∧ lhs.WithoutRemoval ∧ rhs.WithoutRemoval
  | .negate operand => operand.WithoutRemoval
  | .power base _ => base.WithoutRemoval

/-- The tree stands for some term: not if it is made of `0` and `1`, nor if it is an interaction
with a tree that stands for none. -/
def hasTerms : Tree → Bool
  | .zero | .one | .negate _ => false
  | .factor _ => true
  | .poly _ degree _ => 1 ≤ degree
  | .binary .interact lhs rhs => lhs.hasTerms && rhs.hasTerms
  | .binary _ lhs rhs => lhs.hasTerms || rhs.hasTerms
  | .power base _ => base.hasTerms

/-- The factors that the tree mentions outside of interactions that stand for no term. -/
def keptFactors : Tree → List Factor
  | .binary .interact lhs rhs =>
    if lhs.hasTerms && rhs.hasTerms then lhs.keptFactors ++ rhs.keptFactors else []
  | .binary _ lhs rhs => lhs.keptFactors ++ rhs.keptFactors
  | .negate _ => []
  | .power base _ => base.keptFactors
  | tree => tree.factors

/-- Both operands of every interaction in the tree stand for some term. -/
def InteractsTerms : Tree → Prop
  | .zero | .one | .factor _ | .poly _ _ _ => True
  | .binary connective lhs rhs =>
    (connective = .interact → lhs.hasTerms = true ∧ rhs.hasTerms = true) ∧
      lhs.InteractsTerms ∧ rhs.InteractsTerms
  | .negate operand => operand.InteractsTerms
  | .power base _ => base.InteractsTerms

end Tree

namespace Expansion

/-- The name is in one of the sets. -/
def Occurs (name : String) (sets : Finset (Finset String)) : Prop := ∃ names ∈ sets, name ∈ names

section Occurs

variable {name : String} {left right sets : Finset (Finset String)} {order : ℕ}

theorem Occurs.nonempty (h : Occurs name sets) : sets.Nonempty := by
  obtain ⟨names, member, -⟩ := h
  exact ⟨names, member⟩

theorem occurs_union : Occurs name (left ∪ right) ↔ Occurs name left ∨ Occurs name right := by
  simp only [Occurs, Finset.mem_union, or_and_right, exists_or]

/-- Nothing occurs in the unions of members of two collections if one of them is empty. -/
theorem occurs_image₂ : Occurs name (Finset.image₂ (· ∪ ·) left right) ↔
    left.Nonempty ∧ right.Nonempty ∧ (Occurs name left ∨ Occurs name right) := by
  constructor
  · rintro ⟨_, member, inside⟩
    obtain ⟨s, inLeft, t, inRight, rfl⟩ := Finset.mem_image₂.mp member
    refine ⟨⟨s, inLeft⟩, ⟨t, inRight⟩, ?_⟩
    exact (Finset.mem_union.mp inside).imp (fun h => ⟨s, inLeft, h⟩) fun h => ⟨t, inRight, h⟩
  · rintro ⟨⟨s, inLeft⟩, ⟨t, inRight⟩, ⟨names, member, inside⟩ | ⟨names, member, inside⟩⟩
    · exact ⟨_, Finset.mem_image₂_of_mem member inRight, Finset.mem_union_left t inside⟩
    · exact ⟨_, Finset.mem_image₂_of_mem inLeft member, Finset.mem_union_right s inside⟩

theorem occurs_cross :
    Occurs name (left ∪ right ∪ Finset.image₂ (· ∪ ·) left right) ↔
      Occurs name left ∨ Occurs name right := by
  rw [occurs_union, occurs_union]
  exact or_iff_left_of_imp fun h => (occurs_image₂.mp h).2.2

theorem occurs_nest :
    Occurs name (left ∪ right.image fun names => left.biUnion id ∪ names) ↔
      Occurs name left ∨ Occurs name right := by
  -- What is nested is joined with one product, that of all factors on the left.
  have outer : Occurs name {left.biUnion id} ↔ Occurs name left := by simp [Occurs]
  rw [occurs_union, ← Finset.image₂_singleton_left, occurs_image₂, outer]
  constructor
  · rintro (inLeft | ⟨-, -, either⟩)
    · exact .inl inLeft
    · exact either
  · rintro (inLeft | inRight)
    · exact .inl inLeft
    · exact .inr ⟨Finset.singleton_nonempty _, inRight.nonempty, .inr inRight⟩

theorem occurs_unionsUpTo (positive : 1 ≤ order) :
    Occurs name (unionsUpTo sets order) ↔ Occurs name sets := by
  constructor
  · rintro ⟨_, member, inside⟩
    obtain ⟨chosen, subset, -, -, rfl⟩ := mem_unionsUpTo.mp member
    obtain ⟨names, isChosen, within⟩ := Finset.mem_biUnion.mp inside
    exact ⟨names, subset isChosen, within⟩
  · rintro ⟨names, member, inside⟩
    rw [← unionsUpTo_one sets] at member
    exact ⟨names, unionsUpTo_mono positive member, inside⟩

theorem unionsUpTo_nonempty (positive : 1 ≤ order) :
    (unionsUpTo sets order).Nonempty ↔ sets.Nonempty := by
  constructor
  · rintro ⟨_, member⟩
    obtain ⟨chosen, subset, atLeast, -, -⟩ := mem_unionsUpTo.mp member
    exact (Finset.card_pos.mp atLeast).mono subset
  · intro nonempty
    rw [← unionsUpTo_one sets] at nonempty
    exact nonempty.mono (unionsUpTo_mono positive)

end Occurs

end Expansion

namespace Tree

open Expansion

theorem meaning_nonempty_iff {tree : Tree} (positive : tree.OrdersPositive)
    (additive : tree.WithoutRemoval) : tree.meaning.Nonempty ↔ tree.hasTerms = true := by
  induction tree with
  | zero | one | negate => simp [meaning, hasTerms]
  | factor atom => simp [meaning, hasTerms]
  | poly source degree raw => simp [meaning, hasTerms]
  | power base order ih =>
    rw [meaning, unionsUpTo_nonempty positive.2, ih positive.1 additive, hasTerms]
  | binary connective lhs rhs ihl ihr =>
    obtain ⟨keeps, additiveLeft, additiveRight⟩ := additive
    have left := ihl positive.1 additiveLeft
    have right := ihr positive.2 additiveRight
    cases connective with
    | remove => exact absurd rfl keeps
    | interact => simp [meaning, hasTerms, left, right]
    | add => simp [meaning, hasTerms, Finset.union_nonempty, left, right]
    | cross =>
      simp only [meaning, hasTerms, Finset.union_nonempty, Finset.image₂_nonempty_iff, left, right,
        Bool.or_eq_true]
      tauto
    | nest => simp [meaning, hasTerms, Finset.union_nonempty, left, right]

theorem occurs_poly_iff {source name : String} {degree : ℕ} {raw : Bool} :
    Occurs name (Tree.poly source degree raw).meaning ↔
      ∃ factor ∈ (Tree.poly source degree raw).keptFactors, factor.name = name := by
  simp only [Occurs, meaning, keptFactors, factors, Finset.exists_mem_image, List.mem_map,
    exists_exists_and_eq_and, name_polyFactor, Finset.mem_Icc, List.mem_range'_1,
    Finset.mem_singleton, Nat.lt_one_add_iff, @eq_comm _ name]

theorem keptFactors_binary {connective : Connective} (lhs rhs : Tree)
    (h : connective ≠ .interact) :
    (Tree.binary connective lhs rhs).keptFactors = lhs.keptFactors ++ rhs.keptFactors := by
  cases connective <;> first | rfl | exact absurd rfl h

/-- The names in the meaning of a tree are those of the factors that it keeps. -/
theorem occurs_meaning_iff {tree : Tree} (positive : tree.OrdersPositive)
    (additive : tree.WithoutRemoval) {name : String} :
    Occurs name tree.meaning ↔ ∃ factor ∈ tree.keptFactors, factor.name = name := by
  induction tree with
  | zero | one | negate => simp [Occurs, meaning, keptFactors, factors]
  | factor atom => simp [Occurs, meaning, keptFactors, factors, eq_comm]
  | poly source degree raw => exact occurs_poly_iff
  | power base order ih =>
    rw [meaning, occurs_unionsUpTo positive.2, ih positive.1 additive, keptFactors]
  | binary connective lhs rhs ihl ihr =>
    obtain ⟨keeps, additiveLeft, additiveRight⟩ := additive
    have either : (∃ factor ∈ lhs.keptFactors ++ rhs.keptFactors, factor.name = name) ↔
        Occurs name lhs.meaning ∨ Occurs name rhs.meaning := by
      rw [ihl positive.1 additiveLeft, ihr positive.2 additiveRight]
      simp only [List.mem_append, or_and_right, exists_or]
    cases connective with
    | remove => exact absurd rfl keeps
    | add => rw [keptFactors_binary lhs rhs (by decide), either, meaning, occurs_union]
    | cross => rw [keptFactors_binary lhs rhs (by decide), either, meaning, occurs_cross]
    | nest => rw [keptFactors_binary lhs rhs (by decide), either, meaning, occurs_nest]
    | interact =>
      rw [meaning, keptFactors, occurs_image₂, ← either,
        meaning_nonempty_iff positive.1 additiveLeft,
        meaning_nonempty_iff positive.2 additiveRight]
      by_cases terms : (lhs.hasTerms && rhs.hasTerms) = true
      · have both := Bool.and_eq_true_iff.mp terms
        simp only [both, true_and, Bool.and_self, if_true]
      · have notBoth := mt Bool.and_eq_true_iff.mpr terms
        rw [if_neg terms, ← and_assoc]
        simp only [notBoth, false_and, List.not_mem_nil, exists_false]

/-- Nothing gets lost where every interaction is one of terms. -/
theorem keptFactors_eq_factors {tree : Tree} (parsed : tree.Parsed) (h : tree.InteractsTerms) :
    tree.keptFactors = tree.factors := by
  induction parsed with
  | zero | one | column | arith | call | poly => rfl
  | negate constant => rcases constant with rfl | rfl <;> rfl
  | power hb positive bounded ih => exact ih h
  | @binary connective lhs rhs hl hr ihl ihr =>
    obtain ⟨terms, left, right⟩ := h
    rw [factors, ← ihl left, ← ihr right]
    by_cases interaction : connective = .interact
    · subst interaction
      obtain ⟨termsLeft, termsRight⟩ := terms rfl
      simp [keptFactors, termsLeft, termsRight]
    · exact keptFactors_binary lhs rhs interaction

end Tree

namespace Formula

/-- The names of factors in the terms of a description are those that the right side keeps. -/
theorem occurs_iff_of_describe {text : String} {formula : Formula} {description : Description}
    (parsed : parse text = .ok formula) (described : describe text = .ok description)
    (additive : formula.predictors.WithoutRemoval) :
    (∀ name, (∃ term ∈ description.predictors, name ∈ term.names) ↔
        ∃ factor ∈ formula.predictors.keptFactors, factor.name = name) ∧
      (formula.predictors.InteractsTerms → ∀ factor ∈ formula.predictors.factors,
        ∃ term ∈ description.predictors, factor.name ∈ term.names) := by
  obtain ⟨_, parsed', isParsed, terms⟩ := Description.exists_parsed described
  obtain rfl := Except.ok.inj (parsed.symm.trans parsed')
  have positive := isParsed.ordersPositive
  have represents := Tree.represents_expand positive
  have kept (name : String) : (∃ term ∈ description.predictors, name ∈ term.names) ↔
      ∃ factor ∈ formula.predictors.keptFactors, factor.name = name := by
    rw [← Tree.occurs_meaning_iff positive additive, ← terms]
    simp only [Expansion.Occurs, represents.mem_iff, exists_exists_and_eq_and, Term.nameSet,
      List.mem_toFinset]
  refine ⟨kept, fun interacts factor member => (kept factor.name).mpr ⟨factor, ?_, rfl⟩⟩
  rwa [Tree.keptFactors_eq_factors isParsed interacts]

theorem occurs_iff_of_partly_lost :
    ∃ description, describe "~ (a + b:0) ** 2 / c" = .ok description ∧
      description.predictors.map Term.name = ["a", "a:c"] ∧
      ∀ name, (∃ term ∈ description.predictors, name ∈ term.names) ↔ name = "a" ∨ name = "c" := by
  let lost : Tree := .binary .interact (.factor (.ofColumn "b")) .zero
  let sum : Tree := .binary .add (.factor (.ofColumn "a")) lost
  let tree : Tree := .binary .nest (.power sum 2) (.factor (.ofColumn "c"))
  have parsed : parse "~ (a + b:0) ** 2 / c" = .ok ⟨none, tree⟩ := by decide +kernel
  obtain ⟨description, described, names⟩ := Outcomes.exists_of_toOption
    (x := describe "~ (a + b:0) ** 2 / c")
    (f := fun description => description.predictors.map Term.name) (b := ["a", "a:c"])
    (by decide +kernel)
  have additive : tree.WithoutRemoval := by simp [tree, sum, lost, Tree.WithoutRemoval]
  refine ⟨description, described, names, fun name => ?_⟩
  have kept := (occurs_iff_of_describe parsed described additive).1 name
  simpa [tree, sum, lost, Tree.keptFactors, Tree.hasTerms, Tree.factors, Factor.ofColumn, eq_comm]
    using kept

/-- An interaction with `1` loses a factor although no term is removed. -/
theorem factor_lost_beside_one :
    ∃ formula description, parse "~ a:1" = .ok formula ∧ describe "~ a:1" = .ok description ∧
      formula.predictors.WithoutRemoval ∧ .ofColumn "a" ∈ formula.predictors.factors ∧
      ¬∃ term ∈ description.predictors, "a" ∈ term.names := by
  let tree : Tree := .binary .interact (.factor (.ofColumn "a")) .one
  have parsed : parse "~ a:1" = .ok ⟨none, tree⟩ := by decide +kernel
  have described : describe "~ a:1" = .ok ⟨none, [], true⟩ := by decide +kernel
  exact ⟨_, _, parsed, described, ⟨by decide, trivial, trivial⟩, by simp [tree, Tree.factors],
    by simp⟩

end Formula

end DesignMatrix
