import DesignMatrix.Proofs.Deduplication
import DesignMatrix.Proofs.FactorTexts

/-!
# Terms read back

The name of a term is read as a product that stands for the term, as long as the names of its
factors are read as the factors. They are in formulas without back quotes and without `poly`.
-/

namespace DesignMatrix

open Token (Ends IsSymbol WrittenAs)

namespace Tree

/-- No part of the tree is written with `poly`. -/
def WithoutPoly : Tree → Prop
  | .zero | .one | .factor _ => True
  | .poly _ _ _ => False
  | .binary _ lhs rhs => lhs.WithoutPoly ∧ rhs.WithoutPoly
  | .negate operand => operand.WithoutPoly
  | .power base _ => base.WithoutPoly

/-- The name of every factor that the tree mentions is read as the factor. -/
def ReadsBack (tree : Tree) : Prop :=
  tree.WithoutPoly → ∀ factor ∈ tree.factors, factor.ReadsBack

theorem handedOn_readsBack : HandedOn Arith.Readable ReadsBack where
  zero _ := by simp [factors]
  one _ := by simp [factors]
  column readable _ := List.forall_mem_singleton.mpr (Factor.readsBack_ofColumn readable)
  arith readable _ := List.forall_mem_singleton.mpr (Factor.readsBack_ofArith readable)
  call _ _ readable _ := List.forall_mem_singleton.mpr (Factor.readsBack_ofCall readable)
  poly _ _ _ _ := False.elim
  negate constant _ := by rcases constant with rfl | rfl <;> simp [factors]
  binary _ _ _ hl hr without :=
    List.forall_mem_append.mpr ⟨hl without.1, hr without.2⟩
  power hb _ _ without := hb without

private theorem empty_notMem_image₂ {sets : Finset (Finset String)} (h : ∅ ∉ sets)
    (others : Finset (Finset String)) : ∅ ∉ Finset.image₂ (· ∪ ·) sets others := by
  intro member
  obtain ⟨names, inside, more, -, none⟩ := Finset.mem_image₂.mp member
  exact h ((Finset.union_eq_empty.mp none).1 ▸ inside)

private theorem empty_notMem_unionsUpTo {sets : Finset (Finset String)} {order : ℕ}
    (h : ∅ ∉ sets) : ∅ ∉ Expansion.unionsUpTo sets order := by
  intro member
  obtain ⟨chosen, subset, atLeast, -, none⟩ := Expansion.mem_unionsUpTo.mp member
  obtain ⟨names, inside⟩ := Finset.card_pos.mp atLeast
  have within : names ⊆ ∅ := none ▸ Finset.subset_biUnion_of_mem id inside
  exact h (Finset.subset_empty.mp within ▸ subset inside)

/-- No side of a formula means a product without factors. -/
theorem empty_notMem_meaning (tree : Tree) : ∅ ∉ tree.meaning := by
  induction tree with
  | zero | one | negate => simp [meaning]
  | factor atom => simp [meaning]
  | poly source degree raw => simp [meaning]
  | power base order ih => exact empty_notMem_unionsUpTo ih
  | binary connective lhs rhs ihl ihr =>
    cases connective with
    | add => simp [meaning, ihl, ihr]
    | remove => simp [meaning, ihl]
    | interact => exact empty_notMem_image₂ ihl rhs.meaning
    | cross =>
      have products := empty_notMem_image₂ ihl rhs.meaning
      simp only [meaning, Finset.mem_union, not_or]
      exact ⟨⟨ihl, ihr⟩, products⟩
    | nest =>
      simp only [meaning, Finset.mem_union, Finset.mem_image, not_or, not_exists, not_and]
      refine ⟨ihl, fun names inside none => ihr ?_⟩
      exact (Finset.union_eq_empty.mp none).2 ▸ inside

/-- Every term of a side has a factor, and none that the side does not mention. -/
theorem factors_of_mem_expand {tree : Tree} (positive : tree.OrdersPositive) {term : Term}
    (member : term ∈ tree.expand.terms) :
    term.factors ≠ [] ∧ term.Proper ∧ ∀ factor ∈ term.factors, factor ∈ tree.factors := by
  obtain ⟨proper, mentioned⟩ := tree.builtFrom_expand term member
  refine ⟨fun none => tree.empty_notMem_meaning ?_, proper, mentioned⟩
  rw [(represents_expand positive).mem_iff]
  exact ⟨term, member, by simp [Term.nameSet, Term.names, none]⟩

end Tree

namespace Term

/-- The term has a factor, has none of them twice, and their names are read as the factors. -/
structure Writable (term : Term) : Prop where
  nonempty : term.factors ≠ []
  proper : term.Proper
  readsBack : ∀ factor ∈ term.factors, factor.ReadsBack

/-- The name of the term is read as a product that stands for the term alone. -/
def ReadsBack (term : Term) : Prop :=
  ∃ phrase : Tree.Phrase .interaction, phrase.Admissible ∧
    phrase.tree.expand = ⟨.unsaid, [term]⟩ ∧ WrittenAs phrase.yield term.name.toList

theorem interact_single {factors : List Factor} {factor : Factor}
    (new : factor.name ∉ factors.map Factor.name) :
    interact ⟨factors⟩ (single factor) = ⟨factors ++ [factor]⟩ := by
  have absent : hasName factors factor.name = false := by
    rwa [Bool.eq_false_iff, ne_eq, hasName_iff]
  simp [interact, single, insertFactor, absent]

/-- The text of the factors behind the first one. -/
def textBehind (factors : List Factor) : List Char :=
  factors.flatMap fun factor => ':' :: factor.name.toList

theorem ends_textBehind (factors : List Factor) : Ends (textBehind factors) := by
  cases factors with
  | nil => exact Token.ends_nil
  | cons factor factors => exact Token.ends_colon _

theorem toList_name_cons (factor : Factor) (factors : List Factor) :
    (name ⟨factor :: factors⟩).toList = factor.name.toList ++ textBehind factors := by
  induction factors generalizing factor with
  | nil => simp [name, names, textBehind]
  | cons next factors ih =>
    have behind := ih next
    simp only [name, names, List.isEmpty_cons, List.map_cons, textBehind, List.flatMap_cons,
      Bool.false_eq_true, if_false] at behind ⊢
    rw [String.intercalate_cons_cons]
    simp [behind]

theorem notMem_of_nodup_append_cons {α : Type} {xs ys : List α} {x : α}
    (distinct : (xs ++ x :: ys).Nodup) : x ∉ xs :=
  fun inside => List.disjoint_of_nodup_append distinct inside List.mem_cons_self

theorem exists_tail {factors : List Factor} (readsBack : ∀ factor ∈ factors, factor.ReadsBack) :
    ∃ tail : Tree.Phrase (.tail .interaction), tail.Admissible ∧
      WrittenAs tail.yield (textBehind factors) ∧
      ∀ (left : Tree) (before : List Factor), left.expand = ⟨.unsaid, [⟨before⟩]⟩ →
        ((before ++ factors).map Factor.name).Nodup →
        (tail.tree left).expand = ⟨.unsaid, [⟨before ++ factors⟩]⟩ := by
  induction factors with
  | nil =>
    refine ⟨.stop, trivial, .nil, fun left before expands _ => ?_⟩
    rwa [List.append_nil]
  | cons factor factors ih =>
    obtain ⟨first, rest⟩ := List.forall_mem_cons.mp readsBack
    obtain ⟨atom, admissible, stands, written⟩ := first
    obtain ⟨tail, admissibleTail, writtenTail, expandsTail⟩ := ih rest
    refine ⟨.next .colon (.unsigned (.bare atom)) tail, ⟨admissible, admissibleTail⟩, ?_, ?_⟩
    · intro behind tokens ends lexes
      have colon : IsSymbol ':' .colon :=
        ⟨by decide +kernel, by decide, by decide, by decide, rfl⟩
      have operands := written.append writtenTail (ends_textBehind factors) ends lexes
      have marked := operands.symbol colon (by simp)
      simpa [Tree.Phrase.yield, Tree.Mark.token, textBehind] using marked
    · intro left before expands distinct
      have new : factor.name ∉ before.map Factor.name := by
        rw [List.map_append, List.map_cons] at distinct
        exact notMem_of_nodup_append_cons distinct
      have grown : (Tree.binary .interact left (.factor factor)).expand =
          ⟨.unsaid, [⟨before ++ [factor]⟩]⟩ := by
        simp only [Tree.expand, expands, Expansion.interact]
        rw [← interact_single new]
        rfl
      have whole := expandsTail _ (before ++ [factor]) grown (by simpa using distinct)
      simpa [Tree.Phrase.tree, Tree.Mark.connective, stands] using whole

theorem Writable.readsBack_name {term : Term} (h : term.Writable) : term.ReadsBack := by
  obtain ⟨factors⟩ := term
  cases factors with
  | nil => exact absurd rfl h.nonempty
  | cons factor factors =>
    obtain ⟨first, rest⟩ := List.forall_mem_cons.mp h.readsBack
    obtain ⟨atom, admissible, stands, written⟩ := first
    obtain ⟨tail, admissibleTail, writtenTail, expandsTail⟩ := exists_tail rest
    have single : (Tree.factor factor).expand = ⟨.unsaid, [⟨[factor]⟩]⟩ := rfl
    have expands := expandsTail (.factor factor) [factor] single h.proper
    refine ⟨.chain (.unsigned (.bare atom)) tail, ⟨admissible, admissibleTail⟩, ?_, ?_⟩
    · simpa [Tree.Phrase.tree, stands] using expands
    · rw [toList_name_cons]
      exact written.append writtenTail (ends_textBehind factors)

end Term

end DesignMatrix
