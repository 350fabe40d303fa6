import DesignMatrix.Proofs.TermTexts

/-!
# Descriptions read back

A description can be written as a formula of the names of its terms. The formula describes the same
terms in the same order, unless the description comes from a formula with back quotes or with
`poly`.
-/

namespace DesignMatrix

open Outcomes
open Token (Ends IsSymbol Lexes WrittenAs)

namespace Description

/-- The text of the predictors behind the intercept. -/
def textOfTerms (terms : List Term) : List Char :=
  terms.flatMap fun term => " + ".toList ++ term.name.toList

/-- The description as a formula: the names of its terms, with the intercept in front of the
predictors. -/
def text (description : Description) : String :=
  (description.response.map Term.name).getD "" ++ " ~ " ++
    (if description.intercept then "1" else "0") ++
    String.join (description.predictors.map fun term => " + " ++ term.name)

theorem toList_text (description : Description) :
    description.text.toList = ((description.response.map Term.name).getD "").toList ++
      ' ' :: '~' :: ' ' :: ((if description.intercept then "1" else "0").toList ++
        textOfTerms description.predictors) := by
  simp [text, textOfTerms, List.flatMap_map]

theorem ends_textOfTerms (terms : List Term) : Ends (textOfTerms terms) := by
  cases terms with
  | nil => exact Token.ends_nil
  | cons term terms => exact Token.ends_blank _

theorem insertTerm_of_new {terms : List Term} {term : Term}
    (proper : ∀ other ∈ terms, other.Proper) (proper' : term.Proper)
    (new : term.nameSet ∉ terms.map Term.nameSet) :
    Expansion.insertTerm terms term = terms ++ [term] := by
  have absent : Expansion.contains terms term = false := by
    rw [Bool.eq_false_iff]
    intro present
    obtain ⟨other, member, same⟩ := List.any_eq_true.mp present
    have sets := (Term.sameAs_iff (proper other member) proper').mp same
    exact new (sets ▸ List.mem_map_of_mem member)
  simp [Expansion.insertTerm, absent]

theorem exists_tail {terms : List Term} (writable : ∀ term ∈ terms, term.Writable) :
    ∃ tail : Tree.Phrase (.tail .sum), tail.Admissible ∧
      WrittenAs tail.yield (textOfTerms terms) ∧
      ∀ (left : Tree) (effect : InterceptEffect) (before : List Term),
        left.expand = ⟨effect, before⟩ → (∀ term ∈ before, term.Proper) →
        ((before ++ terms).map Term.nameSet).Nodup →
        (tail.tree left).expand = ⟨effect, before ++ terms⟩ := by
  induction terms with
  | nil =>
    refine ⟨.stop, trivial, .nil, fun left effect before expands _ _ => ?_⟩
    rwa [List.append_nil]
  | cons term terms ih =>
    obtain ⟨first, rest⟩ := List.forall_mem_cons.mp writable
    obtain ⟨phrase, admissible, stands, written⟩ := first.readsBack_name
    obtain ⟨tail, admissibleTail, writtenTail, expandsTail⟩ := ih rest
    refine ⟨.next .plus phrase.asProduct tail,
      ⟨Tree.Phrase.admissible_asProduct.mpr admissible, admissibleTail⟩, ?_, ?_⟩
    · intro behind tokens ends lexes
      have operands := written.append writtenTail (ends_textOfTerms terms) ends lexes
      have marked := Arith.lexes_operator .add operands
      have spelled : textOfTerms (term :: terms) ++ behind = ' ' :: ("+".toList ++
          ' ' :: (term.name.toList ++ textOfTerms terms ++ behind)) := by
        simp [textOfTerms]
      have yields : (Tree.Phrase.next .plus phrase.asProduct tail).yield =
          .plus :: (phrase.asProduct.yield ++ tail.yield) := rfl
      rw [spelled, yields, Tree.Phrase.yield_asProduct]
      exact marked
    · intro left effect before expands proper distinct
      have new : term.nameSet ∉ before.map Term.nameSet := by
        rw [List.map_append, List.map_cons] at distinct
        exact Term.notMem_of_nodup_append_cons distinct
      have grown : (Tree.binary .add left phrase.tree).expand = ⟨effect, before ++ [term]⟩ := by
        simp only [Tree.expand, expands, stands, Expansion.add]
        rw [← insertTerm_of_new proper first.proper new]
        rfl
      have properGrown : ∀ other ∈ before ++ [term], other.Proper :=
        List.forall_mem_append.mpr ⟨proper, List.forall_mem_singleton.mpr first.proper⟩
      have whole :=
        expandsTail _ effect (before ++ [term]) grown properGrown (by simpa using distinct)
      rw [List.append_assoc, List.singleton_append] at whole
      exact whole

/-- The constant that is written for the intercept. -/
theorem exists_constant (intercept : Bool) :
    ∃ atom : Tree.Phrase .atom, atom.Admissible ∧
      atom.tree = (if intercept then .one else .zero) ∧
      WrittenAs atom.yield (if intercept then "1" else "0").toList := by
  have numeral (digit : Char) (part : Token.isNumberPart digit = true) (value : Float)
      (read : Token.numberValue? [digit] = some value) :
      WrittenAs [.number value (String.ofList [digit])] [digit] :=
    Token.writtenAs_numeral ⟨by simp, by simpa using part, read⟩
  cases intercept with
  | false =>
    have isZero : natural? (Decimal.toFloat (.finite false 0 0)) = some 0 := by decide +kernel
    exact ⟨.zero _ "0" isZero, trivial, rfl, numeral '0' (by decide) _ rfl⟩
  | true =>
    have isOne : natural? (Decimal.toFloat (.finite false 1 0)) = some 1 := by decide +kernel
    exact ⟨.one _ "1" isOne, trivial, rfl, numeral '1' (by decide) _ rfl⟩

theorem exists_front {response : Option Term} (writable : ∀ term ∈ response, term.Writable) :
    ∃ side : Option (Tree.Phrase .sum), (∀ phrase ∈ side, phrase.Admissible) ∧
      (side.map Tree.Phrase.tree).mapM responseOf = .ok response ∧
      ∀ (rest : List Char) (tokens : List Token), Lexes rest tokens →
        Lexes (((response.map Term.name).getD "").toList ++ ' ' :: '~' :: ' ' :: rest)
          (Formula.Phrase.front side ++ tokens) := by
  have tilde {rest : List Char} {tokens : List Token} (lexes : Lexes rest tokens) :
      Lexes (' ' :: '~' :: ' ' :: rest) (.tilde :: tokens) := by
    have isSymbol : IsSymbol '~' .tilde :=
      ⟨by decide +kernel, by decide, by decide, by decide, rfl⟩
    have spaced : Lexes (' ' :: rest) tokens := .blank (by decide) lexes
    exact .blank (by decide) (spaced.symbol isSymbol (by simp))
  cases response with
  | none => exact ⟨none, by simp, rfl, fun rest tokens lexes => tilde lexes⟩
  | some term =>
    obtain ⟨phrase, admissible, stands, written⟩ := (writable term rfl).readsBack_name
    refine ⟨some phrase.asProduct.asSum, ?_, ?_, fun rest tokens lexes => ?_⟩
    · simpa using admissible
    · have single : responseOf phrase.tree = .ok term := by
        simp [responseOf, stands]
      simp [single]
    · have whole := written (Token.ends_blank _) (tilde lexes)
      simpa [Formula.Phrase.front] using whole

/-- A description of distinct terms that can be written is read back from its text. -/
theorem describe_text_of_writable {description : Description}
    (response : ∀ term ∈ description.response, term.Writable)
    (predictors : ∀ term ∈ description.predictors, term.Writable)
    (distinct : (description.predictors.map Term.nameSet).Nodup) :
    describe description.text = .ok description := by
  obtain ⟨side, admissibleSide, stands, front⟩ := exists_front response
  obtain ⟨constant, admissible, isConstant, written⟩ := exists_constant description.intercept
  obtain ⟨tail, admissibleTail, writtenTail, expands⟩ := exists_tail predictors
  let constantAlone : Tree.Phrase .product := constant.asInteraction.asProduct
  let right : Tree.Phrase .sum := .chain constantAlone tail
  have parsed : Formula.parse description.text =
      .ok ⟨side.map Tree.Phrase.tree, right.tree⟩ := by
    have admissibleConstant : constantAlone.Admissible := by simpa [constantAlone] using admissible
    have yields : right.yield = constant.yield ++ tail.yield := by
      have chained : right.yield = constantAlone.yield ++ tail.yield := rfl
      simpa [constantAlone] using chained
    refine Formula.parse_eq_ok_iff_lexes.mpr
      ⟨⟨side, right⟩, ⟨admissibleSide, admissibleConstant, admissibleTail⟩, ?_, rfl⟩
    have terms := written.append writtenTail (ends_textOfTerms _) Token.ends_nil .nil
    rw [List.append_nil, List.append_nil] at terms
    rw [toList_text, Formula.Phrase.yield, yields]
    exact front _ _ terms
  have expanded : right.tree.expand =
      ⟨if description.intercept then .present else .absent, description.predictors⟩ := by
    have start : constant.tree.expand =
        ⟨if description.intercept then .present else .absent, []⟩ := by
      rw [isConstant]
      cases description.intercept <;> rfl
    exact expands constant.tree _ [] start (by simp) distinct
  have described : ofFormula ⟨side.map Tree.Phrase.tree, right.tree⟩ = .ok description := by
    obtain ⟨response, predictors, intercept⟩ := description
    simp only [ofFormula, stands, expanded, bind, Except.bind]
    cases intercept <;> rfl
  simpa [describe, parsed, bind, Except.bind] using described

theorem responseOf_eq_ok {side : Tree} {term : Term} :
    responseOf side = .ok term ↔ side.expand.terms = [term] := by
  unfold responseOf
  split
  · rename_i other single
    simp [single]
  · rename_i several
    simpa using several term

theorem mem_response {response : Option Tree} {found : Option Term} {term : Term}
    (h : response.mapM responseOf = .ok found) (isFound : term ∈ found) :
    ∃ side ∈ response, term ∈ side.expand.terms := by
  cases response with
  | none =>
    cases h
    cases isFound
  | some side =>
    obtain ⟨other, read, rfl⟩ := map_eq_ok.mp h
    cases isFound
    exact ⟨side, rfl, by simp [responseOf_eq_ok.mp read]⟩

end Description

namespace Tree

theorem writable_of_mem_expand {tree : Tree} (parsed : tree.Parsed) (readsBack : tree.ReadsBack)
    (withoutPoly : tree.WithoutPoly) {term : Term} (member : term ∈ tree.expand.terms) :
    term.Writable := by
  obtain ⟨nonempty, proper, mentioned⟩ := factors_of_mem_expand parsed.ordersPositive member
  exact ⟨nonempty, proper, fun factor inside =>
    readsBack withoutPoly factor (mentioned factor inside)⟩

end Tree

namespace Formula

/-- No part of the formula is written with `poly`. -/
def WithoutPoly (formula : Formula) : Prop := ∀ side ∈ formula.sides, side.WithoutPoly

/-- The names of the terms that a formula describes, written as a formula, describe the same. -/
theorem describe_text_of_describe {text : String} {formula : Formula} {description : Description}
    (parsed : parse text = .ok formula) (unquoted : Token.backQuote ∉ text.toList)
    (withoutPoly : formula.WithoutPoly) (described : describe text = .ok description) :
    describe description.text = .ok description := by
  obtain ⟨phrase, admissible, lexes, rfl⟩ := parse_eq_ok_iff_lexes.mp parsed
  have readable : ∀ token ∈ phrase.yield, token.Meets Arith.Readable := fun token member =>
    (lexes.wellFormed token member).meets_readable (lexes.not_isQuoted unquoted token member)
  obtain ⟨readsBackLeft, readsBackRight⟩ :=
    phrase.meets Arith.handedOn_readable Tree.handedOn_readsBack admissible readable
  obtain ⟨parsedLeft, parsedRight⟩ := parsed_of_parse parsed
  simp only [describe, bind_eq_ok, parsed, Except.ok.injEq, exists_eq_left',
    Description.ofFormula] at described
  obtain ⟨response, found, rfl⟩ := described
  refine Description.describe_text_of_writable
    (fun term isResponse => ?_) (fun term member => ?_) ?_
  · obtain ⟨side, isSide, member⟩ := Description.mem_response found isResponse
    have listed : side ∈ phrase.formula.sides := List.mem_append_left _ (by simpa using isSide)
    exact Tree.writable_of_mem_expand (parsedLeft side isSide) (readsBackLeft side isSide)
      (withoutPoly side listed) member
  · have listed : phrase.formula.predictors ∈ phrase.formula.sides :=
      List.mem_append_right _ (List.mem_singleton_self _)
    exact Tree.writable_of_mem_expand parsedRight readsBackRight (withoutPoly _ listed) member
  · exact (Tree.represents_expand parsedRight.ordersPositive).distinct

deriving instance DecidableEq for Tree

deriving instance DecidableEq for Formula

deriving instance DecidableEq for Term

deriving instance DecidableEq for Description

/-- `log(y) ~ 0 + a + b + a:b + I(x ** 2):b`. -/
def squareDescription : Description :=
  ⟨some (.single (.ofCall .log (.column "y"))),
    [.single (.ofColumn "a"), .single (.ofColumn "b"), ⟨[.ofColumn "a", .ofColumn "b"]⟩,
      ⟨[.ofArith (.binary .power (.column "x")
        (.number (Decimal.toFloat (.finite false 2 0)) "2")), .ofColumn "b"]⟩], false⟩

theorem describe_text_squareDescription :
    squareDescription.text = "log(y) ~ 0 + a + b + a:b + I(x ** 2):b" ∧
      describe squareDescription.text = .ok squareDescription := by
  let square : Factor := .ofArith (.binary .power (.column "x")
    (.number (Decimal.toFloat (.finite false 2 0)) "2"))
  let sum : Tree := .binary .add (.factor (.ofColumn "a")) (.factor (.ofColumn "b"))
  let formula : Formula := ⟨some (.factor (.ofCall .log (.column "y"))),
    .binary .add (.binary .remove (.power sum 2) .one)
      (.binary .interact (.factor square) (.factor (.ofColumn "b")))⟩
  have parsed : parse "np.log(y) ~ (a + b) ^ 2 - 1 + I(x^2):b" = .ok formula := by decide +kernel
  have described : describe "np.log(y) ~ (a + b) ^ 2 - 1 + I(x^2):b" = .ok squareDescription := by
    decide +kernel
  have withoutPoly : formula.WithoutPoly := by
    simp [WithoutPoly, sides, formula, sum, Tree.WithoutPoly]
  exact ⟨by decide +kernel, describe_text_of_describe parsed (by decide) withoutPoly described⟩

end Formula

end DesignMatrix
