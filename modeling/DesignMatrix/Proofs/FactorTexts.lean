import DesignMatrix.Proofs.FactorNames
import DesignMatrix.Proofs.Literals
import DesignMatrix.Proofs.ParsedTrees

/-!
# Factors read back

The name of a factor is read as the factor again, as long as no column needs quotes.
-/

namespace DesignMatrix

open Token (IsName IsLiteral IsSymbol Lexes WrittenAs)

namespace Arith

/-- Columns have plain names, numbers are number literals, and there is no basis of polynomials. -/
def Readable : Arith → Prop
  | .column name => IsName name.toList
  | .number value text => IsLiteral value text.toList
  | .negate operand => operand.Readable
  | .binary _ lhs rhs => lhs.Readable ∧ rhs.Readable
  | .call _ argument => argument.Readable
  | .basis _ _ _ => False

theorem readable_iff {arith : Arith} : arith.Readable ↔ arith.Lexed ∧ arith.Unquoted := by
  induction arith with
  | column name => simp [Readable, Lexed, Unquoted]
  | number value text => simp [Readable, Lexed, Unquoted, Token.isNumeral_iff_isLiteral]
  | negate operand ih => simpa [Readable, Lexed, Unquoted] using ih
  | binary operator lhs rhs ihl ihr =>
    simp only [Readable, Lexed, Unquoted, ihl, ihr]
    tauto
  | call transform argument ih => simpa [Readable, Lexed, Unquoted] using ih
  | basis source degree order => simp [Readable, Lexed]

theorem handedOn_readable : HandedOn Readable :=
  ⟨id, fun _ _ _ hl hr => ⟨hl, hr⟩, fun _ _ h => h⟩

end Arith

theorem Token.WellFormed.meets_readable {token : Token} (h : token.WellFormed)
    (unquoted : ¬token.IsQuoted) : token.Meets Arith.Readable := by
  cases token with
  | name text => exact h
  | number value text => exact Token.isNumeral_iff_isLiteral.mp h
  | quoted text => exact absurd trivial unquoted
  | _ => trivial

namespace Tree

namespace Rank

abbrev interaction : Rank := .whole (.chain .interaction)

abbrev product : Rank := .whole (.chain .product)

end Rank

namespace Phrase

/-- An atom alone is an interaction. -/
def asInteraction (atom : Phrase .atom) : Phrase .interaction :=
  .chain (.unsigned (.bare atom)) .stop

/-- An interaction alone is a product. -/
def asProduct (interaction : Phrase .interaction) : Phrase .product := .chain interaction .stop

/-- A product alone is a sum. -/
def asSum (product : Phrase .product) : Phrase .sum := .chain product .stop

variable {atom : Phrase .atom} {interaction : Phrase .interaction} {product : Phrase .product}

@[simp] theorem yield_asInteraction : atom.asInteraction.yield = atom.yield :=
  List.append_nil atom.yield

@[simp] theorem yield_asProduct : interaction.asProduct.yield = interaction.yield :=
  List.append_nil interaction.yield

@[simp] theorem yield_asSum : product.asSum.yield = product.yield := List.append_nil product.yield

@[simp] theorem tree_asInteraction : atom.asInteraction.tree = atom.tree := rfl

@[simp] theorem tree_asProduct : interaction.asProduct.tree = interaction.tree := rfl

@[simp] theorem tree_asSum : product.asSum.tree = product.tree := rfl

@[simp] theorem admissible_asInteraction : atom.asInteraction.Admissible ↔ atom.Admissible :=
  and_iff_left trivial

@[simp] theorem admissible_asProduct : interaction.asProduct.Admissible ↔ interaction.Admissible :=
  and_iff_left trivial

@[simp] theorem admissible_asSum : product.asSum.Admissible ↔ product.Admissible :=
  and_iff_left trivial

end Phrase

end Tree

namespace Factor

/-- The name of the factor is read as an atom that stands for the factor. -/
def ReadsBack (factor : Factor) : Prop :=
  ∃ atom : Tree.Phrase .atom, atom.Admissible ∧ atom.tree = .factor factor ∧
    WrittenAs atom.yield factor.name.toList

theorem readsBack_ofColumn {name : String} (isName : IsName name.toList) :
    (ofColumn name).ReadsBack := by
  have written := Token.writtenAs_name isName
  rw [String.ofList_toList] at written
  exact ⟨.name name, trivial, rfl, written⟩

theorem writtenAs_call {function : String} (isName : IsName function.toList) {written : List Token}
    {text : List Char} (h : WrittenAs written text) :
    WrittenAs (.name function :: .leftParen :: (written ++ [.rightParen]))
      (function.toList ++ '(' :: (text ++ [')'])) := by
  intro rest tokens ends lexes
  have notRest : Token.isNameRest '(' = false := by decide +kernel
  have inner := h.parenthesized ends lexes
  have call := inner.name isName (by simpa using notRest)
  simpa using call

theorem readsBack_ofArith {value : Arith} (readable : value.Readable) :
    (ofArith value).ReadsBack := by
  obtain ⟨lexed, unquoted⟩ := Arith.readable_iff.mp readable
  obtain ⟨phrase, yields, values⟩ := (Arith.shown_tokens lexed).toSum
  have isName : IsName "I".toList := ⟨by decide +kernel, by simp⟩
  have written := writtenAs_call isName (Arith.writtenAs_text lexed unquoted)
  refine ⟨.arith phrase, trivial, by rw [Tree.Phrase.tree, values], ?_⟩
  simpa [Tree.Phrase.yield, yields, ofArith] using written

theorem readsBack_ofCall {transform : Transform} {argument : Arith}
    (readable : argument.Readable) : (ofCall transform argument).ReadsBack := by
  obtain ⟨lexed, unquoted⟩ := Arith.readable_iff.mp readable
  obtain ⟨phrase, yields, values⟩ := (Arith.shown_tokens lexed).toSum
  have written := writtenAs_call (Arith.isName_transformName transform)
    (Arith.writtenAs_text lexed unquoted)
  refine ⟨.call transform.name transform (Transform.named?_name transform) phrase, trivial,
    by rw [Tree.Phrase.tree, values], ?_⟩
  simpa [Tree.Phrase.yield, yields, ofCall, Arith.text] using written

/-- The name of a factor, alone behind a tilde, is read as the factor. -/
theorem ReadsBack.parse {factor : Factor} (h : factor.ReadsBack) :
    Formula.parse ("~ " ++ factor.name) = .ok ⟨none, .factor factor⟩ := by
  obtain ⟨atom, admissible, stands, written⟩ := h
  have name : Lexes factor.name.toList atom.yield := by
    simpa using written Token.ends_nil .nil
  have tilde : IsSymbol '~' .tilde := ⟨by decide +kernel, by decide, by decide, by decide, rfl⟩
  have spaced : Lexes (' ' :: factor.name.toList) atom.yield := .blank (by decide) name
  have lexes := spaced.symbol tilde (by simp)
  let side : Tree.Phrase .sum := atom.asInteraction.asProduct.asSum
  refine Formula.parse_eq_ok_iff_lexes.mpr ⟨⟨none, side⟩, ⟨by simp, ?_⟩, ?_, ?_⟩
  · simpa [side] using admissible
  · simpa [side, Formula.Phrase.yield, Formula.Phrase.front] using lexes
  · simp [side, Formula.Phrase.formula, stands]

end Factor

namespace Arith

end Arith

end DesignMatrix
