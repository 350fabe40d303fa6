import DesignMatrix.Proofs.TermTexts

/-!
# The predictors of a description are distinct

A description has each term once. The terms have different names too, since a name is that of each
factor with colons between them, unless a name between back quotes brings a colon of its own.
-/

namespace DesignMatrix

namespace Token

/-- No name between back quotes has a colon. -/
def QuotesWithoutColon (text : String) : Prop :=
  ∀ placed, list text = .ok placed → ∀ name, quoted name ∈ placed.map Placed.token →
    ':' ∉ name.toList

theorem IsName.colon_notMem {cs : List Char} (isName : IsName cs) : ':' ∉ cs := by
  cases cs with
  | nil => exact isName.elim
  | cons c rest =>
    obtain ⟨start, behind⟩ := isName
    intro member
    rcases List.mem_cons.mp member with rfl | later
    · exact absurd start (by decide +kernel)
    · exact absurd (behind ':' later) (by decide +kernel)

end Token

namespace Arith

/-- The text of the expression has no colon. -/
def WithoutColon (arith : Arith) : Prop := ':' ∉ arith.text.toList

theorem colon_notMem_enclose (parentheses : Bool) {text : String} (h : ':' ∉ text.toList) :
    ':' ∉ (enclose parentheses text).toList := by
  cases parentheses <;> simpa [enclose] using h

theorem handedOn_withoutColon : HandedOn WithoutColon where
  negate {operand} h := by
    have enclosed := colon_notMem_enclose (operand.precedence < 3) h
    simpa [WithoutColon, text] using enclosed
  binary operator lhs rhs hl hr := by
    have left := colon_notMem_enclose (enclosesLeft operator lhs) hl
    have right := colon_notMem_enclose (enclosesRight operator rhs) hr
    have symbol : ':' ∉ operator.symbol.toList := by cases operator <;> decide
    simpa [WithoutColon, text, left, right] using symbol
  call transform argument h := by
    have argument : ':' ∉ argument.text.toList := h
    have name : ':' ∉ transform.name.toList := by cases transform <;> decide
    simpa [WithoutColon, text, argument] using name

end Arith

theorem Token.WellFormed.meets_withoutColon {token : Token} (h : token.WellFormed)
    (quoted : ∀ name, token = .quoted name → ':' ∉ name.toList) :
    token.Meets Arith.WithoutColon := by
  cases token with
  | name text => exact Token.IsName.colon_notMem h
  | quoted text => exact quoted text rfl
  | number value text => exact fun member => absurd (h.2.1 ':' member) (by decide)
  | _ => trivial

namespace Tree

/-- No factor that the tree mentions has a colon in its name. -/
def WithoutColon (tree : Tree) : Prop := ∀ factor ∈ tree.factors, ':' ∉ factor.name.toList

theorem colon_notMem_polyName {source : String} (h : ':' ∉ source.toList) (raw : Bool)
    (order : ℕ) : ':' ∉ (polyName source raw order).toList := by
  have digits : ':' ∉ Nat.toDigits 10 order := fun member =>
    absurd (Nat.isDigit_of_mem_toDigits (by decide) (by decide) member) (by decide)
  unfold polyName
  split
  · split <;> simp [h, digits]
  · simp [h, digits]

theorem handedOn_withoutColon : HandedOn Arith.WithoutColon WithoutColon where
  zero := by simp [WithoutColon, factors]
  one := by simp [WithoutColon, factors]
  column h := List.forall_mem_singleton.mpr h
  arith {value} h := by
    have text : ':' ∉ value.text.toList := h
    exact List.forall_mem_singleton.mpr (by simpa [Factor.ofArith] using text)
  call _ _ h := List.forall_mem_singleton.mpr (Arith.handedOn_withoutColon.call _ h)
  poly h raw _ _ := by
    refine List.forall_mem_map.mpr fun order _ => ?_
    rw [Expansion.name_polyFactor]
    exact colon_notMem_polyName h raw order
  negate constant := by rcases constant with rfl | rfl <;> simp [WithoutColon, factors]
  binary _ _ _ hl hr := List.forall_mem_append.mpr ⟨hl, hr⟩
  power hb _ _ := hb

end Tree

namespace Term

/-- The names of the factors can be read off the name of a term. -/
theorem names_eq_of_name_eq {left right : Term} (nonemptyLeft : left.factors ≠ [])
    (nonemptyRight : right.factors ≠ [])
    (withoutLeft : ∀ factor ∈ left.factors, ':' ∉ factor.name.toList)
    (withoutRight : ∀ factor ∈ right.factors, ':' ∉ factor.name.toList)
    (same : left.name = right.name) : left.names = right.names := by
  have split {term : Term} (nonempty : term.factors ≠ [])
      (without : ∀ factor ∈ term.factors, ':' ∉ factor.name.toList) :
      term.name.toList.splitOn ':' = term.names.map String.toList := by
    have joined : term.name = String.intercalate ":" term.names := by simp [name, nonempty]
    rw [joined, String.toList_intercalate]
    refine List.splitOn_intercalate ':' ?_ (by simpa [names] using nonempty)
    simpa [names] using without
  have pieces := split nonemptyRight withoutRight
  rw [← same, split nonemptyLeft withoutLeft] at pieces
  exact List.map_injective_iff.mpr (fun _ _ => String.toList_inj.mp) pieces

end Term

namespace Formula

/-- No quoted name of the formula has a colon, so no factor on its right side has one. -/
theorem withoutColon_of_parse {text : String} {formula : Formula}
    (parsed : parse text = .ok formula) (quotes : Token.QuotesWithoutColon text) :
    formula.predictors.WithoutColon := by
  obtain ⟨placed, listed, phrase, admissible, yields, rfl⟩ := parse_eq_ok.mp parsed
  have lexes := Token.lexes_of_list listed
  rw [← yields] at lexes
  have tokens : ∀ token ∈ phrase.yield, token.Meets Arith.WithoutColon := by
    intro token member
    refine (lexes.wellFormed token member).meets_withoutColon ?_
    rintro name rfl
    exact quotes placed listed name (yields ▸ member)
  exact (phrase.meets Arith.handedOn_withoutColon Tree.handedOn_withoutColon admissible tokens).2

/-- The predictors of a description are products of factors with different names, and none of them
has the factors of another. Their names differ too, unless a quoted name has a colon. -/
theorem distinct_predictors_of_describe {text : String} {description : Description}
    (described : describe text = .ok description) :
    (∀ term ∈ description.predictors, term.factors ≠ [] ∧ term.names.Nodup) ∧
      (description.predictors.map Term.nameSet).Nodup ∧
      (Token.QuotesWithoutColon text → (description.predictors.map Term.name).Nodup) := by
  obtain ⟨formula, parsed, isParsed, terms⟩ := Description.exists_parsed described
  have positive := isParsed.ordersPositive
  rw [← terms]
  have distinct := (Tree.represents_expand positive).distinct
  refine ⟨fun term member => ?_, distinct, fun quotes => ?_⟩
  · obtain ⟨nonempty, proper, -⟩ := Tree.factors_of_mem_expand positive member
    exact ⟨nonempty, proper⟩
  · have withoutColon := withoutColon_of_parse parsed quotes
    refine List.Nodup.map_on (fun left inLeft right inRight same => ?_) distinct.of_map
    obtain ⟨nonempty, -, mentioned⟩ := Tree.factors_of_mem_expand positive inLeft
    obtain ⟨nonempty', -, mentioned'⟩ := Tree.factors_of_mem_expand positive inRight
    have names := Term.names_eq_of_name_eq nonempty nonempty'
      (fun factor inside => withoutColon factor (mentioned factor inside))
      (fun factor inside => withoutColon factor (mentioned' factor inside)) same
    have sets : left.nameSet = right.nameSet := by rw [Term.nameSet, names, Term.nameSet]
    exact List.inj_on_of_nodup_map distinct inLeft inRight sets

theorem distinct_predictors_crossed :
    Token.QuotesWithoutColon "~ a:\x60b c\x60 + \x60b c\x60 * a" ∧
      ∃ description, describe "~ a:\x60b c\x60 + \x60b c\x60 * a" = .ok description ∧
        description.predictors.map Term.name = ["a:b c", "b c", "a"] ∧
        (description.predictors.map Term.name).Nodup := by
  have quotes : Token.QuotesWithoutColon "~ a:\x60b c\x60 + \x60b c\x60 * a" := by
    intro placed listed name member
    obtain ⟨others, listed', tokens⟩ := Outcomes.exists_of_toOption (f := List.map Placed.token)
      (x := Token.list "~ a:\x60b c\x60 + \x60b c\x60 * a")
      (b := [.tilde, .name "a", .colon, .quoted "b c", .plus, .quoted "b c", .star, .name "a"])
      (by decide +kernel)
    obtain rfl : placed = others := Except.ok.inj (listed.symm.trans listed')
    obtain rfl : name = "b c" := by simpa [tokens] using member
    decide
  obtain ⟨description, described, names⟩ := Outcomes.exists_of_toOption
    (x := describe "~ a:\x60b c\x60 + \x60b c\x60 * a")
    (f := fun description => description.predictors.map Term.name)
    (b := ["a:b c", "b c", "a"]) (by decide +kernel)
  exact ⟨quotes, description, described, names,
    (distinct_predictors_of_describe described).2.2 quotes⟩

/-- A quoted name with a colon may be the name of a product. -/
example : (describe "~ \x60a:b\x60 + a:b").toOption.map
    (fun description => description.predictors.map Term.name) = some ["a:b", "a:b"] := by
  decide +kernel

end Formula

end DesignMatrix
