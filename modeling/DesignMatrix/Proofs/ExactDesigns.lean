import DesignMatrix.Proofs.DescriptionText
import DesignMatrix.Proofs.DesignContract
import DesignMatrix.Proofs.ExactTerms

/-!
# Designs of integers

A design shows the exact numbers of its terms wherever their parts are integers that their types
hold. In a frame of 64-bit columns these are all integers of magnitude at most `2 ^ 53`. In a frame
of narrower columns they are not: a product of two columns stays in their type.
-/

namespace DesignMatrix

open Outcomes

section Wide

/-- A result of the type can be any integer of magnitude at most `2 ^ 53`. -/
def ResultType.isWide (type : ResultType) : Bool := type = .loose || type = .fixed .int64

theorem ResultType.holds_of_isWide {type : ResultType} (wide : type.isWide) {n : ℤ}
    (small : |n| ≤ 2 ^ 53) : type.element.Holds n := by
  simp only [isWide, Bool.or_eq_true, decide_eq_true_eq] at wide
  rcases wide with rfl | rfl <;> exact ⟨small, trivial⟩

theorem Operator.exists_sharedType?_isWide {operator : Operator} {left right : ResultType}
    {a b c : ℚ} (result : operator.onNumbers? a b = some c) (hl : left.isWide)
    (hr : right.isWide) : ∃ shared, operator.sharedType? left right = some shared ∧
      shared.isWide := by
  simp only [ResultType.isWide, Bool.or_eq_true, decide_eq_true_eq] at hl hr
  cases operator with
  | divide | power => cases result
  | add | subtract | multiply =>
    rcases hl with rfl | rfl <;> rcases hr with rfl | rfl <;> exact ⟨_, rfl, rfl⟩

/-- All integers of the frame have 64 bits. -/
def Frame.IsWide (frame : Frame) : Prop := ∀ series ∈ frame.columns, series.type = .int64

variable {frame : Frame} {row : Fin frame.height}

/-- The value of the expression has a wide type. -/
def Expr.IsWide (frame : Frame) (expr : Expr) : Prop :=
  ∃ type, expr.typeOn frame = .ok type ∧ type.isWide

theorem Expr.IsWide.binary {operator : Operator} {lhs rhs : Expr} {a b c : ℚ}
    (result : operator.onNumbers? a b = some c) (hl : lhs.IsWide frame) (hr : rhs.IsWide frame) :
    (Expr.binary operator lhs rhs).IsWide frame := by
  obtain ⟨left, typedl, widel⟩ := hl
  obtain ⟨right, typedr, wider⟩ := hr
  obtain ⟨shared, found, wide⟩ := operator.exists_sharedType?_isWide result widel wider
  exact ⟨shared, by simp [typeOn, typedl, typedr, bind, Except.bind, found], wide⟩

theorem Expr.IsWide.multiply {lhs rhs : Expr} (hl : lhs.IsWide frame) (hr : rhs.IsWide frame) :
    (Expr.binary .multiply lhs rhs).IsWide frame :=
  .binary (show Operator.multiply.onNumbers? 1 1 = some _ from rfl) hl hr

theorem Expr.isWide_literal (value : Float) : (Expr.literal value).IsWide frame :=
  ⟨.loose, rfl, rfl⟩

theorem Arith.isWide (wide : frame.IsWide) {value : Arith} {q : ℚ}
    (number : value.number? (frame.numberAt? row) = some q) :
    (Expr.ofArith value).IsWide frame := by
  induction value generalizing q with
  | column name =>
    simp only [number?, Frame.numberAt?] at number
    split at number
    · cases number
    · obtain ⟨series, found, -⟩ := Option.bind_eq_some_iff.mp number
      have int64 := wide series (List.mem_of_find?_eq_some found)
      refine ⟨.fixed series.type, ?_, by simp [ResultType.isWide, int64]⟩
      simp [Expr.ofArith, Expr.typeOn, Expr.readColumn_eq_ok.mpr found, Except.map]
  | number value text => exact Expr.isWide_literal value
  | negate operand ih =>
    obtain ⟨x, number, -⟩ := Option.map_eq_some_iff.mp number
    exact (ih number).multiply (Expr.isWide_literal (-1))
  | binary operator lhs rhs ihl ihr =>
    obtain ⟨x, left, number⟩ := Option.bind_eq_some_iff.mp number
    obtain ⟨y, right, number⟩ := Option.bind_eq_some_iff.mp number
    exact .binary number (ihl left) (ihr right)
  | call transform argument => cases number
  | basis source degree order => cases number

theorem Expr.isWide_product {exprs : List Expr} (wide : ∀ expr ∈ exprs, expr.IsWide frame) :
    (Expr.product exprs).IsWide frame := by
  induction exprs using List.reverseRecOn with
  | nil => exact isWide_literal 1
  | append_singleton exprs expr ih =>
    by_cases single : exprs = []
    · subst single
      exact wide expr (by simp)
    · rw [Term.product_append_singleton single]
      have initial := ih fun expr member => wide expr (List.mem_append_left _ member)
      exact initial.multiply (wide expr (by simp))

/-- In a frame of 64-bit integers, only the magnitude of the parts matters. -/
theorem Term.IntegralAt.fitsAt {term : Term} (wide : frame.IsWide)
    (integral : term.IntegralAt frame row) : term.FitsAt frame row := by
  intro part member
  obtain ⟨n, number, small⟩ := integral part member
  have wideFactor : ∀ factor ∈ term.factors, ∀ value ∈ factor.value.parts,
      (Expr.ofArith value).IsWide frame := by
    intro factor isFactor value isPart
    obtain ⟨m, number, -⟩ := integral (_, _) (List.mem_append_left _ (List.mem_flatMap.mpr
      ⟨factor, isFactor, List.mem_map_of_mem isPart⟩))
    exact Arith.isWide wide number
  have widePart : part.1.IsWide frame := by
    rcases List.mem_append.mp member with ofFactor | ofProduct
    · obtain ⟨factor, isFactor, isPart⟩ := List.mem_flatMap.mp ofFactor
      obtain ⟨value, isValue, rfl⟩ := List.mem_map.mp isPart
      exact wideFactor factor isFactor value isValue
    · obtain ⟨leading, isLeading, rfl⟩ := List.mem_map.mp ofProduct
      have isPrefix := (List.mem_inits _ _).mp (List.mem_of_mem_tail isLeading)
      refine Expr.isWide_product fun expr isExpr => ?_
      obtain ⟨factor, isFactor, rfl⟩ := List.mem_map.mp isExpr
      exact wideFactor factor (isPrefix.subset isFactor) _ (Arith.mem_parts_self _)
  obtain ⟨type, typed, isWide⟩ := widePart
  exact ⟨type, n, typed, number, ResultType.holds_of_isWide isWide small⟩

end Wide

/-- A design shows exact numbers wherever the terms of its formula fit. -/
theorem Design.build_shownExactly {config : Config} {frame : Frame} {formula : String}
    {design : Design} (inhabited : frame.columns ≠ [])
    (plainResponse : config.responseName ≠ Expr.wildcard)
    (plain : ∀ parsed, standardParser formula = .ok parsed →
      Expr.wildcard ∉ labels config parsed)
    (built : build standardParser config frame formula = .ok design) :
    ∃ description, describe formula = .ok description ∧
      (∃ term column, description.response = some term ∧ term.ShownExactly frame column ∧
        (⟨design.height, design.response⟩ : (height : ℕ) × Series height) =
          ⟨frame.height, column.written, config.responseName⟩) ∧
      ∃ ones predictors : List (Series frame.height),
        design.matrix.IsTable (ones ++ predictors) ∧
        List.Forall₂ (fun term series => term.ShownExactly frame series.toColumn)
          description.predictors predictors := by
  obtain ⟨-, parsed, parses, -, fulfils⟩ := (build_eq_ok inhabited plainResponse plain).mp built
  obtain ⟨description, described, rfl⟩ := map_eq_ok.mp parses
  obtain ⟨expr, column, given, yields, same⟩ := fulfils.response
  obtain ⟨ones, predictors, table, -, -, shown⟩ := fulfils.matrix
  refine ⟨description, described, ?_, ones, predictors, table, ?_⟩
  · obtain ⟨term, isTerm, rfl⟩ := Option.map_eq_some_iff.mp given
    exact ⟨term, column, isTerm, Term.shownExactly_of_yields yields, same⟩
  · simp only [ParsedFormula.ofDescription, List.forall₂_map_left_iff] at shown
    exact shown.imp fun term series yields => Term.shownExactly_of_yields yields

/-- The numbers of a frame, column by column. -/
def Frame.numbers (frame : Frame) : List (String × List (Option ℚ)) :=
  frame.columns.map fun series =>
    (series.name, (List.finRange frame.height).map fun row => series.numberAt? row)

namespace Design

/-- A row of the same number, in columns of which `a` and `b` are too narrow for its square. -/
def hundredThousands : Frame where
  height := 1
  columns := [⟨⟨.int64, .each #v[some 1]⟩, "y"⟩, ⟨⟨.int32, .each #v[some 100000]⟩, "a"⟩,
    ⟨⟨.int32, .each #v[some 100000]⟩, "b"⟩, ⟨⟨.int64, .each #v[some 100000]⟩, "c"⟩]
  distinct := by decide

theorem build_shownExactly_hundredThousands :
    ∃ design, build standardParser .standard hundredThousands "y ~ a:c" = .ok design ∧
      ∃ ones product : List (Series hundredThousands.height),
        design.matrix.IsTable (ones ++ product) ∧
        product.map (fun series => series.numberAt? ⟨0, Nat.one_pos⟩) = [some 10000000000] := by
  obtain ⟨design, built, -⟩ : ∃ design, build standardParser .standard hundredThousands "y ~ a:c" =
      .ok design ∧ design.matrix.names = ["Intercept", "a:c"] :=
    exists_of_toOption (by decide +kernel)
  have plain : ∀ parsed, standardParser "y ~ a:c" = .ok parsed →
      Expr.wildcard ∉ labels .standard parsed := by
    intro parsed parses
    have avoids : (standardParser "y ~ a:c").toOption.all
        (fun parsed => Expr.wildcard ∉ labels .standard parsed) = true := by decide +kernel
    simpa using forall_of_toOption avoids parsed parses
  obtain ⟨description, described, -, ones, predictors, table, shown⟩ :=
    build_shownExactly (by decide) (by decide) plain built
  obtain ⟨_, described', terms⟩ : ∃ description, describe "y ~ a:c" = .ok description ∧
      description.predictors = [⟨[.ofColumn "a", .ofColumn "c"]⟩] :=
    exists_of_toOption (by decide +kernel)
  obtain rfl := Except.ok.inj (described'.symm.trans described)
  rw [terms] at shown
  obtain ⟨product, _, exact, none, rfl⟩ := List.forall₂_cons_left_iff.mp shown
  obtain rfl := List.forall₂_nil_left_iff.mp none
  have number := exact ⟨0, Nat.one_pos⟩ (by decide +kernel)
  refine ⟨design, built, ones, _, table, ?_⟩
  rw [List.map_singleton, number]
  decide +kernel

theorem product_of_int32_wraps :
    (∀ row, Term.IntegralAt hundredThousands row ⟨[.ofColumn "a", .ofColumn "b"]⟩ ∧
      Term.number? (hundredThousands.numberAt? row) ⟨[.ofColumn "a", .ofColumn "b"]⟩ =
        some 10000000000) ∧
    ∃ design, build standardParser .standard hundredThousands "y ~ a:b" = .ok design ∧
      design.matrix.numbers = [("Intercept", [some 1]), ("a:b", [some 1410065408])] :=
  ⟨by decide +kernel, exists_of_toOption (by decide +kernel)⟩

end Design

end DesignMatrix
