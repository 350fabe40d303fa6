import DesignMatrix.Proofs.DescriptionText

/-!
# Elementwise terms

A formula that is written without `poly` has terms that are made of columns, numbers, operators and
functions alone. The expression that such a term stands for reads the columns of its factors.
-/

namespace DesignMatrix

open Outcomes

/-- The names of the columns that an expression reads. -/
def Arith.sources : Arith → List String
  | .column name => [name]
  | .number _ _ => []
  | .negate operand => operand.sources
  | .binary _ lhs rhs => lhs.sources ++ rhs.sources
  | .call _ argument => argument.sources
  | .basis source _ _ => [source]

/-- The names of the columns that the factors of a term read. -/
def Term.sources (term : Term) : List String := term.factors.flatMap fun factor =>
  factor.value.sources

namespace Expr

/-- The expression is made of named columns, numbers, operators and functions. -/
def Elementwise : Expr → Prop
  | .column _ | .literal _ => True
  | .renamed _ operand => operand.Elementwise
  | .binary _ lhs rhs => lhs.Elementwise ∧ rhs.Elementwise
  | .call _ argument => argument.Elementwise
  | .position _ | .basis _ _ _ => False

/-- The names of the columns that an expression reads, if it reads none by position. -/
def sources : Expr → List String
  | .column name | .basis name _ _ => [name]
  | .literal _ | .position _ => []
  | .renamed _ operand => operand.sources
  | .binary _ lhs rhs => lhs.sources ++ rhs.sources
  | .call _ argument => argument.sources

theorem hasWildcard_iff (expr : Expr) : expr.hasWildcard = true ↔ wildcard ∈ expr.sources := by
  induction expr with
  | column name | basis name => simp [hasWildcard, sources, eq_comm]
  | literal | position => simp [hasWildcard, sources]
  | renamed _ operand ih | call _ operand ih => exact ih
  | binary operator lhs rhs ihl ihr => simp [hasWildcard, sources, ihl, ihr]

theorem sources_withColumn (name : String) (expr : Expr) :
    (expr.withColumn name).sources =
      expr.sources.map fun source => if source = wildcard then name else source := by
  induction expr with
  | column source | basis source => rfl
  | literal | position => rfl
  | renamed _ operand ih | call _ operand ih => exact ih
  | binary operator lhs rhs ihl ihr => simp [withColumn, sources, ihl, ihr]

theorem Elementwise.withColumn {expr : Expr} (h : expr.Elementwise) (name : String) :
    (expr.withColumn name).Elementwise := by
  induction expr with
  | column | literal => trivial
  | position | basis => exact h
  | renamed _ operand ih | call _ operand ih => exact ih h
  | binary operator lhs rhs ihl ihr => exact ⟨ihl h.1, ihr h.2⟩

/-- What products keep holds of a product if it holds of the factors. -/
theorem product_induction {p : Expr → Prop} (one : p (.literal 1))
    (multiply : ∀ lhs rhs, p lhs → p rhs → p (.binary .multiply lhs rhs)) {exprs : List Expr}
    (h : ∀ expr ∈ exprs, p expr) : p (product exprs) := by
  have ofRest (rest : List Expr) : ∀ first, p first → (∀ expr ∈ rest, p expr) →
      p (rest.foldl (.binary .multiply) first) := by
    induction rest with
    | nil => exact fun _ first _ => first
    | cons next rest ih =>
      intro first holds others
      obtain ⟨head, tail⟩ := List.forall_mem_cons.mp others
      exact ih _ (multiply first next holds head) tail
  cases exprs with
  | nil => exact one
  | cons first rest =>
    obtain ⟨head, tail⟩ := List.forall_mem_cons.mp h
    exact ofRest rest first head tail

/-- A product is elementwise if its factors are. -/
theorem Elementwise.product {exprs : List Expr} (h : ∀ expr ∈ exprs, expr.Elementwise) :
    (Expr.product exprs).Elementwise :=
  product_induction trivial (fun _ _ left right => ⟨left, right⟩) h

theorem sources_foldl (first : Expr) (rest : List Expr) :
    (rest.foldl (.binary .multiply) first).sources = first.sources ++ rest.flatMap sources := by
  induction rest generalizing first with
  | nil => simp
  | cons next rest ih => simp [ih, sources]

theorem sources_product (exprs : List Expr) :
    (Expr.product exprs).sources = exprs.flatMap sources := by
  cases exprs with
  | nil => rfl
  | cons first rest => exact sources_foldl first rest

theorem sources_ofArith (arith : Arith) : (ofArith arith).sources = arith.sources := by
  induction arith with
  | column | number | basis => rfl
  | negate operand ih => simp [ofArith, sources, Arith.sources, ih]
  | call _ operand ih => exact ih
  | binary operator lhs rhs ihl ihr => simp [ofArith, sources, Arith.sources, ihl, ihr]

theorem sources_ofTerm (term : Term) : (ofTerm term).sources = term.sources := by
  simp [ofTerm, sources, sources_product, Term.sources, List.flatMap_map, sources_ofArith]

theorem elementwise_ofArith {arith : Arith} (lexed : arith.Lexed) :
    (ofArith arith).Elementwise := by
  induction arith with
  | column | number => trivial
  | negate operand ih => exact ⟨ih lexed, trivial⟩
  | binary operator lhs rhs ihl ihr => exact ⟨ihl lexed.1, ihr lexed.2⟩
  | call _ argument ih => exact ih lexed
  | basis => exact lexed

end Expr

/-- The expression of every factor that a tree without `poly` mentions is elementwise. -/
theorem Tree.Parsed.elementwise {tree : Tree} (h : tree.Parsed) (withoutPoly : tree.WithoutPoly) :
    ∀ f ∈ tree.factors, (Expr.ofArith f.value).Elementwise := by
  induction h with
  | zero | one => simp [factors]
  | column => simp [factors, Factor.ofColumn, Expr.ofArith, Expr.Elementwise]
  | arith lexed => exact List.forall_mem_singleton.mpr (Expr.elementwise_ofArith lexed)
  | @call transform argument lexed =>
    have elementwise : (Expr.ofArith (.call transform argument)).Elementwise :=
      Expr.elementwise_ofArith lexed
    exact List.forall_mem_singleton.mpr elementwise
  | poly => exact withoutPoly.elim
  | negate constant => rcases constant with rfl | rfl <;> simp [factors]
  | binary connective _ _ ihl ihr =>
    exact List.forall_mem_append.mpr ⟨ihl withoutPoly.1, ihr withoutPoly.2⟩
  | power _ _ _ ih => exact ih withoutPoly

/-- The terms that a description has on both sides. -/
def Description.terms (description : Description) : List Term :=
  description.response.toList ++ description.predictors

namespace Formula

/-- The terms of a description are made of the factors that the formula mentions. -/
theorem mem_factors_of_describe {formula : Formula} {description : Description}
    (described : Description.ofFormula formula = .ok description) {term : Term}
    (member : term ∈ description.terms) : ∀ factor ∈ term.factors, factor ∈ formula.factors := by
  obtain ⟨response, predictors, -⟩ := Description.ofFormula_eq_ok.mp described
  have ofSide {side : Tree} (isSide : side ∈ formula.sides) (isTerm : term ∈ side.expand.terms) :
      ∀ factor ∈ term.factors, factor ∈ formula.factors := fun factor inside =>
    List.mem_flatMap.mpr ⟨side, isSide, (side.builtFrom_expand term isTerm).2 factor inside⟩
  rcases List.mem_append.mp member with left | right
  · obtain ⟨side, isSide, isTerm⟩ := Description.mem_response response (by simpa using left)
    exact ofSide (List.mem_append_left _ (by simpa using isSide)) isTerm
  · exact ofSide (List.mem_append_right _ (List.mem_singleton_self _)) (predictors ▸ right)

theorem elementwise_of_parse {text : String} {formula : Formula}
    (parsed : parse text = .ok formula) (withoutPoly : formula.WithoutPoly) :
    ∀ f ∈ formula.factors, (Expr.ofArith f.value).Elementwise := by
  intro f member
  obtain ⟨side, isSide, mentioned⟩ := List.mem_flatMap.mp member
  exact (parsed_of_mem_sides parsed isSide).elementwise (withoutPoly side isSide) f mentioned

/-- Every term that a formula without `poly` describes stands for an elementwise expression. -/
theorem elementwise_of_describe {text : String} {formula : Formula} {description : Description}
    (parsed : parse text = .ok formula) (withoutPoly : formula.WithoutPoly)
    (described : Description.ofFormula formula = .ok description) {term : Term}
    (member : term ∈ description.terms) : (Expr.ofTerm term).Elementwise := by
  refine Expr.Elementwise.product fun expr isExpr => ?_
  obtain ⟨factor, inside, rfl⟩ := List.mem_map.mp isExpr
  exact elementwise_of_parse parsed withoutPoly factor
    (mem_factors_of_describe described member factor inside)

end Formula

end DesignMatrix
