import DesignMatrix.Proofs.BasisDegrees
import DesignMatrix.Proofs.DenseExports
import DesignMatrix.Proofs.ElementwiseTerms

/-!
# Orders of generated polynomial columns

The degree of `poly` is bounded when it is read, and every order that it generates is one from `1`
up to this degree. Expansion makes no further factors, so a column of a basis in a described term is
always among the columns of its basis, and the literal of a raw power is as if it had been read.
-/

namespace DesignMatrix

open Outcomes

namespace Arith

/-- An expression that another one is made of, the other one itself included. -/
inductive Inside (part : Arith) : Arith → Prop
  | self : Inside part part
  | negate {operand : Arith} (h : Inside part operand) : Inside part (.negate operand)
  | left (operator : Operator) {lhs : Arith} (rhs : Arith) (h : Inside part lhs) :
      Inside part (.binary operator lhs rhs)
  | right (operator : Operator) (lhs : Arith) {rhs : Arith} (h : Inside part rhs) :
      Inside part (.binary operator lhs rhs)
  | call (transform : Transform) {argument : Arith} (h : Inside part argument) :
      Inside part (.call transform argument)

theorem Lexed.of_inside {part whole : Arith} (lexed : whole.Lexed) (inside : part.Inside whole) :
    part.Lexed := by
  induction inside with
  | self => exact lexed
  | negate h ih => exact ih lexed
  | left operator rhs h ih => exact ih lexed.1
  | right operator lhs h ih => exact ih lexed.2
  | call transform h ih => exact ih lexed

/-- Every column of a basis inside the expression is one of that basis, of a degree that `poly`
takes. -/
def BasesBounded (whole : Arith) : Prop :=
  ∀ {source : String} {degree order : ℕ}, (Arith.basis source degree order).Inside whole →
    1 ≤ order ∧ order ≤ degree ∧ degree ≤ maxPolyDegree

theorem Lexed.basesBounded {whole : Arith} (lexed : whole.Lexed) : whole.BasesBounded :=
  fun inside => absurd (lexed.of_inside inside) id

theorem basesBounded_basis {source : String} {degree order : ℕ} (positive : 1 ≤ order)
    (within : order ≤ degree) (bounded : degree ≤ maxPolyDegree) :
    (Arith.basis source degree order).BasesBounded := by
  intro source' degree' order' inside
  cases inside
  exact ⟨positive, within, bounded⟩

end Arith

/-- An order above the first has a text that reads as the order. -/
theorem reads_of_order {order : ℕ} (beyond : 2 ≤ order) (bounded : order ≤ maxPolyDegree) :
    double? (toString order).toList = some (Float.ofNat order) ∧
      natural? (Float.ofNat order) = some order := by
  have all : ∀ order ∈ List.range' 2 31,
      double? (toString order).toList = some (Float.ofNat order) ∧
        natural? (Float.ofNat order) = some order := by decide +kernel
  refine all order (List.mem_range'_1.mpr ⟨beyond, ?_⟩)
  simp only [maxPolyDegree] at bounded
  omega

namespace Factor

/-- The factor is a power of a column by a number, and not one that is written as `I(...)`. -/
def IsRawPower (factor : Factor) (source : String) (value : Float) (text : String) : Prop :=
  factor.value = .binary .power (.column source) (.number value text) ∧
    factor ≠ .ofArith factor.value

/-- The orders of the polynomials that a factor is made of are in their bounds, and the exponent of
a raw power is as if it had been read. -/
structure WithinOrders (factor : Factor) : Prop where
  bases : factor.value.BasesBounded
  powers {source : String} {value : Float} {text : String}
    (h : factor.IsRawPower source value text) : double? text.toList = some value ∧
      ∃ order, natural? value = some order ∧ 2 ≤ order ∧ order ≤ maxPolyDegree

namespace WithinOrders

theorem ofLexed {factor : Factor} (lexed : factor.value.Lexed)
    (notPower : ∀ source value text, ¬factor.IsRawPower source value text) :
    factor.WithinOrders :=
  ⟨lexed.basesBounded, fun h => absurd h (notPower _ _ _)⟩

theorem ofColumn (source : String) : (Factor.ofColumn source).WithinOrders := by
  refine ofLexed trivial ?_
  rintro source value text ⟨power, -⟩
  cases power

theorem ofArith {value : Arith} (lexed : value.Lexed) :
    (Factor.ofArith value).WithinOrders :=
  ofLexed lexed fun _ _ _ h => h.2 rfl

theorem ofCall (transform : Transform) {argument : Arith} (lexed : argument.Lexed) :
    (Factor.ofCall transform argument).WithinOrders := by
  refine ofLexed lexed ?_
  rintro source value text ⟨power, -⟩
  cases power

theorem basisColumn (source : String) {degree order : ℕ} (positive : 1 ≤ order)
    (within : order ≤ degree) (bounded : degree ≤ maxPolyDegree) :
    (Expansion.basisColumn source degree order).WithinOrders where
  bases := Arith.basesBounded_basis positive within bounded
  powers h := by cases h.1

theorem rawPower (source : String) {order : ℕ} (positive : 1 ≤ order)
    (bounded : order ≤ maxPolyDegree) : (Expansion.rawPower source order).WithinOrders := by
  obtain rfl | beyond := Nat.eq_or_lt_of_le positive
  · exact ofColumn source
  have isPower : Expansion.rawPower source order = ⟨source ++ "_" ++ toString order,
      .binary .power (.column source) (.number (Float.ofNat order) (toString order))⟩ :=
    if_neg (by omega)
  obtain ⟨reads, natural⟩ := reads_of_order beyond bounded
  rw [isPower]
  refine ⟨fun inside => ?_, fun h => ?_⟩
  · cases inside with
    | left _ _ h => cases h
    | right _ _ h => cases h
  · cases h.1
    exact ⟨reads, order, natural, beyond, bounded⟩

end WithinOrders

end Factor

/-- Every factor that a tree of the parser mentions is within its orders. -/
theorem Tree.Parsed.withinOrders {tree : Tree} (h : tree.Parsed) :
    ∀ factor ∈ tree.factors, factor.WithinOrders := by
  induction h with
  | zero | one => simp [factors]
  | column source => exact List.forall_mem_singleton.mpr (.ofColumn source)
  | arith lexed => exact List.forall_mem_singleton.mpr (.ofArith lexed)
  | call transform lexed =>
    exact List.forall_mem_singleton.mpr (.ofCall transform lexed)
  | @poly source degree raw positive bounded =>
    intro factor member
    obtain ⟨order, inside, rfl⟩ := List.mem_map.mp member
    rw [List.mem_range'_1] at inside
    cases raw with
    | true => exact .rawPower source inside.1 (by omega)
    | false => exact .basisColumn source inside.1 (by omega) bounded
  | negate constant => rcases constant with rfl | rfl <;> simp [factors]
  | binary connective hl hr ihl ihr => exact List.forall_mem_append.mpr ⟨ihl, ihr⟩
  | power hb positive bounded ih => exact ih

theorem Formula.withinOrders_of_parse {text : String} {formula : Formula}
    (parsed : parse text = .ok formula) : ∀ factor ∈ formula.factors, factor.WithinOrders := by
  intro factor member
  obtain ⟨side, isSide, mentioned⟩ := List.mem_flatMap.mp member
  exact (parsed_of_mem_sides parsed isSide).withinOrders factor mentioned

/-- Where there is a basis of the degree, the column that is made of an order of it is the one of
that order, cell by cell. -/
theorem exists_basisColumn_eq {height degree order : ℕ} {series : Series height}
    {values : List Float} {basis : List (List Float)} (positive : 1 ≤ order)
    (within : order ≤ degree) (present : series.doubles = values.map some)
    (hasBasis : Basis.columns values degree = .ok basis) :
    ∃ column, basis[order - 1]? = some column ∧ ∃ made : Series height,
      basisColumn series degree order = .ok made ∧ made.name = series.name ∧
        made.type = .float64 ∧ made.doubles = column.map some := by
  have listed := Basis.getElem?_columns hasBasis positive within
  have length : (Basis.columnOf values order).length = height := by
    rw [Basis.length_of_mem_columns hasBasis (List.mem_of_getElem? listed)]
    exact (Column.doubles_eq_iff.mp present).1
  have picked : Basis.column values degree order = .ok (Basis.columnOf values order) :=
    map_eq_ok.mpr ⟨basis, hasBasis, by rw [listed, Option.getD_some]⟩
  have all : series.doubles.mapM id = some values := by
    rw [present, List.mapM_map]
    exact (List.mapM_pure (m := Option) (f := id)).trans (congrArg some (List.map_id values))
  have made : basisColumn series degree order = .ok ⟨⟨.float64, .each (Vector.ofFn fun i =>
      some (((Basis.columnOf values order)[i.val]?).getD 0))⟩, series.name⟩ := by
    simp only [basisColumn, all, picked]
    rfl
  refine ⟨_, listed, _, made, rfl, rfl, Column.doubles_eq_iff.mpr ⟨length, fun row => ?_⟩⟩
  have inside : row.val < (Basis.columnOf values order).length := length.symm ▸ row.isLt
  exact ⟨(Basis.columnOf values order)[row.val], _, by simp [Cells.get, inside], rfl,
    List.getElem?_eq_getElem inside⟩

namespace Description

/-- In every factor of a described term, the exponent of a raw power is a literal that reads as an
order from `2` up to the highest degree, and a column of a basis is one of its basis. So it has the
cells of this column wherever there is the basis, also without rows, and never zeros instead. -/
theorem picked_of_describe {text : String} {description : Description}
    (described : describe text = .ok description) {term : Term}
    (isTerm : term ∈ description.terms) {factor : Factor} (isFactor : factor ∈ term.factors) :
    (∀ (source : String) (value : Float) (literal : String),
      factor.IsRawPower source value literal → double? literal.toList = some value ∧
        ∃ order, natural? value = some order ∧ 2 ≤ order ∧ order ≤ maxPolyDegree) ∧
    ∀ (source : String) (degree order : ℕ), (Arith.basis source degree order).Inside factor.value →
      (1 ≤ order ∧ order ≤ degree ∧ degree ≤ maxPolyDegree) ∧
      (∀ (height : ℕ) (series : Series height) (values : List Float) (basis : List (List Float)),
        series.doubles = values.map some → Basis.columns values degree = .ok basis →
        ∃ column, basis[order - 1]? = some column ∧ ∃ made : Series height,
          basisColumn series degree order = .ok made ∧ made.name = series.name ∧
            made.type = .float64 ∧ made.doubles = column.map some) ∧
      ∃ basis, Basis.columns [] degree = .ok basis ∧ basis[order - 1]? = some [] := by
  obtain ⟨formula, parsed, described⟩ := bind_eq_ok.mp described
  have mentioned := Formula.mem_factors_of_describe described isTerm factor isFactor
  have within := Formula.withinOrders_of_parse parsed factor mentioned
  refine ⟨fun source value literal => within.powers, fun source degree order inside => ?_⟩
  obtain ⟨positive, below, bounded⟩ := within.bases inside
  refine ⟨⟨positive, below, bounded⟩, fun height series values basis => ?_, ?_⟩
  · exact exists_basisColumn_eq positive below
  · have below' : order - 1 < degree := by omega
    exact ⟨List.replicate degree [], rfl, by simp [below']⟩

/-- The second of two orthogonal columns and the third raw power, inside products. -/
theorem picked_interacted :
    ∃ description, describe "y ~ z:poly(x, 2) + w:poly(z, 3, raw = TRUE)" = .ok description ∧
      (∃ term ∈ description.terms, Expansion.rawPower "z" 3 ∈ term.factors ∧
        double? "3".toList = some 3 ∧
          ∃ order, natural? 3 = some order ∧ 2 ≤ order ∧ order ≤ maxPolyDegree) ∧
      ∃ term ∈ description.terms, Expansion.basisColumn "x" 2 2 ∈ term.factors ∧
        ∃ basis column, Basis.columns [0, 1, 3] 2 = .ok basis ∧ basis[1]? = some column ∧
          ∃ made : Series 3,
            basisColumn ⟨⟨.float64, .each #v[some 0, some 1, some 3]⟩, "x"⟩ 2 2 = .ok made ∧
              made.name = "x" ∧ made.type = .float64 ∧ made.doubles = column.map some := by
  obtain ⟨description, described, shown⟩ : ∃ description,
      describe "y ~ z:poly(x, 2) + w:poly(z, 3, raw = TRUE)" = .ok description ∧
        description.terms.map Term.factors = [[.ofColumn "y"],
          [.ofColumn "z", Expansion.basisColumn "x" 2 1],
          [.ofColumn "z", Expansion.basisColumn "x" 2 2], [.ofColumn "w", .ofColumn "z"],
          [.ofColumn "w", Expansion.rawPower "z" 2],
          [.ofColumn "w", Expansion.rawPower "z" 3]] := exists_of_toOption (by decide +kernel)
  have listed {factors : List Factor} (member : factors ∈ description.terms.map Term.factors) :
      ∃ term ∈ description.terms, term.factors = factors := List.mem_map.mp member
  obtain ⟨raw, isRaw, rawFactors⟩ :=
    @listed [.ofColumn "w", Expansion.rawPower "z" 3] (by simp [shown])
  obtain ⟨orthogonal, isOrthogonal, orthogonalFactors⟩ :=
    @listed [.ofColumn "z", Expansion.basisColumn "x" 2 2] (by simp [shown])
  have cubed : Expansion.rawPower "z" 3 ∈ raw.factors := by simp [rawFactors]
  have second : Expansion.basisColumn "x" 2 2 ∈ orthogonal.factors := by simp [orthogonalFactors]
  have isRawPower : (Expansion.rawPower "z" 3).IsRawPower "z" 3 "3" :=
    ⟨by decide +kernel, by decide +kernel⟩
  have hasBasis : Basis.columns [0, 1, 3] 2 = .ok _ :=
    Basis.columns_of_sorted (by decide +kernel) (by decide +kernel)
  obtain ⟨-, picks, -⟩ := (picked_of_describe described isOrthogonal second).2 "x" 2 2 .self
  obtain ⟨column, found, made⟩ :=
    picks 3 ⟨⟨.float64, .each #v[some 0, some 1, some 3]⟩, "x"⟩ [0, 1, 3] _ rfl hasBasis
  exact ⟨description, described,
    ⟨raw, isRaw, cubed, (picked_of_describe described isRaw cubed).1 "z" 3 "3" isRawPower⟩,
    orthogonal, isOrthogonal, second, _, column, hasBasis, found, made⟩

end Description

end DesignMatrix
