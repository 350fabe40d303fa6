import Mathlib.Data.List.Infix
import DesignMatrix.Proofs.CellRows
import DesignMatrix.Proofs.Evaluation
import DesignMatrix.Proofs.ExactCells

/-!
# Terms of integers

In exact arithmetic, a term without quotients, powers and transforms has a number in every row. The
column that the term yields stands for this number wherever the term and all its parts are integers
that their types hold.
-/

namespace DesignMatrix

open Outcomes

/-- The number that the cell in a row stands for. -/
def Column.numberAt? {height : ℕ} (column : Column height) (row : Fin height) : Option ℚ :=
  (column.cells.get row).bind column.type.number?

/-- The number in a row of a column. The wildcard names no column of its own. -/
def Frame.numberAt? (frame : Frame) (row : Fin frame.height) (name : String) : Option ℚ :=
  if name = Expr.wildcard then none
  else (frame.column? name).bind fun series => series.numberAt? row

namespace Arith

/-- The number that an expression is in exact arithmetic, given those of the columns. -/
def number? (columns : String → Option ℚ) : Arith → Option ℚ
  | .column name => columns name
  | .number value _ => Double.number? value
  | .negate operand => (operand.number? columns).map (-·)
  | .binary operator lhs rhs =>
    liftCells operator.onNumbers? (lhs.number? columns) (rhs.number? columns)
  | .call _ _ | .basis _ _ _ => none

/-- The expressions that an expression is made of, with itself. -/
def parts : Arith → List Arith
  | .negate operand => .negate operand :: operand.parts
  | .binary operator lhs rhs => .binary operator lhs rhs :: (lhs.parts ++ rhs.parts)
  | expr => [expr]

end Arith

/-- The number is an integer, and the type of the expression holds it. -/
def Expr.Holds (frame : Frame) (expr : Expr) (number : Option ℚ) : Prop :=
  ∃ type, ∃ n : ℤ, expr.typeOn frame = .ok type ∧ number = some (n : ℚ) ∧ type.element.Holds n

namespace Term

/-- The product of the factors in exact arithmetic. -/
def number? (columns : String → Option ℚ) (term : Term) : Option ℚ :=
  (term.factors.mapM fun factor : Factor => factor.value.number? columns).map List.prod

/--
The expressions that a term is made of with their numbers: the parts of its factors, and the
products of its leading factors.
-/
def parts (columns : String → Option ℚ) (term : Term) : List (Expr × Option ℚ) :=
  (term.factors.flatMap fun factor =>
    factor.value.parts.map fun part => (.ofArith part, part.number? columns)) ++
  term.factors.inits.tail.map fun leading => (.ofTerm ⟨leading⟩, number? columns ⟨leading⟩)

/-- In a row, every part of a term is an integer of magnitude at most `2 ^ 53`. -/
def IntegralAt (frame : Frame) (row : Fin frame.height) (term : Term) : Prop :=
  ∀ part ∈ term.parts (frame.numberAt? row), ∃ n : ℤ, part.2 = some (n : ℚ) ∧ |n| ≤ 2 ^ 53

/-- In a row, every part of a term is an integer that its type holds. -/
def FitsAt (frame : Frame) (row : Fin frame.height) (term : Term) : Prop :=
  ∀ part ∈ term.parts (frame.numberAt? row), part.1.Holds frame part.2

end Term

section Decidability

variable {frame : Frame} {row : Fin frame.height}

theorem exists_integer_iff {number : Option ℚ} {p : ℤ → Prop} :
    (∃ q ∈ number, q.den = 1 ∧ p q.num) ↔ ∃ n : ℤ, number = some (n : ℚ) ∧ p n := by
  constructor
  · rintro ⟨q, rfl, whole, holds⟩
    exact ⟨q.num, congrArg some (Rat.den_eq_one_iff q |>.mp whole).symm, holds⟩
  · rintro ⟨n, rfl, holds⟩
    exact ⟨n, rfl, rfl, holds⟩

instance (expr : Expr) (number : Option ℚ) : Decidable (expr.Holds frame number) :=
  decidable_of_iff (∃ type ∈ (expr.typeOn frame).toOption, ∃ q ∈ number,
    q.den = 1 ∧ type.element.Holds q.num) (exists_congr fun type => by
      rw [Option.mem_def, toOption_eq_some, exists_integer_iff (p := type.element.Holds),
        exists_and_left])

instance (term : Term) : Decidable (term.FitsAt frame row) :=
  inferInstanceAs (Decidable (∀ part ∈ _, _))

instance (term : Term) : Decidable (term.IntegralAt frame row) :=
  decidable_of_iff (∀ part ∈ term.parts (frame.numberAt? row), ∃ q ∈ part.2,
    q.den = 1 ∧ |q.num| ≤ 2 ^ 53)
    (forall₂_congr fun _ _ => exists_integer_iff (p := fun n => |n| ≤ 2 ^ 53))

end Decidability

theorem ElementType.isExact_of_number? {type : ElementType} {x : type.Value} {n : ℚ}
    (h : type.number? x = some n) : type.isExact := by
  cases type with
  | float32 | boolean | text => cases h
  | float64 | int64 | int32 | uint32 => rfl

theorem ResultType.widens_besideLoose? {type : ElementType} {shared : ResultType}
    (exact : type.isExact) (h : besideLoose? type = some shared) :
    type.widens shared.element ∧ ResultType.loose.element.widens shared.element := by
  cases type <;> cases exact <;> cases h <;> exact ⟨rfl, rfl⟩

/-- Operands that are numbers are brought to a type that keeps both. -/
theorem Operator.widens_sharedType? {operator : Operator} {left right shared : ResultType}
    {a b c : ℚ} (result : operator.onNumbers? a b = some c) (hl : left.element.isExact)
    (hr : right.element.isExact) (h : operator.sharedType? left right = some shared) :
    left.element.widens shared.element ∧ right.element.widens shared.element := by
  have common : left.common? right = some shared := by
    cases operator with
    | divide | power => cases result
    | subtract | multiply => exact h
    | add =>
      have counted : ¬ (left = .fixed .boolean ∧ right = .fixed .boolean) := by
        rintro ⟨rfl, -⟩
        cases hl
      simpa [sharedType?, counted] using h
  cases left with
  | fixed l =>
    cases right with
    | fixed r =>
      obtain ⟨type, shared, rfl⟩ := Option.map_eq_some_iff.mp common
      exact ElementType.widens_common? hl hr shared
    | loose => exact ResultType.widens_besideLoose? hl common
  | loose =>
    cases right with
    | fixed r => exact (ResultType.widens_besideLoose? hr common).symm
    | loose =>
      cases common
      exact ⟨rfl, rfl⟩

theorem Operator.isDefined_of_widens {operator : Operator} {left shared : ElementType} {a b c : ℚ}
    (result : operator.onNumbers? a b = some c) (wider : left.widens shared)
    (right : ElementType) : operator.isDefined shared right := by
  have number : shared.isNumber := by
    cases left <;> cases shared <;> simp_all [ElementType.widens, ElementType.isExact,
      ElementType.isInteger, ElementType.isNumber, ElementType.isFloating]
  cases operator with
  | add => simp [isDefined, number]
  | subtract | multiply => exact number
  | divide | power => cases result

section Values

variable {height : ℕ} {row : Fin height} {m n c : ℤ}

theorem Value.exists_get_cellsAs {value : Value height} {type : ElementType}
    (shows : value.toColumn.numberAt? row = some (n : ℚ)) (small : |n| ≤ 2 ^ 53)
    (wider : value.type.element.widens type) :
    ∃ y, (value.cellsAs type).get row = some y ∧ type.number? y = some (n : ℚ) := by
  obtain ⟨x, cell, number⟩ := Option.bind_eq_some_iff.mp shows
  obtain ⟨y, converted, kept⟩ := ElementType.exists_convert? wider number small
  refine ⟨y, ?_, kept⟩
  rw [Value.cellsAs, Cells.get_map]
  exact Option.bind_eq_some_iff.mpr ⟨x, cell, converted⟩

theorem Value.isExact_of_numberAt? {value : Value height}
    (shows : value.toColumn.numberAt? row = some (n : ℚ)) : value.type.element.isExact := by
  obtain ⟨x, -, number⟩ := Option.bind_eq_some_iff.mp shows
  exact ElementType.isExact_of_number? number

/-- Where both operands are integers, an operator is exact if its type holds the result. -/
theorem Operator.exists_onValues {operator : Operator} {left right : Value height}
    {type : ResultType} (hl : left.toColumn.numberAt? row = some (m : ℚ)) (smalll : |m| ≤ 2 ^ 53)
    (hr : right.toColumn.numberAt? row = some (n : ℚ)) (smallr : |n| ≤ 2 ^ 53)
    (result : operator.onNumbers? m n = some (c : ℚ))
    (shared : operator.sharedType? left.type right.type = some type)
    (holds : type.element.Holds c) :
    ∃ value, operator.onValues left right = .ok value ∧
      value.toColumn.numberAt? row = some (c : ℚ) := by
  obtain ⟨widerl, widerr⟩ := widens_sharedType? result (left.isExact_of_numberAt? hl)
    (right.isExact_of_numberAt? hr) shared
  obtain ⟨x, cellx, numberx⟩ := left.exists_get_cellsAs hl smalll widerl
  obtain ⟨y, celly, numbery⟩ := right.exists_get_cellsAs hr smallr widerr
  have defined := isDefined_of_widens result widerl right.type.element
  have plain : operator ≠ .power := by
    rintro rfl
    cases result
  let f := fun spread => liftCells (operator.perform? spread type.element)
  have same := Cells.get_zipWith f (left.cellsAs type.element) (right.cellsAs type.element) row
  obtain ⟨z, performed, numberz⟩ := exists_perform? numberx numbery result holds _
  refine ⟨⟨type, left.isScalar && right.isScalar,
    (left.cellsAs type.element).zipWith f (right.cellsAs type.element)⟩, ?_, ?_⟩
  · simp only [onValues, shared, defined, plain, if_true, if_false]
    rfl
  · refine Option.bind_eq_some_iff.mpr ⟨z, same.trans ?_, numberz⟩
    rw [cellx, celly]
    exact performed

end Values

namespace Expr

variable {frame : Frame} {row : Fin frame.height}

/-- The expression has a value, which in the row is the number, an integer that a double holds. -/
def ShowsAt (frame : Frame) (row : Fin frame.height) (expr : Expr) (number : Option ℚ) : Prop :=
  ∃ value n, expr.valueOn frame = .ok value ∧ value.toColumn.numberAt? row = some ((n : ℤ) : ℚ) ∧
    number = some (n : ℚ) ∧ |n| ≤ 2 ^ 53

theorem ShowsAt.binary {operator : Operator} {lhs rhs : Expr} {a b : Option ℚ}
    (hl : lhs.ShowsAt frame row a) (hr : rhs.ShowsAt frame row b)
    (holds : (Expr.binary operator lhs rhs).Holds frame (liftCells operator.onNumbers? a b)) :
    (Expr.binary operator lhs rhs).ShowsAt frame row (liftCells operator.onNumbers? a b) := by
  obtain ⟨left, m, valuel, showsl, rfl, smalll⟩ := hl
  obtain ⟨right, n, valuer, showsr, rfl, smallr⟩ := hr
  obtain ⟨type, c, typed, result, holds⟩ := holds
  have shared : operator.sharedType? left.type right.type = some type := by
    simp only [typeOn, typeOn_of_valueOn valuel, typeOn_of_valueOn valuer, bind, Except.bind]
      at typed
    split at typed <;> simp_all
  obtain ⟨value, applied, shows⟩ := operator.exists_onValues showsl smalll showsr smallr result
    shared holds
  refine ⟨value, c, ?_, shows, result, holds.1⟩
  simp only [valueOn, valuel, valuer, bind, Except.bind, applied]
  rfl

theorem ShowsAt.column {name : String}
    (holds : (Expr.column name).Holds frame (frame.numberAt? row name)) :
    (Expr.column name).ShowsAt frame row (frame.numberAt? row name) := by
  obtain ⟨type, n, -, number, holds⟩ := holds
  have read := number
  unfold Frame.numberAt? at read
  split at read
  · cases read
  · obtain ⟨series, found, shows⟩ := Option.bind_eq_some_iff.mp read
    refine ⟨.ofColumn series.toColumn, n, ?_, shows, number, holds.1⟩
    simp only [valueOn, valueOn.columnValue, readColumn_eq_ok.mpr found]
    rfl

theorem ShowsAt.literal {value : Float} {n : ℤ} (number : Double.number? value = some (n : ℚ))
    (small : |n| ≤ 2 ^ 53) :
    (Expr.literal value).ShowsAt frame row (Double.number? value) :=
  ⟨.ofLiteral value, n, rfl, number, number, small⟩

end Expr

namespace Arith

variable {frame : Frame} {row : Fin frame.height}

theorem number?_minusOne : Double.number? (-1) = some ((-1 : ℤ) : ℚ) := by
  decide +kernel

/-- A sign is a product with `-1` in exact arithmetic as well. -/
theorem number?_negate (columns : String → Option ℚ) (operand : Arith) :
    (negate operand).number? columns = liftCells Operator.multiply.onNumbers?
      (operand.number? columns) (Double.number? (-1)) := by
  rw [number?, number?_minusOne]
  cases operand.number? columns with
  | none => rfl
  | some x => simp [liftCells, Operator.onNumbers?]

theorem mem_parts_self (value : Arith) : value ∈ value.parts := by
  cases value <;> simp [parts]

theorem showsAt {value : Arith} (fits : ∀ part ∈ value.parts,
    (Expr.ofArith part).Holds frame (part.number? (frame.numberAt? row))) :
    (Expr.ofArith value).ShowsAt frame row (value.number? (frame.numberAt? row)) := by
  have whole := fits value (mem_parts_self value)
  induction value with
  | column name => exact .column whole
  | number value text =>
    obtain ⟨_, n, -, number, holds⟩ := whole
    exact .literal number holds.1
  | negate operand ih =>
    simp only [parts, List.mem_cons] at fits
    have left := ih (fun part member => fits part (.inr member))
      (fits operand (.inr (mem_parts_self operand)))
    have sign : (Expr.literal (-1)).ShowsAt frame row (Double.number? (-1)) :=
      .literal number?_minusOne (by norm_num)
    rw [number?_negate] at whole ⊢
    exact .binary left sign whole
  | binary operator lhs rhs ihl ihr =>
    simp only [parts, List.mem_cons, List.mem_append] at fits
    have left := ihl (fun part member => fits part (.inr (.inl member)))
      (fits lhs (.inr (.inl (mem_parts_self lhs))))
    have right := ihr (fun part member => fits part (.inr (.inr member)))
      (fits rhs (.inr (.inr (mem_parts_self rhs))))
    exact .binary left right whole
  | call transform argument =>
    obtain ⟨_, _, -, number, -⟩ := whole
    cases number
  | basis source degree order =>
    obtain ⟨_, _, -, number, -⟩ := whole
    cases number

/-- An expression that is a number in some row does not stand for several expressions. -/
theorem hasWildcard_eq_false {value : Arith} {n : ℚ}
    (h : value.number? (frame.numberAt? row) = some n) :
    (Expr.ofArith value).hasWildcard = false := by
  induction value generalizing n with
  | column name =>
    simp only [number?, Frame.numberAt?] at h
    split at h
    · cases h
    · rename_i plain
      simpa [Expr.ofArith, Expr.hasWildcard] using plain
  | number value text => rfl
  | negate operand ih =>
    obtain ⟨x, number, -⟩ := Option.map_eq_some_iff.mp h
    simp [Expr.ofArith, Expr.hasWildcard, ih number]
  | binary operator lhs rhs ihl ihr =>
    obtain ⟨x, left, h⟩ := Option.bind_eq_some_iff.mp h
    obtain ⟨y, right, -⟩ := Option.bind_eq_some_iff.mp h
    simp [Expr.ofArith, Expr.hasWildcard, ihl left, ihr right]
  | call transform argument => cases h
  | basis source degree order => cases h

end Arith

namespace Term

variable {frame : Frame} {row : Fin frame.height}

theorem number?_append_singleton (columns : String → Option ℚ) (leading : List Factor)
    (factor : Factor) :
    number? columns ⟨leading ++ [factor]⟩ = liftCells Operator.multiply.onNumbers?
      (number? columns ⟨leading⟩) (factor.value.number? columns) := by
  simp only [number?, List.mapM_append, List.mapM_cons, List.mapM_nil]
  cases leading.mapM fun factor => factor.value.number? columns with
  | none => rfl
  | some values =>
    cases factor.value.number? columns with
    | none => rfl
    | some x => simp [liftCells, Operator.onNumbers?]

theorem number?_singleton (columns : String → Option ℚ) (factor : Factor) :
    number? columns ⟨[factor]⟩ = factor.value.number? columns := by
  simp only [number?, List.mapM_cons, List.mapM_nil]
  cases factor.value.number? columns with
  | none => rfl
  | some x => simp

theorem product_append_singleton {exprs : List Expr} (nonempty : exprs ≠ []) (expr : Expr) :
    Expr.product (exprs ++ [expr]) = .binary .multiply (Expr.product exprs) expr := by
  obtain ⟨first, rest, rfl⟩ := List.exists_cons_of_ne_nil nonempty
  simp [Expr.product]

theorem FitsAt.factor {term : Term} (fits : term.FitsAt frame row) {factor : Factor}
    (isFactor : factor ∈ term.factors) {part : Arith} (isPart : part ∈ factor.value.parts) :
    (Expr.ofArith part).Holds frame (part.number? (frame.numberAt? row)) :=
  fits (_, _) (List.mem_append_left _ (List.mem_flatMap.mpr
    ⟨factor, isFactor, List.mem_map_of_mem isPart⟩))

theorem FitsAt.product {term : Term} (fits : term.FitsAt frame row) {leading : List Factor}
    (nonempty : leading ≠ []) (isLeading : leading <+: term.factors) :
    (Expr.ofTerm ⟨leading⟩).Holds frame (number? (frame.numberAt? row) ⟨leading⟩) := by
  have member : leading ∈ term.factors.inits.tail := by
    have := (List.mem_inits leading term.factors).mpr isLeading
    cases same : term.factors <;> simp_all [List.inits]
  exact fits (_, _) (List.mem_append_right _ (List.mem_map_of_mem member))

theorem FitsAt.showsAt_product {term : Term} (fits : term.FitsAt frame row)
    {leading : List Factor} (nonempty : leading ≠ []) (isLeading : leading <+: term.factors) :
    (Expr.product (leading.map fun factor => Expr.ofArith factor.value)).ShowsAt frame row
      (number? (frame.numberAt? row) ⟨leading⟩) := by
  induction leading using List.reverseRecOn with
  | nil => exact absurd rfl nonempty
  | append_singleton leading factor ih =>
    have isFactor : factor ∈ term.factors := isLeading.subset (by simp)
    have last := Arith.showsAt fun part => fits.factor isFactor
    by_cases single : leading = []
    · subst single
      rw [List.nil_append, number?_singleton]
      exact last
    · have initial := ih single ((List.prefix_append _ _).trans isLeading)
      have whole : (Expr.product ((leading ++ [factor]).map fun factor =>
          Expr.ofArith factor.value)).Holds frame
          (number? (frame.numberAt? row) ⟨leading ++ [factor]⟩) :=
        fits.product nonempty isLeading
      have mapped : (leading.map fun factor => Expr.ofArith factor.value) ≠ [] := by
        simpa using single
      rw [List.map_append, List.map_singleton, product_append_singleton mapped,
        number?_append_singleton] at whole ⊢
      exact .binary initial last whole

theorem hasWildcard_product {exprs : List Expr}
    (plain : ∀ expr ∈ exprs, expr.hasWildcard = false) :
    (Expr.product exprs).hasWildcard = false := by
  induction exprs using List.reverseRecOn with
  | nil => rfl
  | append_singleton exprs expr ih =>
    by_cases single : exprs = []
    · subst single
      exact plain expr (by simp)
    · have initial := ih fun expr member => plain expr (List.mem_append_left _ member)
      have last := plain expr (by simp)
      simp [product_append_singleton single, Expr.hasWildcard, initial, last]

/-- The column of a term shows the exact number in every row where all parts of the term fit. -/
theorem exists_yields_of_fitsAt {term : Term} (fits : term.FitsAt frame row) :
    ∃ column, (Expr.ofTerm term).Yields frame column ∧
      column.numberAt? row = term.number? (frame.numberAt? row) := by
  have shows : (Expr.ofTerm term).ShowsAt frame row (term.number? (frame.numberAt? row)) := by
    by_cases empty : term.factors = []
    · obtain ⟨factors⟩ := term
      subst empty
      have one : Double.number? 1 = some ((1 : ℤ) : ℚ) := by decide +kernel
      exact ⟨.ofLiteral 1, 1, rfl, one, rfl, by norm_num⟩
    · exact fits.showsAt_product empty (List.prefix_refl _)
  obtain ⟨value, n, evaluated, shown, number, -⟩ := shows
  have plain : (Expr.ofTerm term).hasWildcard = false := by
    refine hasWildcard_product fun expr member => ?_
    obtain ⟨factor, isFactor, rfl⟩ := List.mem_map.mp member
    obtain ⟨_, _, -, number, -⟩ := fits.factor isFactor (Arith.mem_parts_self _)
    exact Arith.hasWildcard_eq_false number
  refine ⟨value.toColumn, ⟨_, value, ?_, evaluated, rfl⟩, shown.trans number.symm⟩
  simp [Expr.instances, plain]

/-- The column shows the exact number in every row where all parts of the term fit. -/
def ShownExactly (frame : Frame) (term : Term) (column : Column frame.height) : Prop :=
  ∀ row, term.FitsAt frame row → column.numberAt? row = term.number? (frame.numberAt? row)

theorem shownExactly_of_yields {term : Term} {column : Column frame.height}
    (yields : (Expr.ofTerm term).Yields frame column) : term.ShownExactly frame column := by
  intro row fits
  obtain ⟨shown, yields', exact⟩ := exists_yields_of_fitsAt fits
  rwa [yields.unique yields']

end Term

end DesignMatrix
