import DesignMatrix.Proofs.DenseGaps
import DesignMatrix.Proofs.DesignContract
import DesignMatrix.Proofs.ElementwiseTerms

/-!
# Missing cells

Operators and functions are total on numbers and truth values, so that their results are missing
exactly where an operand is. Hence the column of an elementwise term is missing exactly in the rows
in which a column that the term refers to is.
-/

namespace DesignMatrix

open Outcomes

namespace ElementType

/-- Every value of the one type has a value in the other. -/
def Converts (source target : ElementType) : Prop :=
  ∀ x : source.Value, ∃ y, source.convert? target x = some y

/-- Numbers and truth values are brought to a type that has values for all of them. -/
theorem converts_common? {left right shared : ElementType} (hl : left ≠ .text)
    (hr : right ≠ .text) (h : left.common? right = some shared) :
    left.Converts shared ∧ right.Converts shared ∧ shared ≠ .text := by
  cases left <;> cases right <;> cases h <;>
    first
    | exact absurd rfl hl
    | exact absurd rfl hr
    | exact ⟨fun x => ⟨_, rfl⟩, fun x => ⟨_, rfl⟩, by decide⟩

theorem converts_float64 {source : ElementType} (h : source ≠ .text) :
    source.Converts .float64 := by
  cases source <;> first | exact absurd rfl h | exact fun x => ⟨_, rfl⟩

end ElementType

theorem ResultType.converts_common? {left right shared : ResultType} (hl : left.element ≠ .text)
    (hr : right.element ≠ .text) (h : left.common? right = some shared) :
    left.element.Converts shared.element ∧ right.element.Converts shared.element ∧
      shared.element ≠ .text := by
  have loose {type : ElementType} (number : type ≠ .text)
      (h : besideLoose? type = some shared) : ResultType.loose.element.Converts shared.element ∧
      type.Converts shared.element ∧ shared.element ≠ .text := by
    cases type <;> cases h <;>
      first
      | exact absurd rfl number
      | exact ⟨fun x => ⟨_, rfl⟩, fun x => ⟨_, rfl⟩, by decide⟩
  match left, right with
  | .loose, .loose =>
    cases h
    exact ⟨fun x => ⟨x, rfl⟩, fun x => ⟨x, rfl⟩, by decide⟩
  | .loose, .fixed right => exact loose hr h
  | .fixed left, .loose =>
    obtain ⟨second, first, number⟩ := loose hl h
    exact ⟨first, second, number⟩
  | .fixed left, .fixed right =>
    obtain ⟨type, found, rfl⟩ := Option.map_eq_some_iff.mp h
    exact ElementType.converts_common? hl hr found

namespace Operator

theorem converts_sharedType? {operator : Operator} {left right shared : ResultType}
    (hl : left.element ≠ .text) (hr : right.element ≠ .text)
    (h : operator.sharedType? left right = some shared) :
    left.element.Converts shared.element ∧ right.element.Converts shared.element ∧
      shared.element ≠ .text := by
  have float : left.element.Converts .float64 ∧ right.element.Converts .float64 ∧
      ElementType.float64 ≠ .text :=
    ⟨ElementType.converts_float64 hl, ElementType.converts_float64 hr, by decide⟩
  cases operator with
  | divide | power =>
    cases h
    exact float
  | subtract | multiply => exact ResultType.converts_common? hl hr h
  | add =>
    unfold sharedType? at h
    simp only at h
    split at h
    · rename_i booleans
      obtain ⟨rfl, rfl⟩ := booleans
      cases h
      exact ⟨fun x => ⟨_, rfl⟩, fun x => ⟨_, rfl⟩, by decide⟩
    · exact ResultType.converts_common? hl hr h

/-- Where an operator is defined, two cells that are not missing have a result. -/
theorem exists_perform?_of_isDefined {operator : Operator} {left right shared : ResultType}
    (h : operator.sharedType? left right = some shared)
    (defined : operator.isDefined shared.element right.element = true)
    (plain : operator ≠ .power) (number : shared.element ≠ .text) (spread : Spread)
    (x y : shared.element.Value) :
    ∃ z, operator.perform? spread shared.element x y = some z := by
  cases operator with
  | power => exact absurd rfl plain
  | divide =>
    cases h
    exact ⟨_, rfl⟩
  | add | subtract | multiply =>
    revert x y
    cases type : shared.element <;>
      simp_all [isDefined, ElementType.isNumber, ElementType.isInteger, ElementType.isFloating] <;>
      exact fun x y => ⟨_, rfl⟩

end Operator

theorem liftCells_eq_none_iff {α β γ : Type} {f : α → β → Option γ}
    (total : ∀ x y, ∃ z, f x y = some z) {x : Option α} {y : Option β} :
    liftCells f x y = none ↔ x = none ∨ y = none := by
  match x, y with
  | none, _ => simp [liftCells]
  | some x, none => simp [liftCells]
  | some x, some y =>
    obtain ⟨z, found⟩ := total x y
    simp [liftCells, found]

/-- The cell of a name in a row is missing. -/
def Frame.MissingAt (frame : Frame) (name : String) (row : ℕ) : Prop :=
  ∃ series, frame.column? name = some series ∧ series.MissingAt row

namespace Value

variable {height : ℕ} {row : Fin height}

theorem get_cellsAs_eq_none_iff {value : Value height} {type : ElementType}
    (converts : value.type.element.Converts type) :
    (value.cellsAs type).get row = none ↔ value.cells.get row = none := by
  rw [cellsAs, Cells.get_map]
  cases value.cells.get row with
  | none => simp
  | some x =>
    obtain ⟨y, found⟩ := converts x
    simp [found]

/-- An exponent that is one number for all rows is missing where its cell is. -/
theorem single?_eq_none_iff {value : Value height} (number : value.type.element ≠ .text)
    {cell : Option Float} (single : value.single? = some cell) :
    cell = none ↔ value.cells.get row = none := by
  have converts := ElementType.converts_float64 number
  unfold single? at single
  split at single
  · rename_i sole
    obtain rfl := Option.some.inj single
    obtain rfl : row = ⟨0, by omega⟩ := Fin.ext (by omega)
    exact get_cellsAs_eq_none_iff converts
  · obtain ⟨column, scalar, rfl⟩ := Option.map_eq_some_iff.mp single
    unfold toScalar? at scalar
    split at scalar
    · rename_i uniform
      cases scalar
      rw [uniform]
      simp only [Cells.get]
      cases ‹Option value.type.element.Value› with
      | none => simp
      | some x =>
        obtain ⟨y, found⟩ := converts x
        simp only [ElementType.convert?] at found
        simp [found]
    · cases scalar

theorem get_powers_eq_none_iff {base exponent : Value height} (hb : base.type.element ≠ .text)
    (he : exponent.type.element ≠ .text) :
    (powers base exponent).get row = none ↔
      base.cells.get row = none ∨ exponent.cells.get row = none := by
  have convertsBase := ElementType.converts_float64 hb
  unfold powers
  split
  · rename_i cell single
    rw [Cells.get_map, liftCells_eq_none_iff fun x y => ⟨_, rfl⟩, single?_eq_none_iff he single,
      get_cellsAs_eq_none_iff convertsBase, or_comm]
  · rw [Cells.get_zipWith, liftCells_eq_none_iff fun x y => ⟨_, rfl⟩,
      get_cellsAs_eq_none_iff convertsBase,
      get_cellsAs_eq_none_iff (ElementType.converts_float64 he)]

theorem get_power_eq_none_iff {base exponent : Value height} (hb : base.type.element ≠ .text)
    (he : exponent.type.element ≠ .text) :
    (base.power exponent).cells.get row = none ↔
      base.cells.get row = none ∨ exponent.cells.get row = none := by
  change Cells.get (α := Option Float)
    (if base.isScalar && exponent.isScalar then powers base exponent
      else (powers base exponent).written) row = none ↔ _
  rw [Cells.get_ite_written, get_powers_eq_none_iff hb he]

theorem get_mapDoubles_eq_none_iff {value : Value height} (number : value.type.element ≠ .text)
    (f : Float → Float) :
    (value.mapDoubles f).cells.get row = none ↔ value.cells.get row = none := by
  change Cells.get (α := Option Float)
    (if value.isScalar then (value.cellsAs .float64).map (Option.map f)
      else ((value.cellsAs .float64).map (Option.map f)).written) row = none ↔ _
  rw [Cells.get_ite_written, Cells.get_map, Option.map_eq_none_iff,
    get_cellsAs_eq_none_iff (ElementType.converts_float64 number)]

end Value

/-- The result of an operator is a number that is missing exactly where an operand is. -/
theorem Operator.missing_iff_of_onValues {height : ℕ} {operator : Operator}
    {left right value : Value height} (hl : left.type.element ≠ .text)
    (hr : right.type.element ≠ .text) (h : operator.onValues left right = .ok value) :
    value.type.element ≠ .text ∧ ∀ row, value.cells.get row = none ↔
      left.cells.get row = none ∨ right.cells.get row = none := by
  unfold onValues at h
  split at h
  · cases h
  · rename_i type shared
    obtain ⟨convertsl, convertsr, number⟩ := converts_sharedType? hl hr shared
    split at h
    · rename_i defined
      split at h
      · cases h
        exact ⟨ElementType.noConfusion, fun row => Value.get_power_eq_none_iff hl hr⟩
      · rename_i plain
        cases h
        refine ⟨number, fun row => ?_⟩
        rw [Cells.get_zipWith, liftCells_eq_none_iff, Value.get_cellsAs_eq_none_iff convertsl,
          Value.get_cellsAs_eq_none_iff convertsr]
        exact exists_perform?_of_isDefined shared defined plain number _
    · cases h

/-- The value of an elementwise expression is missing exactly where a column that it reads is. -/
theorem Expr.missing_iff_of_valueOn {frame : Frame} (numeric : frame.IsNumeric) {expr : Expr}
    (elementwise : expr.Elementwise) {value : Value frame.height}
    (h : expr.valueOn frame = .ok value) :
    value.type.element ≠ .text ∧ ∀ row, value.cells.get row = none ↔
      ∃ name ∈ expr.sources, frame.MissingAt name row := by
  induction expr generalizing value with
  | column name =>
    simp only [valueOn, valueOn.columnValue, mapError_eq_ok, map_eq_ok] at h
    obtain ⟨series, read, rfl⟩ := h
    have found := readColumn_eq_ok.mp read
    refine ⟨numeric series (List.mem_of_find?_eq_some found), fun row => ?_⟩
    simp [sources, Frame.MissingAt, found, Column.MissingAt, Value.ofColumn]
    rfl
  | literal x =>
    cases h
    exact ⟨ElementType.noConfusion, fun row => by simp [sources, Value.ofLiteral, Cells.get]⟩
  | renamed name operand ih => exact ih elementwise h
  | binary operator lhs rhs ihl ihr =>
    simp only [valueOn, bind_eq_ok, mapError_eq_ok] at h
    obtain ⟨left, hl, right, hr, applied⟩ := h
    obtain ⟨numberl, missingl⟩ := ihl elementwise.1 hl
    obtain ⟨numberr, missingr⟩ := ihr elementwise.2 hr
    obtain ⟨number, missing⟩ := operator.missing_iff_of_onValues numberl numberr applied
    refine ⟨number, fun row => ?_⟩
    rw [missing, missingl, missingr]
    simp [sources, or_and_right, exists_or]
  | call transform argument ih =>
    simp only [valueOn, bind_eq_ok, Except.ok.injEq] at h
    obtain ⟨operand, computed, rfl⟩ := h
    obtain ⟨number, missing⟩ := ih elementwise computed
    refine ⟨ElementType.noConfusion, fun row => ?_⟩
    rw [Value.get_mapDoubles_eq_none_iff number, missing]
    rfl
  | position => exact elementwise.elim
  | basis => exact elementwise.elim

theorem Frame.IsNumeric.forEvaluation {frame : Frame} (numeric : frame.IsNumeric) :
    frame.forEvaluation.IsNumeric := by
  unfold Frame.forEvaluation
  split
  · exact fun series member => absurd member List.not_mem_nil
  · exact numeric

/-- The names of the columns of the frame that a term refers to: a `*` refers to all of them. -/
def Term.references (frame : Frame) (term : Term) : List String :=
  Frame.chosen frame.names term.sources

/-- A column that the term refers to is missing in a row. -/
def Term.MissingOn (frame : Frame) (row : ℕ) (term : Term) : Prop :=
  ∃ name ∈ term.references frame, frame.MissingAt name row

namespace Expr

/-- The single expression that an expression stands for reads the columns that its names stand
for. -/
theorem mem_sources_of_instances {names : List String} {expr sole : Expr}
    (h : expr.instances names = [sole]) (name : String) :
    name ∈ sole.sources ↔ name ∈ Frame.chosen names expr.sources := by
  by_cases wild : expr.hasWildcard = true
  · rw [instances, if_pos wild] at h
    obtain ⟨only, rfl, rfl⟩ := List.map_eq_singleton_iff.mp h
    simp only [sources_withColumn, Frame.chosen, List.mem_map, List.mem_flatMap]
    refine exists_congr fun source => and_congr_right fun _ => ?_
    split <;> simp [eq_comm]
  · rw [instances, if_neg wild] at h
    obtain rfl := List.singleton_inj.mp h
    rw [Frame.chosen_eq_self fun read => wild ((hasWildcard_iff expr).mpr read)]

theorem Elementwise.of_instances {names : List String} {expr sole : Expr} (h : expr.Elementwise)
    (single : expr.instances names = [sole]) : sole.Elementwise := by
  by_cases wild : expr.hasWildcard = true
  · rw [instances, if_pos wild] at single
    obtain ⟨only, -, rfl⟩ := List.map_eq_singleton_iff.mp single
    exact h.withColumn only
  · rw [instances, if_neg wild] at single
    exact List.singleton_inj.mp single ▸ h

end Expr

/-- The column of a term is missing exactly where a column that the term refers to is. -/
theorem Term.missingAt_iff_of_yields {frame : Frame} (numeric : frame.IsNumeric) {term : Term}
    (elementwise : (Expr.ofTerm term).Elementwise) {column : Column frame.height}
    (h : (Expr.ofTerm term).Yields frame column) :
    column.type ≠ .text ∧ ∀ row, column.MissingAt row ↔ term.MissingOn frame row := by
  obtain ⟨sole, value, single, computed, rfl⟩ := h
  obtain ⟨number, missing⟩ := Expr.missing_iff_of_valueOn numeric (elementwise.of_instances single)
    computed
  have reads : ∀ name, name ∈ sole.sources ↔ name ∈ term.references frame := by
    intro name
    rw [Expr.mem_sources_of_instances single, Expr.sources_ofTerm, references]
  refine ⟨number, fun row => ?_⟩
  simp only [← reads, MissingOn]
  constructor
  · rintro ⟨inside, gap⟩
    exact (missing ⟨row, inside⟩).mp gap
  · rintro ⟨name, read, series, found, inside, gap⟩
    exact ⟨inside, (missing ⟨row, inside⟩).mpr ⟨name, read, series, found, inside, gap⟩⟩

/-- The row that is added to a frame without columns has no cell that could be missing. -/
theorem Term.missingOn_forEvaluation {frame : Frame} {row : ℕ} {term : Term} :
    term.MissingOn frame.forEvaluation row ↔ term.MissingOn frame row := by
  unfold Frame.forEvaluation
  split
  · rename_i none
    rw [List.isEmpty_iff] at none
    simp [MissingOn, Frame.MissingAt, Frame.column?, none]
  · rfl

end DesignMatrix
