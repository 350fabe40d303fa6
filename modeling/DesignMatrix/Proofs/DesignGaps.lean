import DesignMatrix.Proofs.MissingCells

/-!
# Gaps in designs

In the design of a formula without `poly`, the cells are missing exactly where a column is missing
that their term refers to. So the matrix can be exported unless one of its terms refers to a column
with a gap, and the gap that is reported then is that of the first such term.
-/

namespace DesignMatrix

open Outcomes

/-- What holds of the columns of a table holds of the columns of the frame. -/
theorem Frame.IsTable.forall₂ {α : Type} {height : ℕ} {series : List (Series height)}
    {frame : Frame} {p : ∀ {height : ℕ}, α → Series height → Prop} {xs : List α}
    (table : frame.IsTable series) (h : List.Forall₂ p xs series) :
    List.Forall₂ p xs frame.columns := by
  by_cases none : series = []
  · obtain rfl := table.1 none
    subst none
    rw [List.forall₂_nil_right_iff.mp h]
    exact .nil
  · obtain ⟨_, rfl⟩ := table.2 none
    exact h

namespace Design

/-- The terms that the columns of a matrix are for. The constant column is for the empty term. -/
def matrixTerms (config : Config) (description : Description) : List Term :=
  (if description.intercept && config.intercept then [.empty] else []) ++ description.predictors

variable {config : Config} {frame : Frame} {text : String} {formula : Formula}
  {description : Description} {design : Design}

/-- The response of a design is what its expression yields, whatever its label is. -/
theorem yields_of_responseOn {expr : Expr} {height : ℕ} {response : Series height}
    (h : responseOn config frame expr = .ok ⟨height, response⟩) :
    ∃ column, expr.Yields frame.forEvaluation column ∧
      (⟨height, response⟩ : (height : ℕ) × Series height) =
        ⟨frame.forEvaluation.height, column.written, config.responseName⟩ := by
  simp only [responseOn, bind_eq_ok, mapError_eq_ok, Except.ok.injEq] at h
  obtain ⟨projected, found, series, read, same⟩ := h
  obtain ⟨column, yields, shown⟩ := Frame.yields_of_project_singleton found read
  refine ⟨column, yields, same.symm.trans ?_⟩
  exact congrArg (fun found => (⟨found.1, found.2.written⟩ : (height : ℕ) × Series height)) shown

/-- The literal one is the expression of the empty term, but for a name. -/
theorem yields_empty_of_yields_one {column : Column frame.height}
    (h : (Expr.literal 1).Yields frame column) : (Expr.ofTerm .empty).Yields frame column := by
  obtain rfl := yields_one_iff.mp h
  exact ⟨_, _, rfl, rfl, rfl⟩

/-- The columns of a matrix are what its terms yield. -/
theorem yields_of_project_columns {matrix : Frame}
    (plain : Expr.wildcard ∉ labels config (.ofDescription description))
    (h : frame.project (columns config (ParsedFormula.ofDescription description).predictors
      description.intercept) = .ok matrix) :
    ∃ series : List (Series frame.forEvaluation.height), matrix.IsTable series ∧
      List.Forall₂ (fun term (shown : Series frame.forEvaluation.height) =>
        (Expr.ofTerm term).Yields frame.forEvaluation shown.toColumn)
        (matrixTerms config description) series := by
  rw [← map_fst_columns] at plain
  obtain ⟨-, series, shows, table⟩ := (Frame.project_eq_ok_of_plain plain).mp h
  refine ⟨series, table, ?_⟩
  have yields := (Frame.forall₂_shows_iff.mp shows).2
  rw [map_snd_columns, forall₂_append_left_iff] at yields
  obtain ⟨ones, predictors, rfl, one, shown⟩ := yields
  refine List.rel_append ?_ ?_
  · split at one
    · rename_i wanted
      obtain ⟨first, rest, head, tail, rfl⟩ := List.forall₂_cons_left_iff.mp one
      rw [if_pos (by exact wanted)]
      exact .cons (yields_empty_of_yields_one head) (List.forall₂_nil_left_iff.mp tail ▸ .nil)
    · rename_i unwanted
      rw [if_neg (by exact unwanted), List.forall₂_nil_left_iff.mp one]
      exact .nil
  · simpa [ParsedFormula.ofDescription, Function.comp_def, Predictor.ofExpr] using shown

theorem elementwise_of_mem_matrixTerms
    (elementwise : ∀ term ∈ description.terms, (Expr.ofTerm term).Elementwise) {term : Term}
    (member : term ∈ matrixTerms config description) : (Expr.ofTerm term).Elementwise := by
  rcases List.mem_append.mp member with constant | predictor
  · split at constant
    · rw [List.mem_singleton.mp constant]
      trivial
    · cases constant
  · exact elementwise term (List.mem_append_right _ predictor)

/-- The columns of the matrix are missing where the terms that they are for are. -/
def ShowsGaps (frame : Frame) (terms : List Term) (matrix : Frame) : Prop :=
  List.Forall₂ (fun term (series : Series matrix.height) =>
    ∀ row, series.MissingAt row ↔ term.MissingOn frame row) terms matrix.columns

variable {terms : List Term} {matrix : Frame}

theorem ShowsGaps.exists_dense_iff (shows : ShowsGaps frame terms matrix)
    (numeric : matrix.IsNumeric) :
    (∃ dense, matrix.dense = .ok dense) ↔ ∀ term ∈ terms, ∀ row, ¬term.MissingOn frame row := by
  rw [Frame.exists_dense_iff numeric]
  constructor
  · intro full term member row
    obtain ⟨series, inMatrix, gaps⟩ := exists_mem_of_forall₂ shows member
    exact fun gap => full series inMatrix row ((gaps row).mpr gap)
  · intro full series inMatrix row
    obtain ⟨term, member, gaps⟩ := exists_mem_of_forall₂ shows.flip inMatrix
    exact fun gap => full term member row ((gaps row).mp gap)

theorem ShowsGaps.dense_eq_error (shows : ShowsGaps frame terms matrix)
    (numeric : matrix.IsNumeric) {error : DesignError} :
    matrix.dense = .error error ↔ ∃ front term back row label, terms = front ++ term :: back ∧
      (∀ before ∈ front, ∀ row, ¬before.MissingOn frame row) ∧
      (term.MissingOn frame row ∧ ∀ earlier < row, ¬term.MissingOn frame earlier) ∧
      matrix.names[front.length]? = some label ∧ .missingValue label row = error := by
  unfold ShowsGaps at shows
  rw [Frame.dense_eq_error numeric]
  constructor
  · rintro ⟨front, series, back, row, split, full, isFirst, rfl⟩
    rw [split] at shows
    obtain ⟨terms, rest, rfl, fronts, others⟩ := forall₂_append_left_iff.mp shows.flip
    obtain ⟨term, _, gaps, -, rfl⟩ := List.forall₂_cons_left_iff.mp others
    refine ⟨terms, term, _, row, series.name, rfl, ?_, ?_, ?_, rfl⟩
    · intro before member row gap
      obtain ⟨shown, inFront, gaps⟩ := exists_mem_of_forall₂ fronts.flip member
      exact full shown inFront row ((gaps row).mpr gap)
    · simpa only [Column.FirstMissingAt, gaps] using isFirst
    · simp [Frame.names, split, ← fronts.length_eq]
  · rintro ⟨front, term, back, row, label, rfl, full, isFirst, named, rfl⟩
    obtain ⟨columns, rest, split, fronts, others⟩ := forall₂_append_left_iff.mp shows
    obtain ⟨series, _, gaps, -, rfl⟩ := List.forall₂_cons_left_iff.mp others
    refine ⟨columns, series, _, row, split, ?_, ?_, ?_⟩
    · intro before member row gap
      obtain ⟨term, inFront, gaps⟩ := exists_mem_of_forall₂ fronts.flip member
      exact full term inFront row ((gaps row).mp gap)
    · simpa only [Column.FirstMissingAt, gaps] using isFirst
    · have : series.name = label := by
        simpa [Frame.names, split, fronts.length_eq] using named
      rw [this]

/-- The column of a term is missing where a column of the frame that the term refers to is. -/
theorem missing_of_yields (numeric : frame.IsNumeric) {term : Term}
    (elementwise : (Expr.ofTerm term).Elementwise) {column : Column frame.forEvaluation.height}
    (yields : (Expr.ofTerm term).Yields frame.forEvaluation column) :
    column.type ≠ .text ∧ ∀ row, column.MissingAt row ↔ term.MissingOn frame row := by
  have shown := Term.missingAt_iff_of_yields numeric.forEvaluation elementwise yields
  exact ⟨shown.1, fun row => (shown.2 row).trans Term.missingOn_forEvaluation⟩

theorem isNumeric_and_showsGaps_of_project (numeric : frame.IsNumeric)
    (elementwise : ∀ term ∈ matrixTerms config description, (Expr.ofTerm term).Elementwise)
    (plain : Expr.wildcard ∉ labels config (.ofDescription description))
    (projected : frame.project (columns config (ParsedFormula.ofDescription description).predictors
      description.intercept) = .ok matrix) :
    matrix.IsNumeric ∧ ShowsGaps frame (matrixTerms config description) matrix := by
  obtain ⟨series, table, yields⟩ := yields_of_project_columns plain projected
  have shows : List.Forall₂ (fun term (series : Series matrix.height) => series.type ≠ .text ∧
      ∀ row, series.MissingAt row ↔ term.MissingOn frame row) (matrixTerms config description)
      matrix.columns := by
    refine table.forall₂ (p := fun (term : Term) series => series.type ≠ .text ∧
      ∀ row, series.MissingAt row ↔ term.MissingOn frame row) ?_
    exact ((List.forall₂_and_left _ _).mpr ⟨elementwise, yields⟩).imp fun term shown related =>
      missing_of_yields numeric related.1 related.2
  refine ⟨fun series member => ?_, shows.imp fun term series related => related.2⟩
  obtain ⟨term, -, number, -⟩ := exists_mem_of_forall₂ shows.flip member
  exact number

/-- Cells of a design are missing exactly where a column that the term of the cell refers to is, so
that the matrix can be exported unless one of its terms refers to a column with a gap. -/
theorem showsGaps_and_dense_iff_of_build (numeric : frame.IsNumeric)
    (parsed : Formula.parse text = .ok formula) (withoutPoly : formula.WithoutPoly)
    (described : Description.ofFormula formula = .ok description)
    (plain : Expr.wildcard ∉ labels config (.ofDescription description))
    (built : build standardParser config frame text = .ok design) :
    (∃ term, description.response = some term ∧
      ∀ row, design.response.MissingAt row ↔ term.MissingOn frame row) ∧
    ShowsGaps frame (matrixTerms config description) design.matrix ∧
    ((∃ dense, design.matrix.dense = .ok dense) ↔
      ∀ term ∈ matrixTerms config description, ∀ row, ¬term.MissingOn frame row) ∧
    ∀ error, design.matrix.dense = .error error ↔ ∃ front term back row label,
      matrixTerms config description = front ++ term :: back ∧
      (∀ before ∈ front, ∀ row, ¬before.MissingOn frame row) ∧
      (term.MissingOn frame row ∧ ∀ earlier < row, ¬term.MissingOn frame earlier) ∧
      design.matrix.names[front.length]? = some label ∧ .missingValue label row = error := by
  have describes : standardParser text = .ok (.ofDescription description) := by
    simp [standardParser, describe, parsed, described, bind, Except.bind, Except.map]
  simp only [build, parse, describes, requireResponse, bind_eq_ok, mapError_eq_ok,
    Except.ok.injEq] at built
  obtain ⟨_, -, _, ⟨_, rfl, expr, required, rfl⟩, ⟨height, response⟩, evaluated, matrix, projected,
    rfl⟩ := built
  have elementwise : ∀ term ∈ description.terms, (Expr.ofTerm term).Elementwise := fun term =>
    Formula.elementwise_of_describe parsed withoutPoly described
  obtain ⟨numericMatrix, showsGaps⟩ := isNumeric_and_showsGaps_of_project numeric
    (fun term => elementwise_of_mem_matrixTerms elementwise) plain projected
  refine ⟨?_, showsGaps, showsGaps.exists_dense_iff numericMatrix,
    fun error => showsGaps.dense_eq_error numericMatrix⟩
  obtain ⟨term, isTerm, rfl⟩ : ∃ term, description.response = some term ∧
      Expr.ofTerm term = expr := by
    cases response : description.response with
    | none => simp [ParsedFormula.ofDescription, response] at required
    | some term =>
      exact ⟨term, rfl, by simpa [ParsedFormula.ofDescription, response] using required⟩
  obtain ⟨column, yields, same⟩ := yields_of_responseOn evaluated
  refine ⟨term, isTerm, fun row => ?_⟩
  obtain ⟨-, missing⟩ := missing_of_yields numeric
    (elementwise term (by simp [Description.terms, isTerm])) yields
  rw [← missing]
  cases same
  simp [Column.MissingAt, Column.written]

/-- Two columns with gaps in different rows beside one without. -/
def gapFrame : Frame where
  height := 3
  columns := [⟨⟨.int64, .each #v[some 1, some 2, some 3]⟩, "y"⟩,
    ⟨⟨.float64, .each #v[some 1, none, some 2]⟩, "a"⟩,
    ⟨⟨.boolean, .each #v[none, some true, some false]⟩, "b"⟩]
  distinct := by decide

theorem numeric_gapFrame : gapFrame.IsNumeric := by
  rintro series (_ | ⟨_, _ | ⟨_, _ | ⟨_, ⟨⟩⟩⟩⟩) <;> decide

/-- A power is missing where its base is, also one with the exponent zero. -/
theorem dense_eq_error_of_gap_in_power :
    ∃ design, build standardParser .standard gapFrame "y ~ I(2) + I(a ** 0) + a:b" = .ok design ∧
      (∀ row, ¬design.response.MissingAt row) ∧
      design.matrix.dense = .error (.missingValue "I(a ** 0)" 1) := by
  let constant := Factor.ofArith (.number 2 "2")
  let power := Factor.ofArith (.binary .power (.column "a") (.number 0 "0"))
  let left := Tree.factor (.ofColumn "y")
  let product := Tree.binary .interact (.factor (.ofColumn "a")) (.factor (.ofColumn "b"))
  let right := Tree.binary .add (.binary .add (.factor constant) (.factor power)) product
  have parsed : Formula.parse "y ~ I(2) + I(a ** 0) + a:b" = .ok ⟨some left, right⟩ := by
    decide +kernel
  have described : Description.ofFormula ⟨some left, right⟩ = .ok ⟨some ⟨[.ofColumn "y"]⟩,
      [⟨[constant]⟩, ⟨[power]⟩, ⟨[.ofColumn "a", .ofColumn "b"]⟩], true⟩ := by
    decide +kernel
  obtain ⟨design, built, names⟩ : ∃ design,
      build standardParser .standard gapFrame "y ~ I(2) + I(a ** 0) + a:b" = .ok design ∧
      design.matrix.names = ["Intercept", "I(2)", "I(a ** 0)", "a:b"] :=
    exists_of_toOption (by decide +kernel)
  obtain ⟨⟨_, ⟨⟩, response⟩, -, -, exported⟩ := showsGaps_and_dense_iff_of_build
    numeric_gapFrame parsed (by simp [Formula.WithoutPoly, Formula.sides, Tree.WithoutPoly, left,
      right, product]) described (by decide +kernel) built
  refine ⟨design, built, fun row gap => ?_, (exported _).mpr ⟨[.empty, ⟨[constant]⟩], ⟨[power]⟩,
    [⟨[.ofColumn "a", .ofColumn "b"]⟩], 1, "I(a ** 0)", rfl, ?_, ⟨?_, ?_⟩, by rw [names]; rfl, rfl⟩⟩
  · obtain ⟨name, isSource, series, found, inside, gap⟩ := (response row).mp gap
    obtain rfl : name = "y" := List.mem_singleton.mp isSource
    cases found
    have below : row < 3 := inside
    obtain rfl | rfl | rfl : row = 0 ∨ row = 1 ∨ row = 2 := by omega
    all_goals cases gap
  · rintro term (_ | ⟨_, _ | ⟨_, ⟨⟩⟩⟩) row ⟨name, isSource, -⟩ <;> cases isSource
  · exact ⟨"a", by decide, _, rfl, by decide, rfl⟩
  · rintro row below ⟨name, isSource, series, found, inside, gap⟩
    obtain rfl : row = 0 := by omega
    obtain rfl : name = "a" := List.mem_singleton.mp isSource
    cases found
    cases gap

/-- Under the label that stands for all columns, the matrix shows columns that no term refers to. -/
theorem dense_eq_error_of_wildcard_label :
    gapFrame.IsNumeric ∧ ∃ formula description design,
      Formula.parse "y ~ 1" = .ok formula ∧ formula.WithoutPoly ∧
      Description.ofFormula formula = .ok description ∧
      build standardParser { Config.standard with interceptName := "*" } gapFrame "y ~ 1" =
        .ok design ∧
      (∀ term ∈ matrixTerms { Config.standard with interceptName := "*" } description,
        term.references gapFrame = []) ∧
      design.matrix.names = ["y", "a", "b", "*"] ∧
      design.matrix.dense = .error (.missingValue "a" 1) := by
  have parsed : Formula.parse "y ~ 1" = .ok ⟨some (.factor (.ofColumn "y")), .one⟩ := by
    decide +kernel
  have described : Description.ofFormula ⟨some (.factor (.ofColumn "y")), .one⟩ =
      .ok ⟨some ⟨[.ofColumn "y"]⟩, [], true⟩ := by decide +kernel
  obtain ⟨design, built, seen⟩ : ∃ design, build standardParser
      { Config.standard with interceptName := "*" } gapFrame "y ~ 1" = .ok design ∧
      (design.matrix.names, design.matrix.dense.map fun _ => ()) =
        (["y", "a", "b", "*"], .error (.missingValue "a" 1)) :=
    exists_of_toOption (by decide +kernel)
  obtain ⟨names, dense⟩ := Prod.mk.inj seen
  refine ⟨numeric_gapFrame, _, _, design, parsed, ?_, described, built, by decide, names,
    map_eq_error.mp dense⟩
  simp [Formula.WithoutPoly, Formula.sides, Tree.WithoutPoly]

end Design

end DesignMatrix
