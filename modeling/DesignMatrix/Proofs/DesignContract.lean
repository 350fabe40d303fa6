import DesignMatrix.Design.Basic
import DesignMatrix.Proofs.Projection

/-!
# What building a design promises

A design is built exactly if the configuration is valid, the grammar accepts the formula with a
response, the response and every predictor can be evaluated alone, and no two columns of the matrix
have the same label. The design then shows the response and the predictors as they are evaluated
alone, whatever the labels hide in the frame, and the matrix starts with a column of ones if both
the formula and the configuration want it.
-/

namespace DesignMatrix

open Outcomes

namespace Design

/-- The labels of a matrix before they are cleaned. Positions count the predictors only. -/
def rawLabels (config : Config) (parsed : ParsedFormula) : List String :=
  (if parsed.intercept && config.intercept then [config.interceptName] else []) ++
    parsed.predictors.mapIdx fun index predictor =>
      predictor.name?.getD (config.fallbackPrefix ++ toString (index + 1))

/-- The labels of a matrix. -/
def labels (config : Config) (parsed : ParsedFormula) : List String :=
  if config.cleanNames then (rawLabels config parsed).map cleanName else rawLabels config parsed

/-- A column that holds the number one in every row. -/
def constantOne (height : Nat) : Column height := ⟨.float64, .uniform (some 1)⟩

/-- What has to hold of a configuration, a frame and a formula for a design to be built. -/
structure Buildable (parser : FormulaParser) (config : Config) (frame : Frame) (formula : String) :
    Prop where
  valid : config.validate = .ok ()
  parses : ∃ parsed response, parser formula = .ok parsed ∧ parsed.response = some response ∧
    response.EvaluatesOn frame ∧
    (∀ predictor ∈ parsed.predictors, predictor.expr.EvaluatesOn frame) ∧
    (labels config parsed).Nodup

/-- What a design shows of the parsed formula that it is built for. -/
structure Fulfils (config : Config) (frame : Frame) (parsed : ParsedFormula) (design : Design) :
    Prop where
  /-- The response is the one of the formula, under the label of the configuration alone. -/
  response : ∃ expr column, parsed.response = some expr ∧ expr.Yields frame column ∧
    (⟨design.height, design.response⟩ : (height : Nat) × Series height) =
      ⟨frame.height, column.written, config.responseName⟩
  /-- The matrix is a column of ones where it is wanted, then a column for each predictor. -/
  matrix : ∃ ones predictors : List (Series frame.height),
    design.matrix.IsTable (ones ++ predictors) ∧
    (ones ++ predictors).map Series.name = labels config parsed ∧
    ones.map Series.toColumn =
      (if parsed.intercept && config.intercept then [constantOne frame.height] else []) ∧
    List.Forall₂ (fun predictor series => predictor.expr.Yields frame series.toColumn)
      parsed.predictors predictors

variable {parser : FormulaParser} {config : Config} {frame : Frame} {formula : String}

/-- The columns that are projected carry the labels, in their order. -/
theorem map_fst_columns (config : Config) (parsed : ParsedFormula) :
    (columns config parsed.predictors parsed.intercept).map Prod.fst = labels config parsed := by
  unfold columns interceptColumn labels rawLabels predictorName Config.fallbackName columnName
  by_cases clean : config.cleanNames <;>
    by_cases wanted : (parsed.intercept && config.intercept) = true <;>
    simp [clean, wanted, map_mapIdx]

/-- The expressions that are projected: the literal one if it is wanted, then the predictors. -/
theorem map_snd_columns (config : Config) (parsed : ParsedFormula) :
    (columns config parsed.predictors parsed.intercept).map Prod.snd =
      (if parsed.intercept && config.intercept then [.literal 1] else []) ++
        parsed.predictors.map Predictor.expr := by
  have exprs : (parsed.predictors.mapIdx fun _ predictor => predictor.expr) =
      parsed.predictors.map Predictor.expr := by
    apply List.ext_getElem?
    simp
  unfold columns interceptColumn
  by_cases wanted : (parsed.intercept && config.intercept) = true <;>
    simp [wanted, map_mapIdx, exprs]

/-- The only column that the literal one yields is the column of ones. -/
theorem yields_one_iff {column : Column frame.height} :
    (Expr.literal 1).Yields frame column ↔ column = constantOne frame.height := by
  constructor
  · rintro ⟨_, _, single, computed, rfl⟩
    cases single
    cases computed
    rfl
  · rintro rfl
    exact ⟨_, _, rfl, rfl, rfl⟩

theorem responseOn_eq_ok (inhabited : frame.columns ≠ [])
    (plain : config.responseName ≠ Expr.wildcard) {expr : Expr}
    {result : (height : Nat) × Series height} :
    responseOn config frame expr = .ok result ↔
      ∃ column, expr.Yields frame column ∧
        result = ⟨frame.height, column.written, config.responseName⟩ := by
  have plainLabel : Expr.wildcard ∉ [(config.responseName, expr)].map Prod.fst := by
    simpa using Ne.symm plain
  simp only [responseOn, bind_eq_ok, mapError_eq_ok, Except.ok.injEq]
  constructor
  · rintro ⟨projected, h, series, read, rfl⟩
    obtain ⟨-, shown, shows, table⟩ := (Frame.project_eq_ok inhabited plainLabel).mp h
    obtain ⟨first, _, head, tail, rfl⟩ := List.forall₂_cons_left_iff.mp shows
    rw [List.forall₂_nil_left_iff] at tail
    subst tail
    obtain ⟨_, rfl⟩ := table.2 (by simp)
    have found := Expr.readColumn_eq_ok.mp read
    simp only [Frame.column?, List.find?_cons, head.1, beq_self_eq_true, Option.some.injEq] at found
    subst found
    exact ⟨first.toColumn, head.2, by rw [Series.written, head.1]⟩
  · rintro ⟨column, yields, rfl⟩
    let series : Series frame.height := ⟨column, config.responseName⟩
    have distinct : ([series].map Series.name).Nodup := by simp
    refine ⟨⟨frame.height, [series], distinct⟩, ?_, series, ?_, rfl⟩
    · rw [Frame.project_eq_ok inhabited plainLabel]
      exact ⟨by simp, [series], .cons ⟨rfl, yields⟩ .nil, by simp, fun _ => ⟨distinct, rfl⟩⟩
    · rw [Expr.readColumn_eq_ok]
      simp [Frame.column?, series]

/-- The matrix of a design, in the terms of `Fulfils`. -/
private theorem project_columns_eq_ok {parsed : ParsedFormula} {matrix : Frame}
    (inhabited : frame.columns ≠ []) (plain : Expr.wildcard ∉ labels config parsed) :
    frame.project (columns config parsed.predictors parsed.intercept) = .ok matrix ↔
      (labels config parsed).Nodup ∧ ∃ ones predictors : List (Series frame.height),
        matrix.IsTable (ones ++ predictors) ∧
        (ones ++ predictors).map Series.name = labels config parsed ∧
        ones.map Series.toColumn =
          (if parsed.intercept && config.intercept then [constantOne frame.height] else []) ∧
        List.Forall₂ (fun predictor series => predictor.expr.Yields frame series.toColumn)
          parsed.predictors predictors := by
  have onesYield {ones : List (Series frame.height)} :
      List.Forall₂ (fun (expr : Expr) shown => expr.Yields frame (Series.toColumn shown))
        (if parsed.intercept && config.intercept then [.literal 1] else []) ones ↔
      ones.map Series.toColumn =
        if parsed.intercept && config.intercept then [constantOne frame.height] else [] := by
    by_cases wanted : (parsed.intercept && config.intercept) = true
    · simp only [wanted, if_true]
      cases ones with
      | nil => simp
      | cons first rest => simp [yields_one_iff, List.forall₂_nil_left_iff]
    · simp [wanted, List.forall₂_nil_left_iff]
  rw [← map_fst_columns] at plain
  rw [Frame.project_eq_ok inhabited plain, map_fst_columns]
  simp only [Frame.forall₂_shows_iff, map_fst_columns, map_snd_columns, forall₂_append_left_iff,
    List.forall₂_map_left_iff]
  constructor
  · rintro ⟨distinct, _, ⟨named, ones, predictors, rfl, one, shown⟩, table⟩
    exact ⟨distinct, ones, predictors, table, named, onesYield.mp one, shown⟩
  · rintro ⟨distinct, ones, predictors, table, named, one, shown⟩
    exact ⟨distinct, _, ⟨named, ones, predictors, rfl, onesYield.mpr one, shown⟩, table⟩

/-- A table of some columns can always be made. -/
private theorem exists_isTable {height : Nat} {series : List (Series height)}
    (distinct : (series.map Series.name).Nodup) : ∃ table : Frame, table.IsTable series := by
  by_cases empty : series = []
  · exact ⟨.empty, fun _ => rfl, fun nonempty => absurd empty nonempty⟩
  · exact ⟨⟨height, series, distinct⟩, fun h => absurd h empty, fun _ => ⟨distinct, rfl⟩⟩

/-- Where the labels avoid the wildcard, what is built is exactly what fulfils the promises. -/
theorem build_eq_ok (inhabited : frame.columns ≠ [])
    (plainResponse : config.responseName ≠ Expr.wildcard)
    (plain : ∀ parsed, parser formula = .ok parsed → Expr.wildcard ∉ labels config parsed)
    {design : Design} :
    build parser config frame formula = .ok design ↔ config.validate = .ok () ∧
      ∃ parsed, parser formula = .ok parsed ∧ (labels config parsed).Nodup ∧
        Fulfils config frame parsed design := by
  simp only [build, parse, requireResponse, bind_eq_ok, mapError_eq_ok, Except.ok.injEq]
  constructor
  · rintro ⟨_, valid, _, ⟨parsed, parses, expr, required, rfl⟩, ⟨height, response⟩, evaluated,
      matrix, projected, rfl⟩
    have given : parsed.response = some expr := by
      split at required <;> simp_all
    rw [project_columns_eq_ok inhabited (plain parsed parses)] at projected
    obtain ⟨distinct, table⟩ := projected
    obtain ⟨column, yields, same⟩ := (responseOn_eq_ok inhabited plainResponse).mp evaluated
    exact ⟨valid, parsed, parses, distinct, ⟨expr, column, given, yields, same⟩, table⟩
  · rintro ⟨valid, parsed, parses, distinct, ⟨expr, column, given, yields, same⟩, table⟩
    refine ⟨(), valid, ⟨expr, parsed.predictors, parsed.intercept⟩,
      ⟨parsed, parses, expr, by rw [given], rfl⟩, ⟨design.height, design.response⟩, ?_,
      design.matrix, ?_, rfl⟩
    · exact (responseOn_eq_ok inhabited plainResponse).mpr ⟨column, yields, same⟩
    · exact (project_columns_eq_ok inhabited (plain parsed parses)).mpr ⟨distinct, table⟩

/-- What is projected can be evaluated as soon as the predictors can. -/
private theorem columns_evaluateOn {parsed : ParsedFormula}
    (evaluate : ∀ predictor ∈ parsed.predictors, predictor.expr.EvaluatesOn frame)
    (inhabited : frame.columns ≠ []) {entry : String × Expr}
    (member : entry ∈ columns config parsed.predictors parsed.intercept) :
    entry.2.EvaluatesOn frame := by
  have isExpr := List.mem_map_of_mem (f := Prod.snd) member
  rw [map_snd_columns, List.mem_append] at isExpr
  rcases isExpr with one | predictor
  · split at one
    · rw [List.mem_singleton] at one
      rw [one, Frame.evaluatesOn_iff_exists_yields inhabited]
      exact ⟨_, yields_one_iff.mpr rfl⟩
    · cases one
  · obtain ⟨predictor, given, same⟩ := List.mem_map.mp predictor
    exact same ▸ evaluate predictor given

/--
Building a design succeeds exactly under the conditions of `Buildable`, and the design is then the
one that `Fulfils` describes. The labels have to avoid the wildcard, which would stand for all
columns of the frame.
-/
theorem build_iff_buildable_and_fulfils (parser : FormulaParser) (config : Config) (frame : Frame)
    (formula : String) (inhabited : frame.columns ≠ [])
    (plainResponse : config.responseName ≠ Expr.wildcard)
    (plain : ∀ parsed, parser formula = .ok parsed → Expr.wildcard ∉ labels config parsed) :
    ((∃ design, build parser config frame formula = .ok design) ↔
      Buildable parser config frame formula) ∧
    ∀ design, build parser config frame formula = .ok design →
      ∃ parsed, parser formula = .ok parsed ∧ Fulfils config frame parsed design := by
  simp only [build_eq_ok inhabited plainResponse plain]
  refine ⟨⟨?_, ?_⟩, ?_⟩
  · rintro ⟨design, valid, parsed, parses, distinct, ⟨expr, column, given, yields, -⟩, -, series, -,
      -, -, shown⟩
    refine ⟨valid, parsed, expr, parses, given, ?_, fun predictor member => ?_, distinct⟩
    · exact (Frame.evaluatesOn_iff_exists_yields inhabited).mpr ⟨column, yields⟩
    · obtain ⟨s, shows⟩ := exists_forall₂_iff.mp ⟨series, shown⟩ predictor member
      exact (Frame.evaluatesOn_iff_exists_yields inhabited).mpr ⟨s.toColumn, shows⟩
  · rintro ⟨valid, parsed, expr, parses, given, evaluates, evaluate, distinct⟩
    obtain ⟨column, yields⟩ := (Frame.evaluatesOn_iff_exists_yields inhabited).mp evaluates
    have shown : ∃ series, List.Forall₂ frame.Shows
        (columns config parsed.predictors parsed.intercept) series := by
      rw [exists_forall₂_iff]
      intro entry member
      obtain ⟨cells, shows⟩ := (Frame.evaluatesOn_iff_exists_yields inhabited).mp
        (columns_evaluateOn evaluate inhabited member)
      exact ⟨⟨cells, entry.1⟩, rfl, shows⟩
    obtain ⟨series, shown⟩ := shown
    have named := (Frame.forall₂_shows_iff.mp shown).1
    rw [map_fst_columns] at named
    obtain ⟨matrix, table⟩ := exists_isTable (named ▸ distinct)
    have plainColumns := plain parsed parses
    rw [← map_fst_columns] at plainColumns
    have projected := (Frame.project_eq_ok inhabited plainColumns).mpr
      ⟨by rwa [map_fst_columns], series, shown, table⟩
    rw [project_columns_eq_ok inhabited (plain parsed parses)] at projected
    exact ⟨⟨frame.height, ⟨column.written, config.responseName⟩, matrix⟩, valid, parsed, parses,
      distinct, ⟨expr, column, given, yields, rfl⟩, projected.2⟩
  · rintro design ⟨-, parsed, parses, -, fulfils⟩
    exact ⟨parsed, parses, fulfils⟩

/-- Two columns, of which the second has the name that the first predictor falls back to. -/
def shadowedFrame : Frame :=
  ⟨2, [⟨⟨.int64, .each #v[some 1, some 2]⟩, "y"⟩, ⟨⟨.int64, .each #v[some 3, some 4]⟩, "x1"⟩],
    by decide⟩

/-- A predictor that reports no name, and one that reads the column whose name the first takes. -/
def shadowingFormula : ParsedFormula :=
  ⟨some (.column "y"), [⟨.column "y", none⟩, ⟨.column "x1", some "z"⟩], true⟩

theorem build_shadowed :
    Buildable (fun _ => .ok shadowingFormula) .standard shadowedFrame "" ∧
    ∃ design, build (fun _ => .ok shadowingFormula) .standard shadowedFrame "" = .ok design ∧
      Fulfils .standard shadowedFrame shadowingFormula design := by
  have contract := build_iff_buildable_and_fulfils (fun _ => .ok shadowingFormula) .standard
    shadowedFrame "" (by decide) (by decide) (by rintro _ ⟨⟩; decide +kernel)
  have buildable : Buildable (fun _ => .ok shadowingFormula) .standard shadowedFrame "" := by
    refine ⟨by decide, shadowingFormula, .column "y", rfl, rfl, ⟨"", _, rfl⟩, ?_, by decide +kernel⟩
    rintro predictor (_ | ⟨_, _ | ⟨_, ⟨⟩⟩⟩)
    · exact ⟨"", _, rfl⟩
    · exact ⟨"", _, rfl⟩
  obtain ⟨design, built⟩ := contract.1.mpr buildable
  obtain ⟨_, ⟨⟩, fulfils⟩ := contract.2 design built
  exact ⟨buildable, design, built, fulfils⟩

end Design

end DesignMatrix
