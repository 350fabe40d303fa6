import DesignMatrix.Proofs.DesignGaps
import DesignMatrix.Proofs.RestrictedRows

/-!
# Designs of some of the rows

The design of a formula without `poly` on some rows of a frame fails as the design on the frame
does, or has columns of the same names and types. Rows do not influence each other: it holds the
same rows of the design on the frame, if every operator of the formula acts row by row there. If an
operator does not, this shows only where one of both frames has a single row.
-/

namespace DesignMatrix

open Outcomes

/-- The second column has the name and the type of the first one. If they have to agree exactly, it
holds the cells of the rows. -/
structure Series.Restricts {height : ℕ} (indices : List (Fin height)) (exact : Prop)
    (whole : Series height) (part : Series indices.length) : Prop where
  name : part.name = whole.name
  type : part.type = whole.type
  cells : exact → part = whole.rows indices

/-- The second frame is made of the rows of the first one, or both frames are empty. -/
inductive Frame.Restricts {height : ℕ} (indices : List (Fin height)) (exact : Prop) :
    Frame → Frame → Prop
  | empty : Restricts indices exact .empty .empty
  | rows {whole : List (Series height)} {part : List (Series indices.length)}
      (columns : List.Forall₂ (Series.Restricts indices exact) whole part)
      (distinct : (whole.map Series.name).Nodup) (distinct' : (part.map Series.name).Nodup) :
      Restricts indices exact ⟨height, whole, distinct⟩ ⟨indices.length, part, distinct'⟩

/-- The response and the matrix of the second design are made of the rows of those of the first. -/
inductive Design.Restricts {height : ℕ} (indices : List (Fin height)) (exact : Prop) :
    Design → Design → Prop
  | rows {response : Series height} {response' : Series indices.length} {matrix matrix' : Frame}
      (responses : response.Restricts indices exact response')
      (matrices : matrix.Restricts indices exact matrix') :
      Restricts indices exact ⟨height, response, matrix⟩ ⟨indices.length, response', matrix'⟩

/-- No exponent in the expression refers to a column. -/
def Arith.ConstantExponents : Arith → Prop
  | .column _ | .number _ _ | .basis _ _ _ => True
  | .negate operand => operand.ConstantExponents
  | .binary operator lhs rhs =>
    lhs.ConstantExponents ∧ rhs.ConstantExponents ∧ (operator = .power → rhs.sources = [])
  | .call _ argument => argument.ConstantExponents

/-- On the frame, every operator in the terms of the description acts row by row. -/
def Description.IsRowwise (frame : Frame) (description : Description) : Prop :=
  ∀ term ∈ description.terms, ∀ sole ∈ (Expr.ofTerm term).instances frame.names,
    sole.IsRowwise frame

namespace Series

variable {height : ℕ} {indices : List (Fin height)} {exact : Prop} {whole : Series height}
  {part : Series indices.length}

theorem Restricts.written (h : whole.Restricts indices exact part) :
    whole.written.Restricts indices exact part.written := by
  refine ⟨h.name, h.type, fun exactly => ?_⟩
  have cells : (whole.cells.rows indices).written = whole.cells.written.rows indices :=
    (Cells.rows_written indices whole.cells).symm
  rw [h.cells exactly]
  exact congrArg (fun cells => Series.mk ⟨whole.type, cells⟩ whole.name) cells

theorem restricts_toSeries {value : Value height} {value' : Value indices.length}
    (h : value.Restricts indices exact value') (name : String) :
    (value.toSeries name).Restricts indices exact (value'.toSeries name) :=
  ⟨rfl, congrArg ResultType.element h.type, fun exactly => h.cells exactly ▸ rfl⟩

theorem map_name_of_restricts {whole : List (Series height)} {part : List (Series indices.length)}
    (h : List.Forall₂ (Restricts indices exact) whole part) :
    part.map name = whole.map name := by
  induction h with
  | nil => rfl
  | cons head _ ih => rw [List.map_cons, List.map_cons, head.name, ih]

end Series

namespace Expr

theorem ConstantExponents.withColumn {expr : Expr} (h : expr.ConstantExponents) (name : String) :
    (expr.withColumn name).ConstantExponents := by
  induction expr with
  | column | literal | position | basis => trivial
  | renamed _ operand ih | call _ operand ih => exact ih h
  | binary operator lhs rhs ihl ihr =>
    refine ⟨ihl h.1, ihr h.2.1, fun power => ?_⟩
    rw [sources_withColumn, h.2.2 power, List.map_nil]

theorem constantExponents_ofArith {arith : Arith} (h : arith.ConstantExponents) :
    (ofArith arith).ConstantExponents := by
  induction arith with
  | column | number | basis => trivial
  | negate operand ih => exact ⟨ih h, trivial, fun power => nomatch power⟩
  | call _ argument ih => exact ih h
  | binary operator lhs rhs ihl ihr =>
    exact ⟨ihl h.1, ihr h.2.1, fun power => (sources_ofArith rhs).trans (h.2.2 power)⟩

theorem constantExponents_ofTerm {term : Term}
    (h : ∀ factor ∈ term.factors, factor.value.ConstantExponents) :
    (ofTerm term).ConstantExponents := by
  refine product_induction (p := ConstantExponents) trivial
    (fun _ _ left right => ⟨left, right, fun power => nomatch power⟩) fun expr isExpr => ?_
  obtain ⟨factor, inside, rfl⟩ := List.mem_map.mp isExpr
  exact constantExponents_ofArith (h factor inside)

end Expr

theorem Column.doubles_rows {height : ℕ} (column : Column height) (indices : List (Fin height)) :
    (column.rows indices).doubles = indices.filterMap fun row => column.doubles[row.val]? := by
  have present : (fun row : Fin height => column.doubles[row.val]?) =
      some ∘ fun row => (column.cells.get row).bind column.type.toDouble? := by
    funext row
    rw [doubles, List.getElem?_map, Cells.getElem?_toList]
    rfl
  rw [present, List.filterMap_eq_map, doubles]
  simp only [rows, Cells.toList_rows, List.map_map]
  rfl

namespace Frame

section Columns

variable {height : ℕ} {indices : List (Fin height)} {exact : Prop} {whole : List (Series height)}
  {part : List (Series indices.length)}

theorem restricts_putColumn (h : List.Forall₂ (Series.Restricts indices exact) whole part)
    {series : Series height} {series' : Series indices.length}
    (added : series.Restricts indices exact series') :
    List.Forall₂ (Series.Restricts indices exact) (putColumn whole series)
      (putColumn part series') := by
  unfold putColumn
  rw [Series.map_name_of_restricts h, added.name]
  split
  · rw [List.forall₂_map_left_iff, List.forall₂_map_right_iff]
    refine h.imp fun column column' related => ?_
    rw [related.name]
    split
    · exact added
    · exact related
  · exact List.rel_append h (.cons added .nil)

theorem restricts_foldl_putColumn {more : List (Series height)}
    {more' : List (Series indices.length)}
    (h : List.Forall₂ (Series.Restricts indices exact) whole part)
    (added : List.Forall₂ (Series.Restricts indices exact) more more') :
    List.Forall₂ (Series.Restricts indices exact) (more.foldl putColumn whole)
      (more'.foldl putColumn part) := by
  induction added generalizing whole part with
  | nil => exact h
  | cons head _ ih => exact ih (restricts_putColumn h head)

theorem matches_ofSeries (h : List.Forall₂ (Series.Restricts indices exact) whole part) :
    Matches (Restricts indices exact) (ofSeries whole) (ofSeries part) := by
  have names := Series.map_name_of_restricts h
  cases repeated : firstRepeated? (whole.map Series.name) with
  | some name =>
    have failed {height : ℕ} {columns : List (Series height)}
        (repeated : firstRepeated? (columns.map Series.name) = some name) :
        ofSeries columns = .error (.duplicateColumn name) := by
      unfold ofSeries
      split
      · rename_i other found
        rw [Option.some.inj (found.symm.trans repeated)]
      · rename_i none
        cases none.symm.trans repeated
    rw [failed repeated, failed (names ▸ repeated)]
    exact .error _
  | none =>
    have distinct := nodup_of_firstRepeated? repeated
    have distinct' : (part.map Series.name).Nodup := names ▸ distinct
    rw [ofSeries_eq_ok.mpr ⟨distinct, rfl⟩, ofSeries_eq_ok.mpr ⟨distinct', rfl⟩]
    exact .ok (.rows h distinct distinct')

end Columns

theorem Restricts.names_eq {height : ℕ} {indices : List (Fin height)} {exact : Prop}
    {whole part : Frame} (h : whole.Restricts indices exact part) : part.names = whole.names := by
  cases h with
  | empty => rfl
  | rows columns => exact Series.map_name_of_restricts columns

/-- As doubles, the columns of the second frame are the rows of those of the first. -/
theorem Restricts.map_doubles {height : ℕ} {indices : List (Fin height)} {exact : Prop}
    {whole part : Frame} (h : whole.Restricts indices exact part) (exactly : exact) :
    (part.columns.map fun series => series.doubles) =
      (whole.columns.map fun series => series.doubles).map fun cells =>
        indices.filterMap fun row => cells[row.val]? := by
  cases h with
  | empty => rfl
  | @rows whole part columns =>
    show part.map _ = (whole.map _).map _
    rw [List.map_map, ← List.forall₂_eq_eq_eq, List.forall₂_map_left_iff,
      List.forall₂_map_right_iff]
    refine columns.flip.imp fun series' series related => ?_
    rw [related.cells exactly]
    exact series.toColumn.doubles_rows indices

/-- A column that is found in both frames is the same but for the rows. -/
theorem restricts_find? {height : ℕ} {indices : List (Fin height)} {exact : Prop}
    {columns : List (Series height)} {columns' : List (Series indices.length)}
    (h : List.Forall₂ (Series.Restricts indices exact) columns columns') (name : String) :
    Option.Rel (Series.Restricts indices exact) (columns.find? fun series => series.name == name)
      (columns'.find? fun series => series.name == name) := by
  induction h with
  | nil => exact .none
  | @cons series series' _ _ head _ ih =>
    simp only [List.find?_cons, head.name]
    by_cases found : (series.name == name) = true
    · simp only [found]
      exact .some head
    · simp only [found]
      exact ih

theorem matches_readColumn {height : ℕ} {indices : List (Fin height)} {exact : Prop}
    {columns : List (Series height)} {columns' : List (Series indices.length)}
    (h : List.Forall₂ (Series.Restricts indices exact) columns columns')
    (distinct : (columns.map Series.name).Nodup) (distinct' : (columns'.map Series.name).Nodup)
    (name : String) :
    Matches (Series.Restricts indices exact) (Expr.readColumn ⟨height, columns, distinct⟩ name)
      (Expr.readColumn ⟨indices.length, columns', distinct'⟩ name) := by
  have found := restricts_find? h name
  unfold Expr.readColumn column?
  simp only
  generalize columns.find? _ = series at found ⊢
  generalize columns'.find? _ = series' at found ⊢
  cases found with
  | none => exact .error _
  | some related => exact .ok related

theorem matches_choose {height : ℕ} {indices : List (Fin height)} {exact : Prop}
    {columns : List (Series height)} {columns' : List (Series indices.length)}
    (h : List.Forall₂ (Series.Restricts indices exact) columns columns')
    (distinct : (columns.map Series.name).Nodup) (distinct' : (columns'.map Series.name).Nodup)
    (names : List String) :
    Matches (Restricts indices exact) (choose ⟨height, columns, distinct⟩ names)
      (choose ⟨indices.length, columns', distinct'⟩ names) := by
  have available : Frame.names ⟨indices.length, columns', distinct'⟩ =
      Frame.names ⟨height, columns, distinct⟩ := Series.map_name_of_restricts h
  unfold choose
  rw [available]
  exact (Matches.mapM fun name _ => matches_readColumn h distinct distinct' name).bind
    fun _ _ _ found => matches_ofSeries found

variable {frame : Frame} (indices : List (Fin frame.height))

theorem restricts_rows (exact : Prop) :
    List.Forall₂ (Series.Restricts indices exact) frame.columns (frame.rows indices).columns :=
  List.forall₂_map_right_iff.mpr (List.forall₂_same.mpr fun _ _ => ⟨rfl, rfl, fun _ => rfl⟩)

@[simp] theorem instancesOf_rows (columns : List (String × Expr)) :
    (frame.rows indices).instancesOf columns = frame.instancesOf columns := by
  simp [instancesOf]

@[simp] theorem check_rows (clash : String → FrameError) (columns : List (String × Expr)) :
    (frame.rows indices).check clash columns = frame.check clash columns := by
  simp only [check, Expr.missing?_rows, Expr.typeOn_rows]

/-- Every operator of the named expressions acts row by row. -/
def IsRowwise (frame : Frame) (columns : List (String × Expr)) : Prop :=
  ∀ entry ∈ frame.instancesOf columns, entry.2.IsRowwise frame

theorem plain_instancesOf {columns : List (String × Expr)}
    (plain : ∀ entry ∈ columns, entry.2.Elementwise ∧ entry.2.ConstantExponents) :
    ∀ entry ∈ frame.instancesOf columns, entry.2.Elementwise ∧ entry.2.ConstantExponents := by
  intro entry member
  obtain ⟨⟨name, expr⟩, given, isInstance⟩ := List.mem_flatMap.mp member
  obtain ⟨sole, instances, rfl⟩ := List.mem_map.mp isInstance
  obtain ⟨elementwise, constant⟩ := plain _ given
  unfold Expr.instances at instances
  split at instances
  · obtain ⟨column, -, rfl⟩ := List.mem_map.mp instances
    exact ⟨elementwise.withColumn column, constant.withColumn column⟩
  · obtain rfl := List.mem_singleton.mp instances
    exact ⟨elementwise, constant⟩

theorem matches_values {columns : List (String × Expr)} {exact : Prop}
    (plain : ∀ entry ∈ columns, entry.2.Elementwise ∧ entry.2.ConstantExponents)
    (rowwise : exact → (frame.height = 1 ↔ indices.length = 1) ∨
      ∀ entry ∈ columns, entry.2.IsRowwise frame) :
    Matches (List.Forall₂ fun (value : String × Value frame.height)
        (value' : String × Value indices.length) =>
        value'.1 = value.1 ∧ value.2.Restricts indices exact value'.2)
      (frame.values columns) ((frame.rows indices).values columns) := by
  refine Matches.mapM fun entry member => ?_
  obtain ⟨elementwise, constant⟩ := plain entry member
  have values := Expr.matches_valueOn indices elementwise constant fun exactly =>
    (rowwise exactly).imp_right fun rowwise => rowwise entry member
  exact values.map fun _ _ related => ⟨rfl, related⟩

theorem restricts_extend {exact : Prop} {values : List (String × Value frame.height)}
    {values' : List (String × Value indices.length)}
    (h : List.Forall₂ (fun (value : String × Value frame.height)
      (value' : String × Value indices.length) =>
        value'.1 = value.1 ∧ value.2.Restricts indices exact value'.2) values values') :
    List.Forall₂ (Series.Restricts indices exact) (frame.extend values).columns
      ((frame.rows indices).extend values').columns := by
  have added := h.imp fun value value' related => show Series.Restricts indices exact
    (value.2.toSeries value.1) (value'.2.toSeries value'.1) from
      related.1 ▸ Series.restricts_toSeries related.2 value.1
  exact restricts_foldl_putColumn (restricts_rows indices exact)
    (List.forall₂_map_left_iff.mpr (List.forall₂_map_right_iff.mpr added))

theorem matches_project (inhabited : frame.columns ≠ []) {columns : List (String × Expr)}
    {exact : Prop} (plain : ∀ entry ∈ columns, entry.2.Elementwise ∧ entry.2.ConstantExponents)
    (rowwise : exact → (frame.height = 1 ↔ indices.length = 1) ∨ frame.IsRowwise columns) :
    Matches (Restricts indices exact) (frame.project columns)
      ((frame.rows indices).project columns) := by
  have whole : frame.forEvaluation = frame := by simp [forEvaluation, inhabited]
  have part : (frame.rows indices).forEvaluation = frame.rows indices := by
    simp [forEvaluation, rows, inhabited]
  unfold project
  split
  · exact .ok .empty
  · rw [whole, part]
    simp only [instancesOf_rows, check_rows, names_rows]
    have values := matches_values indices (plain_instancesOf plain) rowwise
    exact (Matches.refl (fun _ => rfl) _).bind fun _ _ _ _ =>
      (Matches.refl (fun _ => rfl) _).bind fun _ _ _ _ => values.bind fun _ _ _ related =>
        (matches_choose (restricts_extend indices related) _ _ _).mapError _

end Frame

namespace Design

variable {config : Config} {frame : Frame} {text : String} {indices : List (Fin frame.height)}
  {exact : Prop}

theorem matches_responseOn (inhabited : frame.columns ≠ []) {expr : Expr}
    (plain : expr.Elementwise ∧ expr.ConstantExponents)
    (rowwise : exact → (frame.height = 1 ↔ indices.length = 1) ∨
      ∀ sole ∈ expr.instances frame.names, sole.IsRowwise frame) :
    Matches (fun (whole part : (height : ℕ) × Series height) =>
        ∃ (series : Series frame.height) (series' : Series indices.length),
          whole = ⟨_, series⟩ ∧ part = ⟨_, series'⟩ ∧ series.Restricts indices exact series')
      (responseOn config frame expr) (responseOn config (frame.rows indices) expr) := by
  have rowwiseColumns : exact → (frame.height = 1 ↔ indices.length = 1) ∨
      frame.IsRowwise [(config.responseName, expr)] := by
    refine fun exactly => (rowwise exactly).imp_right fun rowwise entry member => ?_
    obtain ⟨sole, isInstance, rfl⟩ : ∃ sole ∈ expr.instances frame.names,
        (config.responseName, sole) = entry := by
      simpa [Frame.instancesOf] using member
    exact rowwise sole isInstance
  refine (Frame.matches_project indices inhabited (List.forall_mem_singleton.mpr plain)
    rowwiseColumns).bind fun _ _ _ projected => ?_
  cases projected with
  | empty => exact .error _
  | rows columns distinct distinct' =>
    exact ((Frame.matches_readColumn columns distinct distinct' _).mapError _).bind
      fun series series' _ read => .ok ⟨_, _, rfl, rfl, read.written⟩

/-- The expression of a column is the literal one or that of a predictor. -/
theorem mem_columns {predictors : List Predictor} {intercept : Bool} {entry : String × Expr}
    (member : entry ∈ columns config predictors intercept) :
    entry.2 = .literal 1 ∨ ∃ predictor ∈ predictors, entry.2 = predictor.expr := by
  rcases List.mem_append.mp member with constant | predictor
  · unfold interceptColumn at constant
    split at constant
    · exact .inl (List.mem_singleton.mp constant ▸ rfl)
    · cases constant
  · obtain ⟨index, inside, rfl⟩ := List.mem_mapIdx.mp predictor
    exact .inr ⟨_, List.getElem_mem inside, rfl⟩

/-- The expressions of a parsed formula are those of the terms that its text describes. -/
theorem exists_describe_of_parse {response : Expr} {predictors : List Predictor} {intercept : Bool}
    (h : parse standardParser text = .ok (response, predictors, intercept)) :
    ∃ description, describe text = .ok description ∧
      (∃ term ∈ description.terms, Expr.ofTerm term = response) ∧
      ∀ predictor ∈ predictors, ∃ term ∈ description.terms, Expr.ofTerm term = predictor.expr := by
  simp only [parse, standardParser, bind_eq_ok, map_eq_ok, Except.ok.injEq, Prod.mk.injEq] at h
  obtain ⟨_, ⟨description, described, rfl⟩, _, required, rfl, rfl, rfl⟩ := h
  refine ⟨description, described, ?_, fun predictor member => ?_⟩
  · cases found : description.response with
    | none => simp [requireResponse, ParsedFormula.ofDescription, found] at required
    | some term =>
      refine ⟨term, by simp [Description.terms, found], ?_⟩
      simpa [requireResponse, ParsedFormula.ofDescription, found] using required
  · obtain ⟨term, isPredictor, rfl⟩ := List.mem_map.mp member
    exact ⟨term, List.mem_append_right _ isPredictor, rfl⟩

/-- The frame and the chosen rows both are a single row or both are not, or every operator of the
formula acts row by row. -/
def AgreesOnRows (frame : Frame) (indices : List (Fin frame.height)) (text : String) : Prop :=
  (frame.height = 1 ↔ indices.length = 1) ∨
    ∀ description, describe text = .ok description → description.IsRowwise frame

/-- Building on some rows fails as building on all rows does, or the design has the same names and
types. If every operator of the formula acts row by row, it holds these rows of the whole design. -/
theorem matches_build_rows (inhabited : frame.columns ≠ []) (indices : List (Fin frame.height))
    (config : Config) (plain : ∀ formula, Formula.parse text = .ok formula →
      formula.WithoutPoly ∧ ∀ factor ∈ formula.factors, factor.value.ConstantExponents) :
    Matches (Design.Restricts indices (AgreesOnRows frame indices text))
      (build standardParser config frame text)
      (build standardParser config (frame.rows indices) text) := by
  refine (Matches.refl (fun _ => rfl) _).bind fun _ _ _ _ => ?_
  refine (Matches.refl (fun _ => rfl) _).bind fun parts _ found same => ?_
  subst same
  obtain ⟨response, predictors, intercept⟩ := parts
  obtain ⟨description, described, ⟨left, isLeft, rfl⟩, right⟩ :=
    exists_describe_of_parse (mapError_eq_ok.mp found)
  obtain ⟨formula, parsed, ofFormula⟩ := bind_eq_ok.mp described
  obtain ⟨withoutPoly, constant⟩ := plain formula parsed
  have plainTerm (term : Term) (member : term ∈ description.terms) :
      (Expr.ofTerm term).Elementwise ∧ (Expr.ofTerm term).ConstantExponents :=
    ⟨Formula.elementwise_of_describe parsed withoutPoly ofFormula member,
      Expr.constantExponents_ofTerm fun factor inside =>
        constant factor (Formula.mem_factors_of_describe ofFormula member factor inside)⟩
  have rowwise : AgreesOnRows frame indices text →
      (frame.height = 1 ↔ indices.length = 1) ∨ description.IsRowwise frame :=
    Or.imp_right fun rowwise => rowwise description described
  generalize AgreesOnRows frame indices text = exact at rowwise ⊢
  refine ((matches_responseOn inhabited (plainTerm left isLeft) fun exactly =>
    (rowwise exactly).imp_right fun rowwise => rowwise left isLeft).mapError _).bind ?_
  rintro _ _ - ⟨series, series', rfl, rfl, responses⟩
  refine ((Frame.matches_project indices inhabited ?_ fun exactly =>
    (rowwise exactly).imp_right fun rowwise => ?_).mapError _).bind
      fun _ _ _ matrices => .ok (.rows responses matrices)
  · intro entry member
    rcases mem_columns member with one | ⟨predictor, given, same⟩
    · exact one ▸ ⟨trivial, trivial⟩
    · obtain ⟨term, isTerm, ofTerm⟩ := right predictor given
      exact same.trans ofTerm.symm ▸ plainTerm term isTerm
  · intro entry member
    obtain ⟨⟨name, expr⟩, given, isInstance⟩ := List.mem_flatMap.mp member
    obtain ⟨sole, instances, rfl⟩ := List.mem_map.mp isInstance
    rcases mem_columns given with one | ⟨predictor, listed, same⟩
    · obtain rfl : expr = .literal 1 := one
      obtain rfl := List.mem_singleton.mp instances
      trivial
    · obtain ⟨term, isTerm, ofTerm⟩ := right predictor listed
      obtain rfl : expr = Expr.ofTerm term := same.trans ofTerm.symm
      exact rowwise term isTerm sole instances

/-- Two rows, the first of them with a negative zero. -/
def pairFrame : Frame where
  height := 2
  columns := [⟨⟨.int64, .each #v[some 4, some 3]⟩, "y"⟩,
    ⟨⟨.float64, .each #v[some (-0.0), some 1]⟩, "x"⟩]
  distinct := by decide

def firstRow : List (Fin pairFrame.height) := [⟨0, by decide⟩]

def lastRow : List (Fin pairFrame.height) := [⟨1, by decide⟩]

theorem agreesOnRows_pairFrame : AgreesOnRows pairFrame lastRow "y ~ I(x + 1)" := by
  let sum := Factor.ofArith (.binary .add (.column "x") (.number 1 "1"))
  have described : describe "y ~ I(x + 1)" = .ok ⟨some ⟨[.ofColumn "y"]⟩, [⟨[sum]⟩], true⟩ := by
    decide +kernel
  refine .inr fun description found => ?_
  obtain rfl := Except.ok.inj (described.symm.trans found)
  have alone : (Expr.ofTerm ⟨[sum]⟩).instances pairFrame.names = [Expr.ofTerm ⟨[sum]⟩] := rfl
  rintro term (_ | ⟨_, _ | ⟨_, ⟨⟩⟩⟩) sole isInstance
  · obtain rfl := List.mem_singleton.mp isInstance
    trivial
  · rw [alone, List.mem_singleton] at isInstance
    subst isInstance
    refine ⟨trivial, trivial, fun left right isColumn isOne => Operator.isRowwise_of_isPlain ?_⟩
    cases isColumn
    cases isOne
    rintro _ ⟨⟩ row x y - ⟨⟩
    exact ⟨fun _ spread => (by cases spread), fun _ _ => by decide +kernel, fun _ => by decide⟩

/-- A number other than zero can be added to all rows or to some of them. -/
theorem restricts_build_lastRow : AgreesOnRows pairFrame lastRow "y ~ I(x + 1)" ∧ ∃ whole part,
    build standardParser .standard pairFrame "y ~ I(x + 1)" = .ok whole ∧
    build standardParser .standard (pairFrame.rows lastRow) "y ~ I(x + 1)" = .ok part ∧
    whole.Restricts lastRow (AgreesOnRows pairFrame lastRow "y ~ I(x + 1)") part := by
  let sum := Factor.ofArith (.binary .add (.column "x") (.number 1 "1"))
  have parsed : Formula.parse "y ~ I(x + 1)" =
      .ok ⟨some (.factor (.ofColumn "y")), .factor sum⟩ := by decide +kernel
  have plain : ∀ formula, Formula.parse "y ~ I(x + 1)" = .ok formula →
      formula.WithoutPoly ∧ ∀ factor ∈ formula.factors, factor.value.ConstantExponents := by
    intro formula found
    obtain rfl := Except.ok.inj (parsed.symm.trans found)
    simp [Formula.WithoutPoly, Formula.sides, Tree.WithoutPoly, Formula.factors, Tree.factors,
      Factor.ofColumn, sum, Factor.ofArith, Arith.ConstantExponents]
  obtain ⟨part, built, -⟩ : ∃ part,
      build standardParser .standard (pairFrame.rows lastRow) "y ~ I(x + 1)" = .ok part ∧
      part.height = 1 := exists_of_toOption (by decide +kernel)
  have related := matches_build_rows (by decide) lastRow .standard plain
  rw [built] at related
  generalize build standardParser .standard pairFrame "y ~ I(x + 1)" = outcome at related ⊢
  cases related with
  | ok related => exact ⟨agreesOnRows_pairFrame, _, part, rfl, built, related⟩

/-- A zero that is added to all rows keeps the sign of a zero, and to a single row it does not. -/
theorem not_restricts_build_firstRow : pairFrame.columns ≠ [] ∧
    (∃ formula, Formula.parse "y ~ 0 + I(1 / (x + 0))" = .ok formula ∧ formula.WithoutPoly ∧
      ∀ factor ∈ formula.factors, factor.value.ConstantExponents) ∧ ∃ whole part,
    build standardParser .standard pairFrame "y ~ 0 + I(1 / (x + 0))" = .ok whole ∧
    build standardParser .standard (pairFrame.rows firstRow) "y ~ 0 + I(1 / (x + 0))" = .ok part ∧
    (whole.matrix.columns.map fun series => series.doubles) = [[some (-1 / 0), some 1]] ∧
    (part.matrix.columns.map fun series => series.doubles) = [[some (1 / 0)]] ∧
    ¬whole.Restricts firstRow True part := by
  let quotient := Factor.ofArith (.binary .divide (.number 1 "1")
    (.binary .add (.column "x") (.number 0 "0")))
  have parsed : Formula.parse "y ~ 0 + I(1 / (x + 0))" =
      .ok ⟨some (.factor (.ofColumn "y")), .binary .add .zero (.factor quotient)⟩ := by
    decide +kernel
  obtain ⟨whole, built, cells⟩ : ∃ whole,
      build standardParser .standard pairFrame "y ~ 0 + I(1 / (x + 0))" = .ok whole ∧
      (whole.matrix.columns.map fun series => series.doubles) = [[some (-1 / 0), some 1]] :=
    exists_of_toOption (by decide +kernel)
  obtain ⟨part, built', cells'⟩ : ∃ part,
      build standardParser .standard (pairFrame.rows firstRow) "y ~ 0 + I(1 / (x + 0))" =
        .ok part ∧
      (part.matrix.columns.map fun series => series.doubles) = [[some (1 / 0)]] :=
    exists_of_toOption (by decide +kernel)
  refine ⟨by decide, ⟨_, parsed, ?_, ?_⟩, whole, part, built, built', cells, cells', ?_⟩
  · simp [Formula.WithoutPoly, Formula.sides, Tree.WithoutPoly]
  · simp [Formula.factors, Formula.sides, Tree.factors, Factor.ofColumn, quotient,
      Factor.ofArith, Arith.ConstantExponents]
  · rintro ⟨-, matrices⟩
    have restricted := matrices.map_doubles trivial
    rw [cells, cells'] at restricted
    exact absurd restricted (by decide +kernel)

end Design

end DesignMatrix
