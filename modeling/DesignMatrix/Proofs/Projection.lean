import Mathlib.Data.List.Induction
import Mathlib.Data.List.Nodup
import DesignMatrix.Proofs.Evaluation

/-!
# Projections

A projection adds the values of named expressions to a frame and then chooses them by name. For
names other than the wildcard, nothing of that detour shows: the projection succeeds exactly if
every expression has a value of its own and the names are distinct, and it holds just those values,
in their order. A frame without columns counts as one with at least one row.
-/

namespace DesignMatrix

open Outcomes

theorem firstRepeated?_eq_none_iff {names : List String} :
    firstRepeated? names = none ↔ names.Nodup := by
  refine ⟨nodup_of_firstRepeated?, fun h => ?_⟩
  induction names with
  | nil => rfl
  | cons name rest ih =>
    rw [List.nodup_cons] at h
    simp [firstRepeated?, h.1, ih h.2]

namespace Frame

section Lookup

variable {height : Nat} {columns more : List (Series height)}

private theorem find?_replaced_of_ne {series : Series height} {name : String}
    (columns : List (Series height)) (other : series.name ≠ name) :
    (columns.map fun column => if column.name = series.name then series else column).find?
        (fun column => column.name == name) =
      columns.find? fun column => column.name == name := by
  induction columns with
  | nil => rfl
  | cons column columns ih =>
    by_cases same : column.name = series.name
    · simp only [List.map_cons, same, if_true, List.find?_cons, beq_eq_false_iff_ne.mpr other, ih]
    · simp only [List.map_cons, same, if_false, List.find?_cons, ih]

private theorem find?_replaced_self {series : Series height} {columns : List (Series height)}
    (present : series.name ∈ columns.map Series.name) :
    (columns.map fun column => if column.name = series.name then series else column).find?
        (fun column => column.name == series.name) = some series := by
  induction columns with
  | nil => simp at present
  | cons column columns ih =>
    by_cases same : column.name = series.name
    · simp [same]
    · have rest : series.name ∈ columns.map Series.name := by
        simpa [Ne.symm same] using present
      simp only [List.map_cons, same, if_false, List.find?_cons, beq_eq_false_iff_ne.mpr same,
        ih rest]

/-- A column that is put is found by its name, and the others still are. -/
theorem find?_putColumn (columns : List (Series height)) (series : Series height) (name : String) :
    (putColumn columns series).find? (fun column => column.name == name) =
      if series.name = name then some series
      else columns.find? fun column => column.name == name := by
  unfold putColumn
  by_cases wanted : series.name = name
  · subst wanted
    split
    · rename_i present
      simp [find?_replaced_self present]
    · rename_i absent
      have before : columns.find? (fun column => column.name == series.name) = none := by
        rw [List.find?_eq_none]
        intro column member
        have : column.name ≠ series.name := fun e => absent (List.mem_map.mpr ⟨column, member, e⟩)
        simp [this]
      simp [List.find?_append, before]
  · split
    · exact find?_replaced_of_ne columns wanted
    · simp [List.find?_append, wanted]

/-- Of columns with distinct names that are put one after the other, each is found by its name. -/
theorem find?_foldl_putColumn {series : Series height} (distinct : (more.map Series.name).Nodup)
    (present : series ∈ more) :
    (more.foldl putColumn columns).find? (fun column => column.name == series.name) =
      some series := by
  induction more using List.reverseRecOn with
  | nil => simp at present
  | append_singleton more last ih =>
    rw [List.foldl_append, List.foldl_cons, List.foldl_nil, find?_putColumn]
    simp only [List.map_append, List.map_cons, List.map_nil, List.nodup_append] at distinct
    rcases List.mem_append.mp present with before | isLast
    · have differs : last.name ≠ series.name := fun e =>
        distinct.2.2 _ (List.mem_map.mpr ⟨series, before, rfl⟩) _ (by simp) e.symm
      rw [if_neg differs, ih distinct.1 before]
    · rw [List.mem_singleton] at isLast
      subst isLast
      simp

end Lookup

/-- Names without the wildcard stand for themselves. -/
theorem chosen_eq_self {available names : List String} (h : Expr.wildcard ∉ names) :
    chosen available names = names := by
  induction names with
  | nil => rfl
  | cons name names ih =>
    rw [List.mem_cons, not_or] at h
    have self := ih h.2
    unfold chosen at self ⊢
    rw [List.flatMap_cons, self, if_neg (Ne.symm h.1), List.singleton_append]

theorem ofSeries_eq_ok {height : Nat} {columns : List (Series height)} {frame : Frame} :
    ofSeries columns = .ok frame ↔
      ∃ distinct : (columns.map Series.name).Nodup, frame = ⟨height, columns, distinct⟩ := by
  unfold ofSeries
  split
  · rename_i name repeated
    have notDistinct : ¬(columns.map Series.name).Nodup := fun h => by
      simp [firstRepeated?_eq_none_iff.mpr h] at repeated
    simp [notDistinct]
  · rename_i none
    have distinct := nodup_of_firstRepeated? none
    simp [distinct, eq_comm]

/-- The frame holds these columns in this order. Without columns it has no rows either. -/
def IsTable {height : Nat} (series : List (Series height)) (frame : Frame) : Prop :=
  (series = [] → frame = empty) ∧
    (series ≠ [] → ∃ distinct, frame = ⟨height, series, distinct⟩)

/-- The series has the label of a named expression and the cells that the expression yields. -/
def Shows (frame : Frame) (entry : String × Expr) (series : Series frame.height) : Prop :=
  series.name = entry.1 ∧ entry.2.Yields frame series.toColumn

/-- What a list of named expressions shows, the labels apart from the cells. -/
theorem forall₂_shows_iff {frame : Frame} {columns : List (String × Expr)}
    {series : List (Series frame.height)} :
    List.Forall₂ frame.Shows columns series ↔ series.map Series.name = columns.map Prod.fst ∧
      List.Forall₂ (fun expr (shown : Series frame.height) => expr.Yields frame shown.toColumn)
        (columns.map Prod.snd) series := by
  induction columns generalizing series with
  | nil => cases series <;> simp
  | cons entry columns ih =>
    cases series with
    | nil => simp
    | cons first series =>
      simp only [List.forall₂_cons, ih, Shows, List.map_cons, List.cons.injEq]
      tauto

section Projection

variable {frame : Frame} {columns : List (String × Expr)}

/-- A named expression and the single instance that it has on the frame. -/
private def IsSole (frame : Frame) (entry sole : String × Expr) : Prop :=
  sole.1 = entry.1 ∧ entry.2.instances frame.names = [sole.2]

private theorem instances_ne_nil (inhabited : frame.columns ≠ []) (expr : Expr) :
    expr.instances frame.names ≠ [] := by
  unfold Expr.instances
  split
  · simpa [names] using inhabited
  · simp

private theorem instancesOf_cons (name : String) (expr : Expr) :
    frame.instancesOf ((name, expr) :: columns) =
      (expr.instances frame.names).map (name, ·) ++ frame.instancesOf columns := by
  simp [instancesOf]

private theorem instancesOf_of_soles {soles : List (String × Expr)}
    (h : List.Forall₂ (IsSole frame) columns soles) : frame.instancesOf columns = soles := by
  induction h with
  | nil => rfl
  | @cons entry sole columns soles head tail ih =>
    obtain ⟨name, expr⟩ := entry
    obtain ⟨_, sole⟩ := sole
    obtain ⟨rfl, single⟩ := head
    rw [instancesOf_cons, single, ih]
    rfl

/-- The instances of one expression share its name, so distinct names leave room for only one. -/
private theorem soles_of_nodup
    (nonempty : ∀ entry ∈ columns, entry.2.instances frame.names ≠ [])
    (distinct : ((frame.instancesOf columns).map Prod.fst).Nodup) :
    List.Forall₂ (IsSole frame) columns (frame.instancesOf columns) := by
  induction columns with
  | nil => exact .nil
  | cons entry columns ih =>
    obtain ⟨name, expr⟩ := entry
    obtain ⟨first, rest⟩ := List.forall_mem_cons.mp nonempty
    rw [instancesOf_cons] at distinct ⊢
    match single : expr.instances frame.names with
    | [] => exact absurd single first
    | [sole] =>
      simp only [single, List.map_cons, List.map_nil, List.singleton_append, List.nodup_cons]
        at distinct
      exact .cons ⟨rfl, single⟩ (ih rest distinct.2)
    | sole :: other :: rest => simp [single] at distinct

private theorem names_of_soles {soles : List (String × Expr)}
    (h : List.Forall₂ (IsSole frame) columns soles) :
    soles.map Prod.fst = columns.map Prod.fst := by
  induction h with
  | nil => rfl
  | cons head _ ih => rw [List.map_cons, List.map_cons, head.1, ih]

/-- The value of a named expression, under its name. -/
private def IsValue (frame : Frame) (entry : String × Expr) (value : String × Value frame.height) :
    Prop :=
  value.1 = entry.1 ∧ entry.2.valueOn frame = .ok value.2

private theorem values_eq_ok {results : List (String × Value frame.height)} :
    frame.values columns = .ok results ↔ List.Forall₂ (IsValue frame) columns results := by
  have pointwise : (fun (entry : String × Expr) value =>
      (entry.2.valueOn frame).map (entry.1, ·) = .ok value) = IsValue frame := by
    funext entry ⟨name, value⟩
    simp only [map_eq_ok, IsValue, Prod.mk.injEq, eq_iff_iff]
    constructor
    · rintro ⟨_, h, rfl, rfl⟩
      exact ⟨rfl, h⟩
    · rintro ⟨rfl, h⟩
      exact ⟨value, h, rfl, rfl⟩
  rw [← pointwise]
  exact mapM_eq_ok

private theorem names_of_values {results : List (String × Value frame.height)}
    (h : List.Forall₂ (IsValue frame) columns results) :
    results.map Prod.fst = columns.map Prod.fst := by
  induction h with
  | nil => rfl
  | cons head _ ih => rw [List.map_cons, List.map_cons, head.1, ih]

private theorem nothing_missing_of_values {results : List (String × Value frame.height)}
    (h : List.Forall₂ (IsValue frame) columns results) :
    columns.findSome? (fun column => column.2.missing? frame) = none := by
  induction h with
  | nil => rfl
  | cons head _ ih => simp [Expr.missing?_of_valueOn head.2, ih]

/-- Expressions that have values pass the checks ahead of evaluation if their names are distinct. -/
private theorem check_of_values {clash : String → FrameError}
    {results : List (String × Value frame.height)}
    (h : List.Forall₂ (IsValue frame) columns results) (distinct : (columns.map Prod.fst).Nodup) :
    frame.check clash columns = .ok () := by
  have nothingMissing := nothing_missing_of_values h
  have typed : columns.mapM (fun (column : String × Expr) => column.2.typeOn frame) =
      .ok (results.map fun value => value.2.type) := by
    rw [mapM_eq_ok, List.forall₂_map_right_iff]
    exact h.imp fun _ _ value => Expr.typeOn_of_valueOn value.2
  simp [check, nothingMissing, firstRepeated?_eq_none_iff.mpr distinct, typed, Except.map]

private theorem nodup_of_check {clash : String → FrameError}
    (h : frame.check clash columns = .ok ()) : (columns.map Prod.fst).Nodup := by
  unfold check at h
  split at h
  · cases h
  · split at h
    · cases h
    · rename_i unrepeated
      exact nodup_of_firstRepeated? unrepeated

private theorem mem_foldl_putName {available more : List String} {name : String} :
    name ∈ more.foldl putName available ↔ name ∈ available ∨ name ∈ more := by
  induction more generalizing available with
  | nil => simp
  | cons new more ih =>
    rw [List.foldl_cons, ih]
    unfold putName
    by_cases known : new ∈ available
    · rw [if_pos known, List.mem_cons]
      constructor
      · rintro (h | h)
        · exact .inl h
        · exact .inr (.inr h)
      · rintro (h | rfl | h)
        · exact .inl h
        · exact .inl known
        · exact .inr h
    · simp [known, or_assoc]

private theorem checkChosen_of_nodup {available chosenNames : List String}
    (plain : Expr.wildcard ∉ chosenNames) (distinct : chosenNames.Nodup) :
    checkChosen (chosenNames.foldl putName available) chosenNames = .ok () := by
  have present : chosenNames.find? (· ∉ chosenNames.foldl putName available) = none := by
    rw [List.find?_eq_none]
    intro name member
    simp [mem_foldl_putName, member]
  simp only [checkChosen, chosen_eq_self plain, present, firstRepeated?_eq_none_iff.mpr distinct]

private theorem of_checkChosen {available chosenNames : List String}
    (plain : Expr.wildcard ∉ chosenNames) (h : checkChosen available chosenNames = .ok ()) :
    chosenNames.Nodup ∧ ∀ name ∈ chosenNames, name ∈ available := by
  simp only [checkChosen, chosen_eq_self plain] at h
  split at h
  · cases h
  · rename_i present
    split at h
    · cases h
    · rename_i unrepeated
      refine ⟨nodup_of_firstRepeated? unrepeated, fun name member => ?_⟩
      simpa using List.find?_eq_none.mp present name member

/-- An expression under a name that is there to be chosen has an instance, for a frame without
columns has no other names. -/
private theorem instances_ne_nil_of_present
    (distinct : (columns.map Prod.fst).Nodup) {entry : String × Expr} (member : entry ∈ columns)
    (present : entry.1 ∈ ((frame.instancesOf columns).map Prod.fst).foldl putName frame.names) :
    entry.2.instances frame.names ≠ [] := by
  rcases mem_foldl_putName.mp present with own | added
  · refine instances_ne_nil (fun none => ?_) entry.2
    simp [names, none] at own
  · obtain ⟨output, listed, label⟩ := List.mem_map.mp added
    obtain ⟨other, given, fromOther⟩ := List.mem_flatMap.mp listed
    obtain ⟨expr, isInstance, rfl⟩ := List.mem_map.mp fromOther
    obtain rfl : other = entry := List.inj_on_of_nodup_map distinct given member label
    exact List.ne_nil_of_mem isInstance

/-- Values that are added under distinct names are chosen as they were added. -/
private theorem choose_extend {results : List (String × Value frame.height)}
    (plain : Expr.wildcard ∉ results.map Prod.fst) (distinct : (results.map Prod.fst).Nodup) :
    (frame.extend results).choose (results.map Prod.fst) =
      ofSeries (results.map fun value => value.2.toSeries value.1) := by
  have found : (results.map Prod.fst).mapM (Expr.readColumn (frame.extend results)) =
      .ok (results.map fun value => value.2.toSeries value.1) := by
    rw [mapM_eq_ok, List.forall₂_map_left_iff, List.forall₂_map_right_iff, List.forall₂_same]
    intro value member
    rw [Expr.readColumn_eq_ok]
    have unrepeated : ((results.map fun value => value.2.toSeries value.1).map
        Series.name).Nodup := by
      simpa [Function.comp_def, Value.toSeries] using distinct
    exact find?_foldl_putColumn unrepeated (List.mem_map.mpr ⟨value, member, rfl⟩)
  unfold choose
  rw [chosen_eq_self plain, found]
  rfl

/-- The projection of at least one expression on a frame that has its rows settled. -/
private def projectOn (frame : Frame) (columns : List (String × Expr)) :
    Except EvaluationError Frame := do
  let soles := frame.instancesOf columns
  (frame.check .repeatedOutput soles).mapError .frame
  (checkChosen ((soles.map Prod.fst).foldl putName frame.names) (columns.map Prod.fst)).mapError
    .frame
  let results ← frame.values soles
  ((frame.extend results).choose (columns.map Prod.fst)).mapError .frame

private theorem project_eq_projectOn (nonempty : columns ≠ []) :
    frame.project columns = frame.forEvaluation.projectOn columns := by
  simp only [project, List.isEmpty_iff, nonempty, if_false]
  rfl

/-- A projection of expressions with values of their own is the table of those values. -/
private theorem projectOn_of_values {soles : List (String × Expr)}
    {results : List (String × Value frame.height)} (plain : Expr.wildcard ∉ columns.map Prod.fst)
    (distinct : (columns.map Prod.fst).Nodup) (single : List.Forall₂ (IsSole frame) columns soles)
    (evaluated : List.Forall₂ (IsValue frame) soles results) :
    frame.projectOn columns =
      (ofSeries (results.map fun value => value.2.toSeries value.1)).mapError .frame := by
  have soleNames := names_of_soles single
  have resultNames := (names_of_values evaluated).trans soleNames
  have checked : frame.check .repeatedOutput soles = .ok () :=
    check_of_values evaluated (soleNames ▸ distinct)
  have chosen : checkChosen ((columns.map Prod.fst).foldl putName frame.names)
      (columns.map Prod.fst) = .ok () := checkChosen_of_nodup plain distinct
  have selected : (frame.extend results).choose (results.map Prod.fst) = _ :=
    choose_extend (resultNames ▸ plain) (resultNames ▸ distinct)
  rw [resultNames] at selected
  simp only [projectOn, instancesOf_of_soles single, soleNames, checked, chosen,
    values_eq_ok.mpr evaluated, selected, bind, Except.bind, Except.mapError]

/-- A projection that succeeds has a value for each of its expressions, under distinct names. -/
private theorem values_of_projectOn {result : Frame} (plain : Expr.wildcard ∉ columns.map Prod.fst)
    (h : frame.projectOn columns = .ok result) :
    (columns.map Prod.fst).Nodup ∧ ∃ soles results, List.Forall₂ (IsSole frame) columns soles ∧
      List.Forall₂ (IsValue frame) soles results := by
  simp only [projectOn, bind_eq_ok, mapError_eq_ok] at h
  obtain ⟨_, checked, _, chosen, results, evaluated, -⟩ := h
  obtain ⟨distinct, present⟩ := of_checkChosen plain chosen
  have single := soles_of_nodup (fun entry member => instances_ne_nil_of_present distinct member
    (present _ (List.mem_map_of_mem member))) (nodup_of_check checked)
  exact ⟨distinct, _, results, single, values_eq_ok.mp evaluated⟩

private theorem shows_of_values {soles : List (String × Expr)}
    {results : List (String × Value frame.height)}
    (single : List.Forall₂ (IsSole frame) columns soles)
    (evaluated : List.Forall₂ (IsValue frame) soles results) :
    List.Forall₂ frame.Shows columns (results.map fun value => value.2.toSeries value.1) := by
  induction single generalizing results with
  | nil =>
    cases evaluated
    exact .nil
  | cons head _ ih =>
    cases evaluated with
    | cons value rest =>
      exact .cons ⟨value.1.trans head.1, _, _, head.2, value.2, rfl⟩ (ih rest)

private theorem values_of_shows {series : List (Series frame.height)}
    (shows : List.Forall₂ frame.Shows columns series) :
    ∃ soles results, List.Forall₂ (IsSole frame) columns soles ∧
      List.Forall₂ (IsValue frame) soles results ∧
      series = results.map fun value => value.2.toSeries value.1 := by
  induction shows with
  | nil => exact ⟨[], [], .nil, .nil, rfl⟩
  | @cons entry head columns series shown _ ih =>
    obtain ⟨soles, results, single, evaluated, rfl⟩ := ih
    obtain ⟨label, sole, value, alone, computed, cells⟩ := shown
    refine ⟨(entry.1, sole) :: soles, (entry.1, value) :: results, .cons ⟨rfl, alone⟩ single,
      .cons ⟨rfl, computed⟩ evaluated, ?_⟩
    rw [List.map_cons, Value.toSeries, cells, ← label]

/--
A projection under names other than the wildcard succeeds exactly if the names are distinct and each
expression has a value of its own; it then holds those values in their order.
-/
theorem project_eq_ok_of_plain {result : Frame} (plain : Expr.wildcard ∉ columns.map Prod.fst) :
    frame.project columns = .ok result ↔ (columns.map Prod.fst).Nodup ∧
      ∃ series, List.Forall₂ frame.forEvaluation.Shows columns series ∧ result.IsTable series := by
  by_cases nonempty : columns = []
  · subst nonempty
    simp [project, IsTable, eq_comm]
  · rw [project_eq_projectOn nonempty]
    constructor
    · intro h
      obtain ⟨distinct, soles, results, single, evaluated⟩ := values_of_projectOn plain h
      rw [projectOn_of_values plain distinct single evaluated, mapError_eq_ok, ofSeries_eq_ok] at h
      have shows := shows_of_values single evaluated
      refine ⟨distinct, _, shows, fun empty => ?_, fun _ => h⟩
      rw [empty, List.forall₂_nil_right_iff] at shows
      exact absurd shows nonempty
    · rintro ⟨distinct, series, shows, table⟩
      obtain ⟨soles, results, single, evaluated, rfl⟩ := values_of_shows shows
      rw [projectOn_of_values plain distinct single evaluated, mapError_eq_ok, ofSeries_eq_ok]
      refine table.2 fun empty => nonempty ?_
      rwa [empty, List.forall₂_nil_right_iff] at shows

theorem project_eq_ok {result : Frame} (inhabited : frame.columns ≠ [])
    (plain : Expr.wildcard ∉ columns.map Prod.fst) :
    frame.project columns = .ok result ↔ (columns.map Prod.fst).Nodup ∧
      ∃ series, List.Forall₂ frame.Shows columns series ∧ result.IsTable series := by
  have same : frame.forEvaluation = frame := by
    simp [forEvaluation, inhabited]
  rw [project_eq_ok_of_plain plain, same]

/-- Expressions with values of their own are rejected as soon as two of them have one name. -/
theorem project_eq_error_of_repeated {series : List (Series frame.forEvaluation.height)}
    {name : String} (shows : List.Forall₂ frame.forEvaluation.Shows columns series)
    (repeated : firstRepeated? (columns.map Prod.fst) = some name) :
    frame.project columns = .error (.frame (.repeatedOutput name)) := by
  have nonempty : columns ≠ [] := by
    rintro rfl
    cases repeated
  obtain ⟨soles, results, single, evaluated, -⟩ := values_of_shows shows
  have found : frame.forEvaluation.check .repeatedOutput soles = .error (.repeatedOutput name) := by
    simp only [check, nothing_missing_of_values evaluated, names_of_soles single, repeated]
  rw [project_eq_projectOn nonempty]
  simp only [projectOn, instancesOf_of_soles single, found, bind, Except.bind, Except.mapError]

/-- A column that is found in what was chosen from a frame is found in the frame. -/
private theorem readColumn_of_choose {extended chosen : Frame} {names : List String}
    {name : String} {series : Series chosen.height} (h : extended.choose names = .ok chosen)
    (read : Expr.readColumn chosen name = .ok series) :
    ∃ source, Expr.readColumn extended name = .ok source ∧
      (⟨chosen.height, series⟩ : (height : Nat) × Series height) = ⟨extended.height, source⟩ := by
  simp only [choose, bind_eq_ok, ofSeries_eq_ok] at h
  obtain ⟨columns, found, _, rfl⟩ := h
  have label := Expr.name_of_readColumn read
  have member : series ∈ columns := List.mem_of_find?_eq_some (Expr.readColumn_eq_ok.mp read)
  obtain ⟨wanted, source⟩ := exists_forall₂_iff.mp ⟨_, (mapM_eq_ok.mp found).flip⟩ series member
  obtain rfl : wanted = name := (Expr.name_of_readColumn source).symm.trans label
  exact ⟨series, source, rfl⟩

private theorem column?_extend_singleton (label : String) (value : Value frame.height) :
    (frame.extend [(label, value)]).column? label = some (value.toSeries label) :=
  (find?_putColumn frame.columns (value.toSeries label) label).trans (if_pos rfl)

/-- A projection of one expression shows under its label what the expression yields, also if the
label stands for all columns. -/
theorem yields_of_project_singleton {label : String} {expr : Expr} {projected : Frame}
    {series : Series projected.height} (h : frame.project [(label, expr)] = .ok projected)
    (read : Expr.readColumn projected label = .ok series) :
    ∃ column, expr.Yields frame.forEvaluation column ∧
      (⟨projected.height, series⟩ : (height : Nat) × Series height) =
        ⟨frame.forEvaluation.height, ⟨column, label⟩⟩ := by
  rw [project_eq_projectOn (by simp)] at h
  generalize frame.forEvaluation = frame at h ⊢
  simp only [projectOn, bind_eq_ok, mapError_eq_ok] at h
  obtain ⟨_, checked, _, -, results, evaluated, chosen⟩ := h
  obtain ⟨source, found, same⟩ := readColumn_of_choose chosen read
  have nonempty : expr.instances frame.names ≠ [] := by
    intro none
    have noColumns : frame.columns = [] :=
      by_contra fun inhabited => instances_ne_nil inhabited expr none
    have noResults : results = [] := by
      simpa [instancesOf, none, values, pure, Except.pure, eq_comm] using evaluated
    have absent := Expr.readColumn_eq_ok.mp found
    simp [column?, extend, noResults, noColumns] at absent
  have single : List.Forall₂ (IsSole frame) [(label, expr)] _ := soles_of_nodup
    (fun entry member => List.mem_singleton.mp member ▸ nonempty) (nodup_of_check checked)
  obtain ⟨⟨_, sole⟩, rest, ⟨rfl, alone⟩, tail, soles⟩ := List.forall₂_cons_left_iff.mp single
  obtain rfl := List.forall₂_nil_left_iff.mp tail
  rw [soles, values_eq_ok] at evaluated
  obtain ⟨⟨_, value⟩, rest, ⟨rfl, computed⟩, tail, rfl⟩ := List.forall₂_cons_left_iff.mp evaluated
  obtain rfl := List.forall₂_nil_left_iff.mp tail
  have put := Option.some.inj
    ((Expr.readColumn_eq_ok.mp found).symm.trans (column?_extend_singleton _ value))
  subst put
  exact ⟨value.toColumn, ⟨sole, value, alone, computed, rfl⟩, same⟩

private theorem ofSeries_singleton {height : Nat} (series : Series height) :
    ofSeries [series] = .ok ⟨height, [series], by simp⟩ :=
  ofSeries_eq_ok.mpr ⟨by simp, rfl⟩

/-- The frame of a value that is selected alone. -/
def ofValue {height : Nat} (label : String) (value : Value height) : Frame :=
  match value.toScalar? with
  | some column => ⟨1, [⟨column, label⟩], by simp⟩
  | none => ⟨height, [value.toSeries label], by simp⟩

theorem select_eq_ofValue {expr sole : Expr} {value : Value frame.height} (label : String)
    (single : expr.instances frame.names = [sole]) (computed : sole.valueOn frame = .ok value) :
    frame.select [(label, expr)] = .ok (ofValue label value) := by
  have soles : List.Forall₂ (IsSole frame) [(label, expr)] [(label, sole)] :=
    .cons ⟨rfl, single⟩ .nil
  have evaluated : List.Forall₂ (IsValue frame) [(label, sole)] [(label, value)] :=
    .cons ⟨rfl, computed⟩ .nil
  have checked : frame.check .duplicateColumn [(label, sole)] = .ok () :=
    check_of_values evaluated (by simp)
  simp only [select, instancesOf_of_soles soles, checked, values_eq_ok.mpr evaluated, bind_eq_ok,
    mapError_eq_ok]
  refine ⟨(), trivial, _, rfl, ?_⟩
  cases scalar : value.toScalar? with
  | none => simp [scalar, ofSeries_singleton, ofValue, Except.mapError]
  | some column => simp [scalar, ofSeries_singleton, ofValue, Except.mapError]

/-- An expression that is selected alone has a value exactly if it yields a column. -/
theorem evaluatesOn_iff_exists_yields (inhabited : frame.columns ≠ []) {expr : Expr} :
    expr.EvaluatesOn frame ↔ ∃ column, expr.Yields frame column := by
  constructor
  · rintro ⟨label, alone, h⟩
    simp only [select, bind_eq_ok, mapError_eq_ok] at h
    obtain ⟨_, checked, results, evaluated, -⟩ := h
    have single := soles_of_nodup (fun entry _ => instances_ne_nil inhabited entry.2)
      (nodup_of_check checked)
    obtain ⟨series, _, shown, -, -⟩ := List.forall₂_cons_left_iff.mp
      (shows_of_values single (values_eq_ok.mp evaluated))
    exact ⟨series.toColumn, shown.2⟩
  · rintro ⟨column, sole, value, single, computed, -⟩
    exact ⟨"", _, select_eq_ofValue "" single computed⟩

end Projection

end Frame

end DesignMatrix
