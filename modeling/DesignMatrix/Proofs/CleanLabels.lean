import Mathlib
import DesignMatrix.Proofs.DesignContract

/-!
# Clean labels

A design with clean labels is the design with the labels as they are, relabelled, as long as no two
labels become one. Where two of them do, no design is built.
-/

namespace DesignMatrix

open Outcomes

namespace Text

private theorem ofNat_ne_asterisk {n : ℕ} (differs : n ≠ 42) : Char.ofNat n ≠ '*' := by
  intro same
  have code := congrArg Char.toNat same
  rw [Char.toNat_ofNat] at code
  split at code
  · exact differs code
  · cases code

/-- Lower case turns no letter or digit into an asterisk. -/
theorem asterisk_notMem_lowercase {c : Char} (alphanumeric : isAlphanumeric c = true) :
    '*' ∉ lowercase c := by
  unfold lowercase
  split
  · decide
  · split
    · rename_i first last step shift found
      have inRun := List.find?_some found
      have member := List.mem_of_find?_eq_some found
      have above : ∀ run ∈ lowercaseRuns, 42 < (run.1 : Int) + run.2.2.2 := by decide +kernel
      have bound := above _ member
      simp only [inLowercaseRun, Bool.and_eq_true, decide_eq_true_eq] at inRun
      have differs : ((c.toNat : Int) + shift).toNat ≠ 42 := by
        simp only at bound
        omega
      simpa using (ofNat_ne_asterisk differs).symm
    · rw [List.mem_singleton]
      rintro rfl
      exact absurd alphanumeric (by decide +kernel)

end Text

theorem CleanName.asterisk_notMem_chars (cs : List Char) (started pending : Bool) :
    '*' ∉ chars cs started pending := by
  induction cs generalizing started pending with
  | nil => simp [chars]
  | cons c cs ih =>
    unfold chars
    split
    · rename_i alphanumeric
      simp only [List.mem_append, not_or]
      refine ⟨⟨?_, Text.asterisk_notMem_lowercase alphanumeric⟩, ih true false⟩
      split <;> decide
    · exact ih started true

theorem cleanName_ne_wildcard (name : String) : cleanName name ≠ Expr.wildcard := by
  unfold cleanName
  simp only
  split
  · decide
  · intro same
    have chars := CleanName.asterisk_notMem_chars name.toList false false
    rw [← String.toList_ofList (l := CleanName.chars name.toList false false), same] at chars
    exact chars (by decide)

namespace Frame

/-- The frame with other names for its columns. -/
def relabel (frame : Frame) (rename : String → String)
    (distinct : (frame.names.map rename).Nodup) : Frame where
  height := frame.height
  columns := frame.columns.map fun series => ⟨series.toColumn, rename series.name⟩
  distinct := by simpa [names, Function.comp_def] using distinct

@[simp] theorem names_relabel (frame : Frame) (rename : String → String)
    (distinct : (frame.names.map rename).Nodup) :
    (frame.relabel rename distinct).names = frame.names.map rename := by
  simp [relabel, names]

theorem IsTable.names_eq {height : ℕ} {series : List (Series height)} {frame : Frame}
    (h : frame.IsTable series) : frame.names = series.map Series.name := by
  by_cases none : series = []
  · rw [h.1 none, none]
    rfl
  · obtain ⟨distinct, rfl⟩ := h.2 none
    rfl

theorem IsTable.relabel {height : ℕ} {series : List (Series height)} {frame : Frame}
    (h : frame.IsTable series) (rename : String → String)
    (distinct : (frame.names.map rename).Nodup) :
    (frame.relabel rename distinct).IsTable
      (series.map fun shown => ⟨shown.toColumn, rename shown.name⟩) := by
  constructor
  · intro none
    obtain rfl := h.1 (List.map_eq_nil_iff.mp none)
    rfl
  · intro some
    obtain ⟨_, rfl⟩ := h.2 fun none => some (List.map_eq_nil_iff.mpr none)
    exact ⟨_, rfl⟩

theorem shows_relabelled {frame : Frame} {columns : List (String × Expr)}
    {series : List (Series frame.height)} (rename : String → String)
    (shows : List.Forall₂ frame.Shows columns series) :
    List.Forall₂ frame.Shows (columns.map fun column => (rename column.1, column.2))
      (series.map fun shown => ⟨shown.toColumn, rename shown.name⟩) := by
  rw [List.forall₂_map_left_iff, List.forall₂_map_right_iff]
  exact shows.imp fun column shown h => ⟨congrArg rename h.1, h.2⟩

/-- A projection under other names is the projection, relabelled, unless the names repeat. -/
theorem project_relabelled {frame result : Frame} {columns : List (String × Expr)}
    (rename : String → String) (plain : Expr.wildcard ∉ columns.map Prod.fst)
    (plain' : Expr.wildcard ∉ (columns.map Prod.fst).map rename)
    (h : frame.project columns = .ok result) :
    (∀ distinct : (result.names.map rename).Nodup,
      frame.project (columns.map fun column => (rename column.1, column.2)) =
        .ok (result.relabel rename distinct)) ∧
    ∀ name, firstRepeated? (result.names.map rename) = some name →
      frame.project (columns.map fun column => (rename column.1, column.2)) =
        .error (.frame (.repeatedOutput name)) := by
  obtain ⟨-, series, shows, table⟩ := (project_eq_ok_of_plain plain).mp h
  have labels : result.names = columns.map Prod.fst :=
    table.names_eq.trans (forall₂_shows_iff.mp shows).1
  have renamed : (columns.map fun column => (rename column.1, column.2)).map Prod.fst =
      (columns.map Prod.fst).map rename := by
    simp
  have shows' := shows_relabelled rename shows
  constructor
  · intro distinct
    rw [project_eq_ok_of_plain (renamed ▸ plain'), renamed, ← labels]
    exact ⟨distinct, _, shows', table.relabel rename distinct⟩
  · intro name repeated
    rw [labels, ← renamed] at repeated
    exact project_eq_error_of_repeated shows' repeated

end Frame

namespace Design

variable {parser : FormulaParser} {config : Config} {frame : Frame} {formula : String}

/-- The configuration with clean labels or with the labels as they are. -/
def withCleanNames (config : Config) (clean : Bool) : Config := { config with cleanNames := clean }

theorem columns_cleaned (config : Config) (predictors : List Predictor) (intercept : Bool) :
    columns (withCleanNames config true) predictors intercept =
      (columns (withCleanNames config false) predictors intercept).map
        fun column => (cleanName column.1, column.2) := by
  unfold columns interceptColumn columnName predictorName Config.fallbackName withCleanNames
  by_cases wanted : (intercept && config.intercept) = true <;> simp [wanted, map_mapIdx]

/-- Clean labels change nothing but the labels, and fail only by making labels one. -/
theorem build_cleaned_of_build {design : Design}
    (plain : ∀ parsed, parser formula = .ok parsed → Expr.wildcard ∉ rawLabels config parsed)
    (built : build parser (withCleanNames config false) frame formula = .ok design) :
    (∀ distinct : (design.matrix.names.map cleanName).Nodup,
      build parser (withCleanNames config true) frame formula =
        .ok { design with matrix := design.matrix.relabel cleanName distinct }) ∧
    ∀ name, firstRepeated? (design.matrix.names.map cleanName) = some name →
      build parser (withCleanNames config true) frame formula =
        .error (.evaluation (.frame (.repeatedOutput name))) := by
  simp only [build, bind_eq_ok, mapError_eq_ok, Except.ok.injEq] at built
  obtain ⟨_, valid, ⟨expr, predictors, intercept⟩, parsed, ⟨height, response⟩, evaluated, matrix,
    projected, rfl⟩ := built
  have valid' : (withCleanNames config true).validate = .ok () := valid
  have evaluated' : responseOn (withCleanNames config true) frame expr = .ok ⟨height, response⟩ :=
    evaluated
  have plainLabels : Expr.wildcard ∉
      (columns (withCleanNames config false) predictors intercept).map Prod.fst := by
    simp only [parse, bind_eq_ok, Except.ok.injEq] at parsed
    obtain ⟨raw, parses, _, -, same⟩ := parsed
    cases same
    rw [map_fst_columns]
    exact plain raw parses
  have cleanLabels : Expr.wildcard ∉ ((columns (withCleanNames config false) predictors
      intercept).map Prod.fst).map cleanName := by
    intro member
    obtain ⟨name, -, same⟩ := List.mem_map.mp member
    exact cleanName_ne_wildcard name same
  obtain ⟨succeeds, fails⟩ := Frame.project_relabelled cleanName plainLabels cleanLabels projected
  rw [← columns_cleaned] at succeeds fails
  constructor
  · intro distinct
    simp only [build, valid', parsed, evaluated', succeeds distinct, bind, Except.bind,
      Except.mapError]
  · intro name repeated
    simp only [build, valid', parsed, evaluated', fails name repeated, bind, Except.bind,
      Except.mapError]

/-- Three columns, of which two differ in the case of their names only. -/
def letterFrame : Frame where
  height := 2
  columns := [⟨⟨.int64, .each #v[some 5, some 7]⟩, "y"⟩, ⟨⟨.int64, .each #v[some 2, some 1]⟩, "A"⟩,
    ⟨⟨.int64, .each #v[some 3, some 8]⟩, "a"⟩]
  distinct := by decide

private theorem plain_of_all {config : Config} {formula : String}
    (h : (standardParser formula).toOption.all
      (fun parsed => Expr.wildcard ∉ rawLabels config parsed) = true) :
    ∀ parsed, standardParser formula = .ok parsed → Expr.wildcard ∉ rawLabels config parsed := by
  intro parsed parses
  simpa using forall_of_toOption h parsed parses

theorem build_cleaned_letterFrame :
    (∃ design, build standardParser (withCleanNames .standard true) letterFrame
        "y ~ A + I(a + 1)" = .ok design ∧ design.matrix.names = ["intercept", "a", "i_a_1"]) ∧
      build standardParser (withCleanNames .standard true) letterFrame "y ~ A + a" =
        .error (.evaluation (.frame (.repeatedOutput "a"))) := by
  constructor
  · obtain ⟨design, built, names⟩ : ∃ design, build standardParser (withCleanNames .standard false)
        letterFrame "y ~ A + I(a + 1)" = .ok design ∧
        design.matrix.names = ["Intercept", "A", "I(a + 1)"] :=
      exists_of_toOption (by decide +kernel)
    obtain ⟨succeeds, -⟩ := build_cleaned_of_build (plain_of_all (by decide +kernel)) built
    have cleaned : design.matrix.names.map cleanName = ["intercept", "a", "i_a_1"] := by
      rw [names]
      decide +kernel
    refine ⟨_, succeeds (by simp [cleaned]), ?_⟩
    rw [Frame.names_relabel, cleaned]
  · obtain ⟨design, built, names⟩ : ∃ design, build standardParser (withCleanNames .standard false)
        letterFrame "y ~ A + a" = .ok design ∧
        design.matrix.names = ["Intercept", "A", "a"] := exists_of_toOption (by decide +kernel)
    obtain ⟨-, fails⟩ := build_cleaned_of_build (plain_of_all (by decide +kernel)) built
    refine fails "a" ?_
    rw [names]
    decide +kernel

/-- Clean labels can become one, and a label that stands for all columns is cleaned into one that
does not. -/
theorem clean_labels_not_only_rename :
    (∃ design, build standardParser (withCleanNames .standard false) letterFrame "y ~ A + a" =
        .ok design ∧ design.matrix.names = ["Intercept", "A", "a"]) ∧
      build standardParser (withCleanNames .standard true) letterFrame "y ~ A + a" =
        .error (.evaluation (.frame (.repeatedOutput "a"))) ∧
      (∃ design, build standardParser (withCleanNames { Config.standard with interceptName := "*" }
          false) letterFrame "y ~ 1" = .ok design ∧ design.matrix.names = ["y", "A", "a", "*"]) ∧
      ∃ cleaned, build standardParser (withCleanNames { Config.standard with interceptName := "*" }
        true) letterFrame "y ~ 1" = .ok cleaned ∧ cleaned.matrix.names = ["column"] := by
  have repeated : (build standardParser (withCleanNames .standard true) letterFrame
      "y ~ A + a").map (fun _ => ()) = .error (.evaluation (.frame (.repeatedOutput "a"))) := by
    decide +kernel
  exact ⟨exists_of_toOption (by decide +kernel), map_eq_error.mp repeated,
    exists_of_toOption (by decide +kernel), exists_of_toOption (by decide +kernel)⟩

end Design

end DesignMatrix
