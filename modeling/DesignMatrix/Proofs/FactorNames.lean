import DesignMatrix.Formula.Expansion
import DesignMatrix.Proofs.ArithText
import DesignMatrix.Proofs.BasisColumns
import DesignMatrix.Proofs.Evaluation
import DesignMatrix.Proofs.NumberedNames
import DesignMatrix.Proofs.Projection

/-!
# The names of factors

The names of factors come about in four ways. Within one of them a name determines the column that
the factor stands for; across them some names clash.
-/

namespace DesignMatrix

open Outcomes

namespace Frame

/-- A selection that succeeds depends on the values of its expressions only. -/
theorem select_eq_of_values_eq {frame selected selected' : Frame}
    {columns columns' : List (String × Expr)}
    (agree : ∀ values values', frame.values (frame.instancesOf columns) = .ok values →
      frame.values (frame.instancesOf columns') = .ok values' → values = values')
    (h : frame.select columns = .ok selected) (h' : frame.select columns' = .ok selected') :
    selected = selected' := by
  simp only [select, bind_eq_ok] at h h'
  obtain ⟨_, -, values, evaluated, gathered⟩ := h
  obtain ⟨_, -, values', evaluated', gathered'⟩ := h'
  obtain rfl := agree values values' evaluated evaluated'
  exact Except.ok.inj (gathered.symm.trans gathered')

end Frame

theorem basisColumn_unique {height degree degree' order : ℕ} {series column column' : Series height}
    (positive : 1 ≤ order) (within : order ≤ degree) (within' : order ≤ degree')
    (h : basisColumn series degree order = .ok column)
    (h' : basisColumn series degree' order = .ok column') : column = column' := by
  unfold basisColumn at h h'
  split at h
  · cases h
  · rename_i values present
    simp only [present, bind_eq_ok] at h h'
    obtain ⟨cells, read, made⟩ := h
    obtain ⟨cells', read', made'⟩ := h'
    obtain rfl := Basis.column_eq_ok positive within read
    obtain rfl := Basis.column_eq_ok positive within' read'
    exact Except.ok.inj (made.symm.trans made')

theorem basisColumn_of_sorted {height degree order : ℕ} {series : Series height}
    {values : List Float} (present : series.doubles.mapM id = some values)
    (sorted : values.Pairwise fun x y => rank x ≤ rank y) (enough : degree < Basis.runs values)
    (positive : 1 ≤ order) (within : order ≤ degree) :
    basisColumn series degree order = .ok ⟨⟨.float64, .each (Vector.ofFn fun i =>
      some (((Basis.columnOf values order)[i.val]?).getD 0))⟩, series.name⟩ := by
  simp only [basisColumn, present, Basis.column_of_sorted sorted enough positive within]
  rfl

namespace Expr

/-- The degree of a basis does not show in its columns. -/
theorem valueOn_basis_unique {frame : Frame} {source : String} {degree degree' order : ℕ}
    {value value' : Value frame.height} (positive : 1 ≤ order) (within : order ≤ degree)
    (within' : order ≤ degree') (h : (Expr.basis source degree order).valueOn frame = .ok value)
    (h' : (Expr.basis source degree' order).valueOn frame = .ok value') : value = value' := by
  simp only [valueOn, bind_eq_ok, mapError_eq_ok] at h h'
  obtain ⟨series, read, column, basis, made⟩ := h
  obtain ⟨series', read', column', basis', made'⟩ := h'
  obtain rfl : series = series' := Except.ok.inj (read.symm.trans read')
  obtain rfl := basisColumn_unique positive within within' basis basis'
  exact Except.ok.inj (made.symm.trans made')

theorem instances_basis (names : List String) (source : String) (degree order : ℕ) :
    (Expr.basis source degree order).instances names =
      (if source = wildcard then names else [source]).map fun name => .basis name degree order := by
  by_cases wild : source = wildcard <;> simp [instances, hasWildcard, withColumn, wild]

/-- The cells of an expression that is selected alone, if it evaluates. -/
def cellsOn (frame : Frame) (expr : Expr) : Option (List (Option Float)) :=
  (frame.select [("", expr)]).toOption.map fun selected =>
    selected.columns.flatMap fun series => series.doubles

/-- Both expressions evaluate on the frame, and their columns differ. -/
def ApartOn (frame : Frame) (expr expr' : Expr) : Prop :=
  ∃ column column', frame.select [("", expr)] = .ok column ∧
    frame.select [("", expr')] = .ok column' ∧ column ≠ column'

theorem apartOn_of_cellsOn {frame : Frame} {expr expr' : Expr} {cells cells' : List (Option Float)}
    (h : expr.cellsOn frame = some cells) (h' : expr'.cellsOn frame = some cells')
    (differ : cells ≠ cells') : expr.ApartOn frame expr' := by
  obtain ⟨column, selected, rfl⟩ := Option.map_eq_some_iff.mp h
  obtain ⟨column', selected', rfl⟩ := Option.map_eq_some_iff.mp h'
  rw [toOption_eq_some] at selected selected'
  refine ⟨column, column', selected, selected', fun same => differ ?_⟩
  rw [same]

theorem valueOn_basis_of_sorted {frame : Frame} {source : String} {degree order : ℕ}
    {series : Series frame.height} {values : List Float}
    (read : readColumn frame source = .ok series) (present : series.doubles.mapM id = some values)
    (sorted : values.Pairwise fun x y => rank x ≤ rank y) (enough : degree < Basis.runs values)
    (positive : 1 ≤ order) (within : order ≤ degree) :
    (Expr.basis source degree order).valueOn frame =
      .ok (.ofColumn ⟨.float64, .each (Vector.ofFn fun i =>
        some (((Basis.columnOf values order)[i.val]?).getD 0))⟩) := by
  simp only [valueOn, bind_eq_ok, mapError_eq_ok]
  exact ⟨series, read, _, basisColumn_of_sorted present sorted enough positive within, rfl⟩

theorem cellsOn_basis {frame : Frame} {source : String} {degree order : ℕ}
    {series : Series frame.height} {values : List Float} (plain : source ≠ wildcard)
    (read : readColumn frame source = .ok series) (present : series.doubles.mapM id = some values)
    (sorted : values.Pairwise fun x y => rank x ≤ rank y) (enough : degree < Basis.runs values)
    (positive : 1 ≤ order) (within : order ≤ degree) :
    (Expr.basis source degree order).cellsOn frame =
      some (List.ofFn fun i : Fin frame.height =>
        some (((Basis.columnOf values order)[i.val]?).getD 0)) := by
  let column : Column frame.height := ⟨.float64, .each (Vector.ofFn fun i =>
    some (((Basis.columnOf values order)[i.val]?).getD 0))⟩
  have computed : (Expr.basis source degree order).valueOn frame = .ok (.ofColumn column) :=
    valueOn_basis_of_sorted read present sorted enough positive within
  have single : (Expr.basis source degree order).instances frame.names =
      [.basis source degree order] := by
    simp [instances_basis, plain]
  have cells : column.doubles = List.ofFn fun i : Fin frame.height =>
      some (((Basis.columnOf values order)[i.val]?).getD 0) := by
    simp [column, Column.doubles, Cells.toList, Cells.toVector, ElementType.toDouble?,
      Vector.toList, Function.comp_def]
  rw [cellsOn, Frame.select_eq_ofValue "" single computed, ← cells]
  exact congrArg some (List.append_nil column.doubles)

end Expr

namespace Factor

/-- Both factors have the same column on every frame on which both evaluate. -/
def SameColumn (f g : Factor) : Prop :=
  ∀ (frame : Frame) (label : String) (column column' : Frame),
    frame.select [(label, .ofArith f.value)] = .ok column →
    frame.select [(label, .ofArith g.value)] = .ok column' → column = column'

theorem SameColumn.of_value_eq {f g : Factor} (same : f.value = g.value) : f.SameColumn g := by
  intro frame label column column' h h'
  rw [same] at h
  exact Except.ok.inj (h.symm.trans h')

theorem SameColumn.basisColumn (source : String) {degree degree' order : ℕ} (positive : 1 ≤ order)
    (within : order ≤ degree) (within' : order ≤ degree') :
    (Expansion.basisColumn source degree order).SameColumn
      (Expansion.basisColumn source degree' order) := by
  intro frame label column column' h h'
  refine Frame.select_eq_of_values_eq (fun values values' => ?_) h h'
  simp only [Expansion.basisColumn, Expr.ofArith, Frame.instancesOf, List.flatMap_cons,
    List.flatMap_nil, List.append_nil, Expr.instances_basis, List.map_map, Function.comp_def,
    Frame.values]
  generalize (if source = Expr.wildcard then frame.names else [source]) = sources
  intro evaluated evaluated'
  rw [mapM_eq_ok, List.forall₂_map_left_iff] at evaluated evaluated'
  induction evaluated generalizing values' with
  | nil =>
    cases evaluated'
    rfl
  | cons head _ ih =>
    cases evaluated' with
    | cons head' tail' =>
      obtain ⟨value, computed, rfl⟩ := map_eq_ok.mp head
      obtain ⟨value', computed', rfl⟩ := map_eq_ok.mp head'
      rw [Expr.valueOn_basis_unique positive within within' computed computed', ih _ tail']

theorem SameColumn.not_apartOn {f g : Factor} (h : f.SameColumn g) (frame : Frame) :
    ¬(Expr.ofArith f.value).ApartOn frame (.ofArith g.value) := by
  rintro ⟨column, column', selected, selected', differ⟩
  exact differ (h frame "" column column' selected selected')

/-- The factor is a column as it is. -/
def IsColumn (f : Factor) : Prop := ∃ source, f = .ofColumn source

/-- The factor is the arithmetic in `I(...)` or the call of a transform. -/
def IsComputed (f : Factor) : Prop :=
  (∃ value : Arith, value.Lexed ∧ f = .ofArith value) ∨
    ∃ (transform : Transform) (argument : Arith), argument.Lexed ∧ f = .ofCall transform argument

/-- The factor is a raw power that `poly` stands for, beyond the column itself. -/
def IsPower (f : Factor) : Prop := ∃ source order, 2 ≤ order ∧ f = Expansion.rawPower source order

/-- The factor is a column of an orthogonal basis. -/
def IsBasis (f : Factor) : Prop :=
  ∃ source degree order, 1 ≤ order ∧ order ≤ degree ∧ f = Expansion.basisColumn source degree order

/-- The factor is one that a formula can mention. -/
def Written (f : Factor) : Prop := f.IsColumn ∨ f.IsComputed ∨ f.IsPower ∨ f.IsBasis

/-- Different factors of which one is a column and the other is not, one is a raw power and the
other a column of a basis, or one computes with a column whose name needs quotes. -/
def Rivals (f g : Factor) : Prop :=
  f.value ≠ g.value ∧
    ((f.IsColumn ∧ ¬g.IsColumn) ∨ (g.IsColumn ∧ ¬f.IsColumn) ∨
      (f.IsPower ∧ g.IsBasis) ∨ (g.IsPower ∧ f.IsBasis) ∨
      (f.IsComputed ∧ ¬f.value.Unquoted) ∨ (g.IsComputed ∧ ¬g.value.Unquoted))

section Names

variable {f g : Factor}

theorem IsColumn.value_eq (hf : f.IsColumn) (hg : g.IsColumn) (same : f.name = g.name) :
    f.value = g.value := by
  obtain ⟨source, rfl⟩ := hf
  obtain ⟨source', rfl⟩ := hg
  exact congrArg Arith.column same

theorem IsComputed.exists_name (hf : f.IsComputed) : ∃ text, f.name = text ++ ")" := by
  rcases hf with ⟨value, -, rfl⟩ | ⟨transform, argument, -, rfl⟩
  · exact ⟨_, rfl⟩
  · exact ⟨_, rfl⟩

private theorem ofArith_name_ne_ofCall (value argument : Arith) (transform : Transform) :
    (ofArith value).name ≠ (ofCall transform argument).name := by
  intro same
  have lists := congrArg String.toList same
  cases transform <;> simp [ofArith, ofCall, Arith.text, Transform.name] at lists

/-- The text of a computed factor determines it, unless it has a column whose name needs quotes. -/
theorem IsComputed.value_eq (hf : f.IsComputed) (hg : g.IsComputed) (unquoted : f.value.Unquoted)
    (unquoted' : g.value.Unquoted) (same : f.name = g.name) : f.value = g.value := by
  rcases hf with ⟨value, lexed, rfl⟩ | ⟨transform, argument, lexed, rfl⟩
  · rcases hg with ⟨value', lexed', rfl⟩ | ⟨transform', argument', lexed', rfl⟩
    · have text : value.text = value'.text := by
        simpa [ofArith, String.append_left_inj, String.append_right_inj] using same
      exact Arith.eq_of_text_eq lexed lexed' unquoted unquoted' text
    · exact absurd same (ofArith_name_ne_ofCall _ _ _)
  · rcases hg with ⟨value', lexed', rfl⟩ | ⟨transform', argument', lexed', rfl⟩
    · exact absurd same.symm (ofArith_name_ne_ofCall _ _ _)
    · have call : (Arith.call transform argument).Lexed := lexed
      have call' : (Arith.call transform' argument').Lexed := lexed'
      exact Arith.eq_of_text_eq call call' unquoted unquoted' same

theorem IsPower.exists_name (hf : f.IsPower) :
    ∃ (source : String) (order : ℕ), f.name = source ++ "_" ++ toString order := by
  obtain ⟨source, order, beyond, rfl⟩ := hf
  exact ⟨source, order, by rw [Expansion.rawPower, if_neg (by omega)]⟩

theorem IsPower.value_eq (hf : f.IsPower) (hg : g.IsPower) (same : f.name = g.name) :
    f.value = g.value := by
  obtain ⟨source, order, beyond, rfl⟩ := hf
  obtain ⟨source', order', beyond', rfl⟩ := hg
  have first : order ≠ 1 := by omega
  have first' : order' ≠ 1 := by omega
  simp only [Expansion.rawPower, if_neg first, if_neg first'] at same
  obtain ⟨rfl, rfl⟩ := numbered_injective same
  rfl

theorem IsBasis.exists_name (hf : f.IsBasis) :
    ∃ (source : String) (order : ℕ), f.name = "poly_" ++ source ++ "_" ++ toString order := by
  obtain ⟨source, degree, order, -, -, rfl⟩ := hf
  exact ⟨source, order, rfl⟩

theorem IsBasis.sameColumn (hf : f.IsBasis) (hg : g.IsBasis) (same : f.name = g.name) :
    f.SameColumn g := by
  obtain ⟨source, degree, order, positive, within, rfl⟩ := hf
  obtain ⟨source', degree', order', positive', within', rfl⟩ := hg
  obtain ⟨front, rfl⟩ := numbered_injective same
  obtain rfl : source = source' := (String.append_right_inj "poly_").mp front
  exact .basisColumn source positive within within'

private theorem IsComputed.name_ne (hf : f.IsComputed) (hg : g.IsPower ∨ g.IsBasis) :
    f.name ≠ g.name := by
  obtain ⟨text, enclosed⟩ := hf.exists_name
  rw [enclosed]
  rcases hg with power | basis
  · obtain ⟨source, order, numbered⟩ := power.exists_name
    rw [numbered]
    exact (numbered_ne_enclosed source text order).symm
  · obtain ⟨source, order, numbered⟩ := basis.exists_name
    rw [numbered]
    exact (numbered_ne_enclosed _ text order).symm

/-- Factors with one name have the same value or both are columns of bases, unless they are
rivals. -/
theorem value_eq_or_isBasis_or_rivals (hf : f.Written) (hg : g.Written) (same : f.name = g.name) :
    f.value = g.value ∨ (f.IsBasis ∧ g.IsBasis) ∨ f.Rivals g := by
  -- Equal values and plain columns come first, which leaves what is computed, powers and bases.
  by_cases equal : f.value = g.value
  · exact .inl equal
  by_cases column : f.IsColumn
  · by_cases column' : g.IsColumn
    · exact absurd (column.value_eq column' same) equal
    · exact .inr (.inr ⟨equal, .inl ⟨column, column'⟩⟩)
  by_cases column' : g.IsColumn
  · exact .inr (.inr ⟨equal, .inr (.inl ⟨column', column⟩)⟩)
  rcases hf.resolve_left column with computed | poly
  · rcases hg.resolve_left column' with computed' | poly'
    · by_cases unquoted : f.value.Unquoted
      · by_cases unquoted' : g.value.Unquoted
        · exact absurd (computed.value_eq computed' unquoted unquoted' same) equal
        · exact .inr (.inr ⟨equal, by tauto⟩)
      · exact .inr (.inr ⟨equal, by tauto⟩)
    · exact absurd same (computed.name_ne poly')
  · rcases hg.resolve_left column' with computed' | poly'
    · exact absurd same.symm (computed'.name_ne poly)
    · rcases poly with power | basis <;> rcases poly' with power' | basis'
      · exact absurd (power.value_eq power' same) equal
      · exact .inr (.inr ⟨equal, by tauto⟩)
      · exact .inr (.inr ⟨equal, by tauto⟩)
      · exact .inr (.inl ⟨basis, basis'⟩)

/-- Factors with one name have the same column, unless they are rivals. -/
theorem sameColumn_or_rivals (hf : f.Written) (hg : g.Written) (same : f.name = g.name) :
    f.SameColumn g ∨ f.Rivals g := by
  rcases value_eq_or_isBasis_or_rivals hf hg same with equal | ⟨basis, basis'⟩ | rivals
  · exact .inl (.of_value_eq equal)
  · exact .inl (basis.sameColumn basis' same)
  · exact .inr rivals

theorem IsBasis.not_rivals (hf : f.IsBasis) (hg : g.IsBasis) : ¬f.Rivals g := by
  have notColumn {f : Factor} (basis : f.IsBasis) : ¬f.IsColumn := by
    obtain ⟨source, degree, order, -, -, rfl⟩ := basis
    rintro ⟨name, same⟩
    cases congrArg Factor.value same
  have notPower {f : Factor} (basis : f.IsBasis) : ¬f.IsPower := by
    obtain ⟨source, degree, order, -, -, rfl⟩ := basis
    rintro ⟨name, exponent, beyond, same⟩
    rw [Expansion.rawPower, if_neg (by omega)] at same
    cases congrArg Factor.value same
  have notComputed {f : Factor} (basis : f.IsBasis) : ¬f.IsComputed := by
    obtain ⟨source, degree, order, -, -, rfl⟩ := basis
    rintro (⟨value, lexed, same⟩ | ⟨transform, argument, -, same⟩)
    · cases congrArg Factor.value same
      exact lexed
    · cases congrArg Factor.value same
  rintro ⟨-, column | column | power | power | computed | computed⟩
  · exact notColumn hf column.1
  · exact notColumn hg column.1
  · exact notPower hf power.1
  · exact notPower hg power.1
  · exact notComputed hf computed.1
  · exact notComputed hg computed.1

end Names

end Factor

end DesignMatrix
