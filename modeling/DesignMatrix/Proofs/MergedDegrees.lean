import DesignMatrix.Proofs.BasisDegrees
import DesignMatrix.Proofs.Deduplication
import DesignMatrix.Proofs.TermColumns

/-!
# Terms that merge across degrees

A column of a basis stays what it is when it is taken from the basis of another degree, but terms
are compared by names, which show neither the degree nor the order of the factors. Of two terms that
differ in degrees only, it does not matter which one is kept, and the first two factors may change
places. In any other order the product is rounded in another way.
-/

namespace DesignMatrix

open Outcomes

namespace Factor

/-- The factors are the same, but for the degrees of the bases that they are columns of. -/
inductive EqualUpToDegree : Factor → Factor → Prop
  | refl (f : Factor) : EqualUpToDegree f f
  | basis (source : String) {degree degree' order : ℕ} (positive : 1 ≤ order)
      (within : order ≤ degree) (within' : order ≤ degree') :
      EqualUpToDegree (Expansion.basisColumn source degree order)
        (Expansion.basisColumn source degree' order)

variable {f g : Factor}

/-- A column of a basis shows by its name which column of which basis it is, but for the degree. -/
theorem basisColumn_name_injective {source source' : String} {degree degree' order order' : ℕ}
    (same : (Expansion.basisColumn source degree order).name =
      (Expansion.basisColumn source' degree' order').name) : source = source' ∧ order = order' := by
  obtain ⟨front, back⟩ := numbered_injective same
  exact ⟨(String.append_right_inj "poly_").mp front, back⟩

/-- Two factors of one name that are no rivals are the same, but for degrees. -/
theorem equalUpToDegree_of_not_rivals (hf : f.Written) (hg : g.Written) (same : f.name = g.name)
    (unrivalled : ¬f.Rivals g) : f.EqualUpToDegree g := by
  rcases value_eq_or_isBasis_or_rivals hf hg same with equal | ⟨basis, basis'⟩ | rivals
  · obtain ⟨name, value⟩ := f
    cases same
    cases equal
    exact .refl _
  · obtain ⟨source, degree, order, positive, within, rfl⟩ := basis
    obtain ⟨source', degree', order', -, within', rfl⟩ := basis'
    obtain ⟨rfl, rfl⟩ := basisColumn_name_injective same
    exact .basis source positive within within'
  · exact absurd rivals unrivalled

namespace EqualUpToDegree

theorem symm (h : f.EqualUpToDegree g) : g.EqualUpToDegree f := by
  cases h with
  | refl => exact .refl _
  | basis source positive within within' => exact .basis source positive within' within

theorem hasWildcard_eq (h : f.EqualUpToDegree g) :
    (Expr.ofArith f.value).hasWildcard = (Expr.ofArith g.value).hasWildcard := by
  cases h <;> rfl

variable {frame : Frame} {filling : Option String} {value value' : Value frame.height}

/-- What is put in the place of every column is put there in bases of all degrees. -/
theorem exists_fill_basisColumn (filling : Option String) (source : String) :
    ∃ source', ∀ degree order,
      (Expr.ofArith (Expansion.basisColumn source degree order).value).fill filling =
        .basis source' degree order := by
  cases filling with
  | none => exact ⟨source, fun degree order => rfl⟩
  | some name => exact ⟨_, fun degree order => rfl⟩

theorem value_unique (h : f.EqualUpToDegree g) (hf : f.HasValue frame filling value)
    (hg : g.HasValue frame filling value') : value = value' := by
  cases h with
  | refl => exact Except.ok.inj (hf.symm.trans hg)
  | basis source positive within within' =>
    obtain ⟨source', filled⟩ := exists_fill_basisColumn filling source
    rw [HasValue, filled] at hf hg
    exact Expr.valueOn_basis_unique positive within within' hf hg

theorem hasValue (h : f.EqualUpToDegree g) (hg : g.HasValue frame filling value)
    (enough : ∀ source degree order, f = Expansion.basisColumn source degree order →
      ∃ larger order' found, degree ≤ larger ∧
        (Expansion.basisColumn source larger order').HasValue frame filling found) :
    f.HasValue frame filling value := by
  cases h with
  | refl => exact hg
  | basis source positive within within' =>
    obtain ⟨larger, order', found, le, hasLarger⟩ := enough _ _ _ rfl
    obtain ⟨source', filled⟩ := exists_fill_basisColumn filling source
    rw [HasValue, filled] at hg hasLarger ⊢
    obtain ⟨own, computed⟩ := Expr.exists_valueOn_basis_of_le le hasLarger
    rwa [← Expr.valueOn_basis_unique positive within within' computed hg]

end EqualUpToDegree

section Lists

variable {factors factors' : List Factor} {frame : Frame} {filling : Option String}
  {values values' : List (Value frame.height)}

theorem hasWildcard_eq_of_equalUpToDegree (h : List.Forall₂ EqualUpToDegree factors factors') :
    (factors.any fun f => (Expr.ofArith f.value).hasWildcard) =
      factors'.any fun f => (Expr.ofArith f.value).hasWildcard := by
  induction h with
  | nil => rfl
  | cons head _ ih => simp [head.hasWildcard_eq, ih]

theorem values_unique (h : List.Forall₂ EqualUpToDegree factors factors')
    (hv : List.Forall₂ (HasValue frame filling) factors values)
    (hv' : List.Forall₂ (HasValue frame filling) factors' values') : values = values' := by
  induction h generalizing values values' with
  | nil =>
    cases hv
    cases hv'
    rfl
  | cons head _ ih =>
    cases hv with
    | cons first rest =>
      cases hv' with
      | cons first' rest' => rw [head.value_unique first first', ih rest rest']

theorem values_of_equalUpToDegree (h : List.Forall₂ EqualUpToDegree factors factors')
    (hv : List.Forall₂ (HasValue frame filling) factors' values)
    (enough : ∀ source degree order, Expansion.basisColumn source degree order ∈ factors →
      ∃ larger order' found, degree ≤ larger ∧
        (Expansion.basisColumn source larger order').HasValue frame filling found) :
    List.Forall₂ (HasValue frame filling) factors values := by
  induction h generalizing values with
  | nil => exact hv
  | cons head _ ih =>
    cases hv with
    | cons first rest =>
      refine .cons (head.hasValue first ?_) (ih rest ?_)
      · rintro source degree order rfl
        exact enough source degree order List.mem_cons_self
      · exact fun source degree order member =>
          enough source degree order (List.mem_cons_of_mem _ member)

end Lists

end Factor

namespace Term

variable {left right : Term} {frame : Frame}

/-- The factors of the terms are the same, but for degrees and the order of the first two. -/
def EqualUpToDegrees (left right : Term) : Prop :=
  ∃ term : Term, term.FrontSwap right ∧
    List.Forall₂ Factor.EqualUpToDegree left.factors term.factors

/-- Every basis that has a column in the left term is of a degree at most that of some basis of the
same source that has one in the right term. -/
def DegreesWithin (left right : Term) : Prop :=
  ∀ source degree order, Expansion.basisColumn source degree order ∈ left.factors →
    ∃ larger order', degree ≤ larger ∧
      Expansion.basisColumn source larger order' ∈ right.factors

/-- Factors of one name are the same in both terms, unless they are from bases of this source. -/
def DifferOnlyOn (source : String) (left right : Term) : Prop :=
  ∀ f ∈ left.factors, ∀ g ∈ right.factors, f.name = g.name →
    f = g ∨ ∃ degree order, f = Expansion.basisColumn source degree order

namespace EqualUpToDegrees

variable {column column' : Column frame.height}

theorem symm (h : left.EqualUpToDegrees right) : right.EqualUpToDegrees left := by
  obtain ⟨term, swapped, pairs⟩ := h
  cases swapped with
  | refl => exact ⟨left, .refl left, (pairs.imp fun _ _ => .symm).flip⟩
  | swap first second rest =>
    obtain ⟨factors⟩ := left
    obtain _ | ⟨head, _ | ⟨next, tail⟩⟩ := pairs
    exact ⟨_, .swap _ _ _, .cons next.symm (.cons head.symm (tail.imp fun _ _ => .symm).flip)⟩

theorem of_sameAs {factors : List Factor} (written : ∀ f ∈ factors, f.Written)
    (built : left.BuiltFrom factors) (built' : right.BuiltFrom factors)
    (same : left.sameAs right = true)
    (unrivalled : ∀ f ∈ left.factors, ∀ g ∈ right.factors, f.name = g.name → ¬f.Rivals g)
    (back : left.names.drop 2 = right.names.drop 2) : left.EqualUpToDegrees right := by
  obtain ⟨term, swapped, named⟩ :=
    exists_frontSwap (perm_names_of_sameAs built.1 built'.1 same) back
  have pairs : List.Forall₂ (fun f g : Factor => f.name = g.name) left.factors term.factors := by
    have names : List.Forall₂ Eq left.names term.names := named ▸ List.forall₂_refl _
    simpa only [Term.names, List.forall₂_map_left_iff, List.forall₂_map_right_iff] using names
  obtain ⟨length, paired⟩ := List.forall₂_iff_zip.mp pairs
  refine ⟨term, swapped, List.forall₂_iff_zip.mpr ⟨length, fun {f g} pair => ?_⟩⟩
  obtain ⟨inLeft, inTerm⟩ := List.of_mem_zip pair
  have inRight : g ∈ right.factors := swapped.perm.mem_iff.mp inTerm
  exact Factor.equalUpToDegree_of_not_rivals (written f (built.2 f inLeft))
    (written g (built'.2 g inRight)) (paired pair) (unrivalled f inLeft g inRight (paired pair))

theorem sameColumn (h : left.EqualUpToDegrees right)
    (shows : (Expr.ofTerm left).Yields frame column)
    (shows' : (Expr.ofTerm right).Yields frame column') : column = column' := by
  obtain ⟨term, swapped, pairs⟩ := h
  have wild : (Expr.ofTerm left).hasWildcard = (Expr.ofTerm term).hasWildcard := by
    simpa only [hasWildcard_ofTerm] using Factor.hasWildcard_eq_of_equalUpToDegree pairs
  obtain ⟨filling, filled, values, value, computed, product, rfl⟩ := yields_iff.mp shows
  obtain ⟨filling', filled', values', value', computed', product', rfl⟩ :=
    yields_iff.mp (swapped.symm.yields shows')
  obtain rfl := filled.unique wild filled'
  obtain rfl := Factor.values_unique pairs computed computed'
  obtain rfl : value = value' := Except.ok.inj (product.symm.trans product')
  rfl

/-- Where the term of the larger degrees has a column, the other one has the same. -/
theorem yields (h : left.EqualUpToDegrees right) (within : left.DegreesWithin right)
    (shows : (Expr.ofTerm right).Yields frame column) : (Expr.ofTerm left).Yields frame column := by
  obtain ⟨term, swapped, pairs⟩ := h
  have wild : (Expr.ofTerm term).hasWildcard = (Expr.ofTerm left).hasWildcard := by
    simpa only [hasWildcard_ofTerm] using (Factor.hasWildcard_eq_of_equalUpToDegree pairs).symm
  obtain ⟨filling, filled, values, value, computed, product, made⟩ :=
    yields_iff.mp (swapped.symm.yields shows)
  refine yields_iff.mpr ⟨filling, filled.of_hasWildcard_eq wild, values, value, ?_, product, made⟩
  refine Factor.values_of_equalUpToDegree pairs computed fun source degree order member => ?_
  obtain ⟨larger, order', le, inRight⟩ := within source degree order member
  obtain ⟨found, -, hasLarger⟩ := exists_mem_of_forall₂ computed (swapped.perm.mem_iff.mpr inRight)
  exact ⟨larger, order', found, le, hasLarger⟩

end EqualUpToDegrees

theorem exists_name_eq_of_sameAs (same : left.sameAs right = true) {f : Factor}
    (member : f ∈ left.factors) : ∃ g ∈ right.factors, f.name = g.name := by
  simp only [sameAs, Bool.and_eq_true, List.all_eq_true] at same
  obtain ⟨g, inRight, named⟩ := List.any_eq_true.mp (same.2 f member)
  exact ⟨g, inRight, (beq_iff_eq.mp named).symm⟩

/-- Of two terms in which only the bases of one source differ, one has the smaller degrees. -/
theorem degreesWithin_or_degreesWithin (proper : left.Proper) (proper' : right.Proper)
    (same : left.sameAs right = true) {source : String} (differ : DifferOnlyOn source left right) :
    left.DegreesWithin right ∨ right.DegreesWithin left := by
  by_cases within : left.DegreesWithin right
  · exact .inl within
  -- Some basis in the left term has a larger degree than all of its source in the right one.
  simp only [DegreesWithin, not_forall, not_exists, not_and] at within
  obtain ⟨source₁, degree₁, order₁, inLeft, above⟩ := within
  obtain rfl : source₁ = source := by
    obtain ⟨g, inRight, named⟩ := exists_name_eq_of_sameAs same inLeft
    rcases differ _ inLeft g inRight named with rfl | ⟨degree, order, basis⟩
    · exact absurd inRight (above degree₁ order₁ le_rfl)
    · exact (Factor.basisColumn_name_injective (congrArg Factor.name basis)).1
  refine .inr fun source₂ degree₂ order₂ inRight => ?_
  obtain ⟨f, inLeft', named⟩ :=
    exists_name_eq_of_sameAs (sameAs_symm proper proper' same) inRight
  rcases differ f inLeft' _ inRight named.symm with rfl | ⟨degree, order, rfl⟩
  · exact ⟨degree₂, order₂, le_rfl, inLeft'⟩
  · obtain ⟨rfl, -⟩ := Factor.basisColumn_name_injective named
    refine ⟨degree₁, order₁, Nat.le_of_lt (Nat.lt_of_not_le fun le => ?_), inLeft⟩
    exact above degree₂ order₂ le inRight

/-- Of two terms that count as the same the first one is kept. -/
theorem union_of_sameAs (same : left.sameAs right = true) :
    Expansion.union [left] [right] = [left] := by
  simp [Expansion.union, Expansion.insertTerm, Expansion.contains, same]

/-- Two terms of which either is dropped for the other, with one column between them. -/
structure MergesWith (left right : Term) : Prop where
  keepsLeft : Expansion.union [left] [right] = [left]
  keepsRight : Expansion.union [right] [left] = [right]
  sameColumn : ∀ frame column column', (Expr.ofTerm left).Yields frame column →
    (Expr.ofTerm right).Yields frame column' → column = column'
  /-- The term of the smaller degrees has its column wherever the other has. -/
  lower : left.DegreesWithin right → ∀ frame column, (Expr.ofTerm right).Yields frame column →
    (Expr.ofTerm left).Yields frame column
  upper : right.DegreesWithin left → ∀ frame column, (Expr.ofTerm left).Yields frame column →
    (Expr.ofTerm right).Yields frame column
  /-- One of the terms has the smaller degrees, if only the bases of one source differ. -/
  total : ∀ source, DifferOnlyOn source left right →
    left.DegreesWithin right ∨ right.DegreesWithin left

/-- Terms that count as the same merge if no factor of one is a rival of a factor of the other and
their factors have the same order from the third on. -/
theorem mergesWith_of_sameAs {factors : List Factor} (written : ∀ f ∈ factors, f.Written)
    (built : left.BuiltFrom factors) (built' : right.BuiltFrom factors)
    (same : left.sameAs right = true)
    (unrivalled : ∀ f ∈ left.factors, ∀ g ∈ right.factors, f.name = g.name → ¬f.Rivals g)
    (back : left.names.drop 2 = right.names.drop 2) : left.MergesWith right := by
  have alike : left.EqualUpToDegrees right := .of_sameAs written built built' same unrivalled back
  exact {
    keepsLeft := union_of_sameAs same
    keepsRight := union_of_sameAs (sameAs_symm built.1 built'.1 same)
    sameColumn := fun frame column column' => alike.sameColumn
    lower := fun within frame column => alike.yields within
    upper := fun within frame column => alike.symm.yields within
    total := fun source => degreesWithin_or_degreesWithin built.1 built'.1 same }

end Term

/-- All factors of an orthogonal `poly` are columns of a basis. -/
theorem Tree.isBasis_of_mem_factors (source : String) (degree : ℕ) :
    ∀ f ∈ (Tree.poly source degree false).factors, f.IsBasis := by
  intro f member
  obtain ⟨order, inside, rfl⟩ := List.mem_map.mp member
  rw [List.mem_range'_1] at inside
  exact ⟨source, degree, order, inside.1, by omega, rfl⟩

namespace Formula

/--
A basis is the front of every larger one that there is. So two terms of a formula that count as the
same merge, whatever the degrees of the bases in them, unless a factor of the one is a rival of a
factor of the other or their factors differ in order from the third on.
-/
theorem columns_of_le_and_mergesWith :
    (∀ (values : List Float) (degree larger : ℕ) (basis : List (List Float)), degree ≤ larger →
      Basis.columns values larger = .ok basis →
        Basis.columns values degree = .ok (basis.take degree) ∧ basis.length = larger ∧
          ∀ column ∈ basis, column.length = values.length) ∧
    ∀ (text : String) (formula : Formula), parse text = .ok formula →
      ∀ kept dropped : Term, kept.BuiltFrom formula.factors → dropped.BuiltFrom formula.factors →
        kept.sameAs dropped = true →
        (∀ f ∈ kept.factors, ∀ g ∈ dropped.factors, f.name = g.name → ¬f.Rivals g) →
        kept.names.drop 2 = dropped.names.drop 2 → kept.MergesWith dropped := by
  refine ⟨fun values degree larger basis le h => ⟨Basis.columns_of_le le h,
    Basis.length_of_columns h, fun column => Basis.length_of_mem_columns h⟩, ?_⟩
  intro text formula parsed kept dropped built built' same unrivalled back
  exact Term.mergesWith_of_sameAs (written_of_parse parsed) built built' same unrivalled back

theorem mergesWith_reordered :
    (∃ basis, Basis.columns [0, 1, 3] 2 = .ok basis ∧
      Basis.columns [0, 1, 3] 1 = .ok (basis.take 1) ∧ basis.length = 2 ∧
      ∀ column ∈ basis, column.length = 3) ∧
    ∃ formula, parse "~ poly(x, 2):poly(x, 3)" = .ok formula ∧
      Term.MergesWith ⟨[Expansion.basisColumn "x" 2 1, Expansion.basisColumn "x" 3 2]⟩
        ⟨[Expansion.basisColumn "x" 2 2, Expansion.basisColumn "x" 3 1]⟩ := by
  obtain ⟨fronts, merges⟩ := columns_of_le_and_mergesWith
  have hasBasis : Basis.columns [0, 1, 3] 2 = .ok _ :=
    Basis.columns_of_sorted (by decide +kernel) (by decide +kernel)
  let formula : Formula := ⟨none, .binary .interact (.poly "x" 2 false) (.poly "x" 3 false)⟩
  have parsed : parse "~ poly(x, 2):poly(x, 3)" = .ok formula :=
    toOption_eq_some.mp (by decide +kernel)
  have mentioned : formula.factors = [Expansion.basisColumn "x" 2 1, Expansion.basisColumn "x" 2 2,
    Expansion.basisColumn "x" 3 1, Expansion.basisColumn "x" 3 2,
    Expansion.basisColumn "x" 3 3] := rfl
  have isBasis : ∀ f ∈ (Tree.poly "x" 2 false).factors ++ (Tree.poly "x" 3 false).factors,
      f.IsBasis := List.forall_mem_append.mpr
    ⟨Tree.isBasis_of_mem_factors "x" 2, Tree.isBasis_of_mem_factors "x" 3⟩
  have kept : Term.BuiltFrom formula.factors
      ⟨[Expansion.basisColumn "x" 2 1, Expansion.basisColumn "x" 3 2]⟩ :=
    ⟨show ["poly_x_1", "poly_x_2"].Nodup by decide, by simp [mentioned]⟩
  have dropped : Term.BuiltFrom formula.factors
      ⟨[Expansion.basisColumn "x" 2 2, Expansion.basisColumn "x" 3 1]⟩ :=
    ⟨show ["poly_x_2", "poly_x_1"].Nodup by decide, by simp [mentioned]⟩
  refine ⟨⟨_, hasBasis, fronts _ 1 2 _ (by decide) hasBasis⟩, formula, parsed, ?_⟩
  refine merges _ formula parsed _ _ kept dropped (by decide) (fun f inKept g inDropped _ => ?_) rfl
  exact (isBasis f (kept.2 f inKept)).not_rivals (isBasis g (dropped.2 g inDropped))

/-- Six values at uneven distances. -/
def unevenFrame : Frame where
  height := 6
  columns := [⟨⟨.float64, .each #v[some 1, some 2, some 4, some 7, some 11, some 13]⟩, "x"⟩]
  distinct := by decide

/-- A column of the bases of these values. -/
def unevenColumn (order : ℕ) : Value unevenFrame.height :=
  .ofColumn ⟨.float64, .each (Vector.ofFn fun i : Fin 6 =>
    some (((Basis.columnOf [1, 2, 4, 7, 11, 13] order)[i.val]?).getD 0))⟩

private theorem hasValue_unevenFrame {degree order : ℕ} (enough : degree < 6)
    (positive : 1 ≤ order) (within : order ≤ degree) :
    (Expansion.basisColumn "x" degree order).HasValue unevenFrame none (unevenColumn order) := by
  have read : Expr.readColumn unevenFrame "x" =
    .ok ⟨⟨.float64, .each #v[some 1, some 2, some 4, some 7, some 11, some 13]⟩, "x"⟩ := rfl
  have distinct : Basis.runs [1, 2, 4, 7, 11, 13] = 6 := by decide +kernel
  exact Expr.valueOn_basis_of_sorted read (by decide +kernel) (by decide +kernel)
    (by rwa [distinct]) positive within

/-- The products of three columns of bases in two orders, which are rounded in two ways. -/
private theorem exists_yields_unevenFrame :
    ∃ column column',
      (Expr.ofTerm ⟨[Expansion.basisColumn "x" 2 1, Expansion.basisColumn "x" 3 2,
        Expansion.basisColumn "x" 4 3]⟩).Yields unevenFrame column ∧
      (Expr.ofTerm ⟨[Expansion.basisColumn "x" 2 1, Expansion.basisColumn "x" 3 3,
        Expansion.basisColumn "x" 4 2]⟩).Yields unevenFrame column' ∧ column ≠ column' := by
  have first : (Expansion.basisColumn "x" 2 1).HasValue unevenFrame none (unevenColumn 1) :=
    hasValue_unevenFrame (by decide) (by decide) (by decide)
  have second {degree : ℕ} (enough : degree < 6) (within : 2 ≤ degree) :
      (Expansion.basisColumn "x" degree 2).HasValue unevenFrame none (unevenColumn 2) :=
    hasValue_unevenFrame enough (by decide) within
  have third {degree : ℕ} (enough : degree < 6) (within : 3 ≤ degree) :
      (Expansion.basisColumn "x" degree 3).HasValue unevenFrame none (unevenColumn 3) :=
    hasValue_unevenFrame enough (by decide) within
  obtain ⟨value, product⟩ : ∃ value,
      Value.product [unevenColumn 1, unevenColumn 2, unevenColumn 3] = .ok value := ⟨_, rfl⟩
  obtain ⟨value', product'⟩ : ∃ value,
      Value.product [unevenColumn 1, unevenColumn 3, unevenColumn 2] = .ok value := ⟨_, rfl⟩
  have differ : (Value.product [unevenColumn 1, unevenColumn 2, unevenColumn 3]).toOption.map
        (fun value => value.toColumn.doubles) ≠
      (Value.product [unevenColumn 1, unevenColumn 3, unevenColumn 2]).toOption.map
        fun value => value.toColumn.doubles := by decide +kernel
  refine ⟨value.toColumn, value'.toColumn, ?_, ?_, ?_⟩
  · exact Term.yields_iff.mpr ⟨none, rfl, _, value, .cons first (.cons
      (second (by decide) (by decide)) (.cons (third (by decide) (by decide)) .nil)), product, rfl⟩
  · exact Term.yields_iff.mpr ⟨none, rfl, _, value', .cons first (.cons
      (third (by decide) (by decide)) (.cons (second (by decide) (by decide)) .nil)), product', rfl⟩
  · intro same
    rw [product, product'] at differ
    exact differ (congrArg some (congrArg Column.doubles same))

/-- A product of three columns of bases is dropped for another one of the same columns in another
order, which is rounded in another way, although no factor of the formula has a rival. -/
theorem apart_of_reordered :
    ∃ formula lhs rhs, parse "~ poly(x, 2):poly(x, 3):poly(x, 4)" = .ok formula ∧
      formula.predictors = .binary .interact lhs rhs ∧ (∀ f ∈ formula.factors, f.IsBasis) ∧
      ∃ kept dropped : Term, kept.BuiltFrom formula.factors ∧ dropped.BuiltFrom formula.factors ∧
        kept.sameAs dropped = true ∧ kept ∈ formula.predictors.expand.terms ∧
        (∃ left ∈ lhs.expand.terms, ∃ right ∈ rhs.expand.terms, left.interact right = dropped) ∧
        ∃ column column', (Expr.ofTerm kept).Yields unevenFrame column ∧
          (Expr.ofTerm dropped).Yields unevenFrame column' ∧ column ≠ column' := by
  let lhs : Tree := .binary .interact (.poly "x" 2 false) (.poly "x" 3 false)
  let formula : Formula := ⟨none, .binary .interact lhs (.poly "x" 4 false)⟩
  have parsed : parse "~ poly(x, 2):poly(x, 3):poly(x, 4)" = .ok formula :=
    toOption_eq_some.mp (by decide +kernel)
  have mentioned : formula.factors = [Expansion.basisColumn "x" 2 1, Expansion.basisColumn "x" 2 2,
    Expansion.basisColumn "x" 3 1, Expansion.basisColumn "x" 3 2, Expansion.basisColumn "x" 3 3,
    Expansion.basisColumn "x" 4 1, Expansion.basisColumn "x" 4 2, Expansion.basisColumn "x" 4 3,
    Expansion.basisColumn "x" 4 4] := rfl
  have isBasis : ∀ f ∈ (Tree.poly "x" 2 false).factors ++ (Tree.poly "x" 3 false).factors ++
      (Tree.poly "x" 4 false).factors, f.IsBasis := by
    rw [List.forall_mem_append, List.forall_mem_append]
    exact ⟨⟨Tree.isBasis_of_mem_factors "x" 2, Tree.isBasis_of_mem_factors "x" 3⟩,
      Tree.isBasis_of_mem_factors "x" 4⟩
  have kept : Term.BuiltFrom formula.factors ⟨[Expansion.basisColumn "x" 2 1,
      Expansion.basisColumn "x" 3 2, Expansion.basisColumn "x" 4 3]⟩ :=
    ⟨show ["poly_x_1", "poly_x_2", "poly_x_3"].Nodup by decide, by simp [mentioned]⟩
  have dropped : Term.BuiltFrom formula.factors ⟨[Expansion.basisColumn "x" 2 1,
      Expansion.basisColumn "x" 3 3, Expansion.basisColumn "x" 4 2]⟩ :=
    ⟨show ["poly_x_1", "poly_x_3", "poly_x_2"].Nodup by decide, by simp [mentioned]⟩
  have left : ⟨[Expansion.basisColumn "x" 2 1, Expansion.basisColumn "x" 3 3]⟩ ∈
      lhs.expand.terms := List.mem_of_getElem? (i := 2) (by decide +kernel)
  have right : ⟨[Expansion.basisColumn "x" 4 2]⟩ ∈ (Tree.poly "x" 4 false).expand.terms :=
    List.mem_of_getElem? (i := 1) (by decide +kernel)
  exact ⟨formula, lhs, _, parsed, rfl, isBasis, _, _, kept, dropped, by decide,
    List.mem_of_getElem? (i := 4) (by decide +kernel), ⟨_, left, _, right, by decide +kernel⟩,
    exists_yields_unevenFrame⟩

end Formula

end DesignMatrix
