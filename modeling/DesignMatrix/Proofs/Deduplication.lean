import Mathlib.Data.List.Perm.Basic
import DesignMatrix.Formula.Description
import DesignMatrix.Proofs.FactorNames
import DesignMatrix.Proofs.FormulaTerms

/-!
# What deduplication keeps

Terms are compared by the names of their factors. As long as a formula mentions no rivals, a term
that is dropped for another one has the columns of its factors in common with it.
-/

namespace DesignMatrix

deriving instance DecidableEq for Arith

deriving instance DecidableEq for Factor

/-- Entries are inserted one after the other, so none comes from anywhere else. -/
private theorem mem_or_mem_of_mem_foldl {α : Type} {insert : List α → α → List α}
    (step : ∀ {old : List α} {new entry : α}, entry ∈ insert old new → entry = new ∨ entry ∈ old)
    {old more : List α} {entry : α} (member : entry ∈ more.foldl insert old) :
    entry ∈ old ∨ entry ∈ more := by
  induction more generalizing old with
  | nil => exact .inl member
  | cons new more ih =>
    rcases ih member with inserted | behind
    · rcases step inserted with rfl | before
      · exact .inr List.mem_cons_self
      · exact .inl before
    · exact .inr (List.mem_cons_of_mem _ behind)

namespace Tree

/-- The factors that a tree mentions, before any term is dropped. -/
def factors : Tree → List Factor
  | .zero | .one => []
  | .factor atom => [atom]
  | .poly source degree raw => (List.range' 1 degree).map fun order =>
    if raw then Expansion.rawPower source order else Expansion.basisColumn source degree order
  | .binary _ lhs rhs => lhs.factors ++ rhs.factors
  | .negate operand => operand.factors
  | .power base _ => base.factors

theorem written_polyFactor (source : String) (raw : Bool) {degree order : ℕ} (positive : 1 ≤ order)
    (within : order ≤ degree) :
    (if raw then Expansion.rawPower source order
      else Expansion.basisColumn source degree order).Written := by
  cases raw with
  | false => exact .inr (.inr (.inr ⟨source, degree, order, positive, within, rfl⟩))
  | true =>
    rcases Nat.eq_or_lt_of_le positive with rfl | beyond
    · exact .inl ⟨source, rfl⟩
    · exact .inr (.inr (.inl ⟨source, order, beyond, rfl⟩))

theorem Parsed.written {tree : Tree} (h : tree.Parsed) : ∀ f ∈ tree.factors, f.Written := by
  induction h with
  | zero => simp [factors]
  | one => simp [factors]
  | column source => simpa [factors] using .inl ⟨source, rfl⟩
  | @arith value lexed =>
    have computed : (Factor.ofArith value).IsComputed := .inl ⟨value, lexed, rfl⟩
    simpa [factors] using .inr (.inl computed)
  | @call transform argument lexed =>
    have computed : (Factor.ofCall transform argument).IsComputed :=
      .inr ⟨transform, argument, lexed, rfl⟩
    simpa [factors] using .inr (.inl computed)
  | @poly source degree raw positive bounded =>
    intro f member
    obtain ⟨order, inside, rfl⟩ := List.mem_map.mp member
    rw [List.mem_range'_1] at inside
    exact written_polyFactor source raw inside.1 (by omega)
  | negate constant => rcases constant with rfl | rfl <;> simp [factors]
  | binary connective hl hr ihl ihr => exact List.forall_mem_append.mpr ⟨ihl, ihr⟩
  | power hb positive bounded ih => exact ih

end Tree

namespace Factor

/-- Any two of the factors that have one name have the same column, unless they are rivals. -/
def Agree (factors : List Factor) : Prop :=
  ∀ f ∈ factors, ∀ g ∈ factors, f.name = g.name → f.SameColumn g ∨ f.Rivals g

/-- The factors have one name, and the same column unless they are rivals. -/
def StandsFor (kept dropped : Factor) : Prop :=
  dropped.name = kept.name ∧ (dropped.SameColumn kept ∨ dropped.Rivals kept)

theorem StandsFor.refl (f : Factor) : f.StandsFor f := ⟨rfl, .inl (.of_value_eq rfl)⟩

end Factor

namespace Term

/-- The term has its factors among those given, each name once. -/
def BuiltFrom (factors : List Factor) (term : Term) : Prop :=
  term.Proper ∧ ∀ f ∈ term.factors, f ∈ factors

/-- The factors of the terms pair up so that each one kept stands for the one dropped. -/
def Covers (kept dropped : Term) : Prop :=
  ∃ matched : List Factor, matched.Perm kept.factors ∧
    List.Forall₂ (fun f g => Factor.StandsFor g f) dropped.factors matched

theorem Covers.refl (term : Term) : term.Covers term :=
  ⟨term.factors, .refl _, List.forall₂_same.mpr fun f _ => .refl f⟩

variable {factors : List Factor} {left right term other : Term}

theorem covers_of_sameAs (agree : Factor.Agree factors) (built : term.BuiltFrom factors)
    (built' : other.BuiltFrom factors) (same : other.sameAs term = true) : other.Covers term := by
  have permuted : term.names.Perm other.names :=
    (perm_names_of_sameAs built'.1 built.1 same).symm
  have named : List.Forall₂ (fun name (g : Factor) => name = g.name) other.names other.factors :=
    List.forall₂_map_left_iff.mpr (List.forall₂_same.mpr fun _ _ => rfl)
  -- The factors of the other term follow their names into the order of the first.
  obtain ⟨matched, names, perm⟩ := List.perm_comp_forall₂ permuted named
  obtain ⟨length, pairs⟩ := List.forall₂_iff_zip.mp (List.forall₂_map_left_iff.mp names)
  refine ⟨matched, perm, List.forall₂_iff_zip.mpr ⟨length, fun {f g} paired => ?_⟩⟩
  obtain ⟨dropped, kept⟩ := List.of_mem_zip paired
  have inTerm : f ∈ factors := built.2 f dropped
  have inOther : g ∈ factors := built'.2 g (perm.mem_iff.mp kept)
  exact ⟨pairs paired, agree f inTerm g inOther (pairs paired)⟩

theorem eq_or_mem_of_mem_insertFactor {f new : Factor} (member : f ∈ insertFactor factors new) :
    f = new ∨ f ∈ factors := by
  unfold insertFactor at member
  split at member
  · exact .inr member
  · exact (List.mem_append.mp member).symm.imp_left List.mem_singleton.mp

theorem mem_factors_interact {f : Factor} (member : f ∈ (left.interact right).factors) :
    f ∈ left.factors ∨ f ∈ right.factors :=
  mem_or_mem_of_mem_foldl eq_or_mem_of_mem_insertFactor member

theorem BuiltFrom.interact (hl : left.BuiltFrom factors) (hr : right.BuiltFrom factors) :
    (left.interact right).BuiltFrom factors :=
  ⟨hl.1.interact right, fun f member => (mem_factors_interact member).elim (hl.2 f) (hr.2 f)⟩

theorem BuiltFrom.empty : Term.empty.BuiltFrom factors := ⟨proper_empty, by simp [Term.empty]⟩

theorem BuiltFrom.single {f : Factor} (member : f ∈ factors) : (Term.single f).BuiltFrom factors :=
  ⟨proper_single f, by simpa [Term.single] using member⟩

/-- Every factor of a product is kept or has one that stands for it. -/
theorem exists_standsFor_of_interact (agree : Factor.Agree factors) (hl : left.BuiltFrom factors)
    (hr : right.BuiltFrom factors) {f : Factor} (member : f ∈ left.factors ++ right.factors) :
    ∃ g ∈ (left.interact right).factors, g.StandsFor f := by
  have inFactors : f ∈ factors := (List.mem_append.mp member).elim (hl.2 f) (hr.2 f)
  have named : f.name ∈ (left.interact right).names :=
    mem_names_interact.mpr
      ((List.mem_append.mp member).imp (List.mem_map_of_mem ·) (List.mem_map_of_mem ·))
  obtain ⟨g, kept, same⟩ := List.mem_map.mp named
  exact ⟨g, kept, same.symm, agree f inFactors g ((hl.interact hr).2 g kept) same.symm⟩

end Term

namespace Expansion

variable {factors : List Factor} {left right terms : List Term} {term : Term}

theorem mem_insertTerm_of_mem (new : Term) (member : term ∈ terms) :
    term ∈ insertTerm terms new := by
  unfold insertTerm
  split
  · exact member
  · exact List.mem_append_left _ member

theorem mem_union_of_mem_left (member : term ∈ left) : term ∈ union left right := by
  induction right generalizing left with
  | nil => exact member
  | cons new right ih => exact ih (mem_insertTerm_of_mem new member)

theorem eq_or_mem_of_mem_insertTerm {new : Term} (member : term ∈ insertTerm terms new) :
    term = new ∨ term ∈ terms := by
  unfold insertTerm at member
  split at member
  · exact .inr member
  · exact (List.mem_append.mp member).symm.imp_left List.mem_singleton.mp

theorem mem_or_mem_of_mem_union (member : term ∈ union left right) :
    term ∈ left ∨ term ∈ right :=
  mem_or_mem_of_mem_foldl eq_or_mem_of_mem_insertTerm member

/-- A term of the second list is in the union, or another one that counts as the same is. -/
theorem exists_of_mem_right (left : List Term) (member : term ∈ right) :
    ∃ kept ∈ union left right, kept = term ∨ kept.sameAs term = true := by
  induction right generalizing left with
  | nil => cases member
  | cons new right ih =>
    rcases List.mem_cons.mp member with rfl | behind
    · by_cases present : contains left term = true
      · obtain ⟨kept, listed, same⟩ := List.any_eq_true.mp present
        have stays : kept ∈ union (insertTerm left term) right :=
          mem_union_of_mem_left (mem_insertTerm_of_mem term listed)
        exact ⟨kept, stays, .inr same⟩
      · have inserted : term ∈ insertTerm left term := by simp [insertTerm, present]
        have stays : term ∈ union (insertTerm left term) right := mem_union_of_mem_left inserted
        exact ⟨term, stays, .inl rfl⟩
    · exact ih _ behind

/-- No term is dropped unless another one covers it, and no factor of a product is. -/
structure KeepsColumns (left right : List Term) : Prop where
  union : ∀ term ∈ left ++ right, ∃ kept ∈ union left right, kept.Covers term
  without : ∀ term ∈ left, term ∈ without left right ∨ ∃ removed ∈ right, removed.Covers term
  products : ∀ l ∈ left, ∀ r ∈ right, ∃ kept ∈ products left right, kept.Covers (l.interact r)
  factors : ∀ l ∈ left, ∀ r ∈ right, ∀ f ∈ l.factors ++ r.factors,
    ∃ g ∈ (l.interact r).factors, g.StandsFor f

theorem union_covers (agree : Factor.Agree factors) (hl : ∀ term ∈ left, term.BuiltFrom factors)
    (hr : ∀ term ∈ right, term.BuiltFrom factors) (member : term ∈ left ++ right) :
    ∃ kept ∈ union left right, kept.Covers term := by
  rcases List.mem_append.mp member with inLeft | inRight
  · exact ⟨term, mem_union_of_mem_left inLeft, .refl term⟩
  · obtain ⟨kept, listed, rfl | same⟩ := exists_of_mem_right left inRight
    · exact ⟨kept, listed, .refl kept⟩
    · have built : kept.BuiltFrom factors :=
        (mem_or_mem_of_mem_union listed).elim (hl kept) (hr kept)
      exact ⟨kept, listed, Term.covers_of_sameAs agree (hr term inRight) built same⟩

private theorem pairs_builtFrom (hl : ∀ term ∈ left, term.BuiltFrom factors)
    (hr : ∀ term ∈ right, term.BuiltFrom factors) :
    ∀ term ∈ left.flatMap (fun l => right.map fun r => l.interact r), term.BuiltFrom factors := by
  intro term member
  obtain ⟨l, inLeft, fromRight⟩ := List.mem_flatMap.mp member
  obtain ⟨r, inRight, rfl⟩ := List.mem_map.mp fromRight
  exact (hl l inLeft).interact (hr r inRight)

theorem keepsColumns (agree : Factor.Agree factors) (hl : ∀ term ∈ left, term.BuiltFrom factors)
    (hr : ∀ term ∈ right, term.BuiltFrom factors) : KeepsColumns left right where
  union term member := union_covers agree hl hr member
  without term member := by
    by_cases present : contains right term = true
    · obtain ⟨removed, listed, same⟩ := List.any_eq_true.mp present
      exact .inr ⟨removed, listed,
        Term.covers_of_sameAs agree (hl term member) (hr removed listed) same⟩
    · exact .inl (List.mem_filter.mpr ⟨member, by simpa using present⟩)
  products l inLeft r inRight := by
    have listed : l.interact r ∈ left.flatMap (fun l => right.map fun r => l.interact r) :=
      List.mem_flatMap.mpr ⟨l, inLeft, List.mem_map_of_mem inRight⟩
    exact union_covers agree (by simp) (pairs_builtFrom hl hr) (List.mem_append_right [] listed)
  factors l inLeft r inRight f member :=
    Term.exists_standsFor_of_interact agree (hl l inLeft) (hr r inRight) member

theorem union_builtFrom (hl : ∀ term ∈ left, term.BuiltFrom factors)
    (hr : ∀ term ∈ right, term.BuiltFrom factors) :
    ∀ term ∈ union left right, term.BuiltFrom factors :=
  fun term member => (mem_or_mem_of_mem_union member).elim (hl term) (hr term)

theorem products_builtFrom (hl : ∀ term ∈ left, term.BuiltFrom factors)
    (hr : ∀ term ∈ right, term.BuiltFrom factors) :
    ∀ term ∈ products left right, term.BuiltFrom factors :=
  union_builtFrom (by simp) (pairs_builtFrom hl hr)

theorem growBy_builtFrom {base : List Term} (hb : ∀ term ∈ base, term.BuiltFrom factors)
    (rounds : ℕ) (ht : ∀ term ∈ terms, term.BuiltFrom factors) :
    ∀ term ∈ growBy base rounds terms, term.BuiltFrom factors := by
  induction rounds generalizing terms with
  | zero => exact ht
  | succ rounds ih =>
    have grown := union_builtFrom ht (products_builtFrom ht hb)
    simp only [growBy]
    split
    · exact grown
    · exact ih grown

theorem productOf_builtFrom (ht : ∀ term ∈ terms, term.BuiltFrom factors) :
    (productOf terms).BuiltFrom factors := by
  have general {start : Term} (built : start.BuiltFrom factors) :
      (terms.foldl Term.interact start).BuiltFrom factors := by
    induction terms generalizing start with
    | nil => exact built
    | cons term terms ih =>
      obtain ⟨first, rest⟩ := List.forall_mem_cons.mp ht
      exact ih rest (built.interact first)
  exact general .empty

end Expansion

namespace Term

theorem BuiltFrom.mono {factors more : List Factor} {term : Term} (built : term.BuiltFrom factors)
    (subset : factors ⊆ more) : term.BuiltFrom more :=
  ⟨built.1, fun f member => subset (built.2 f member)⟩

end Term

namespace Tree

open Expansion

/-- The terms of an expansion have no other factors than those that the tree mentions. -/
theorem builtFrom_expand (tree : Tree) :
    ∀ term ∈ tree.expand.terms, term.BuiltFrom tree.factors := by
  induction tree with
  | zero | one => simp [expand]
  | negate operand => simp [expand]
  | factor atom => simpa [expand] using .single (List.mem_singleton_self atom)
  | poly source degree raw =>
    intro term member
    obtain ⟨order, inside, rfl⟩ := List.mem_map.mp member
    exact .single (List.mem_map_of_mem inside)
  | power base order ih => exact growBy_builtFrom ih _ ih
  | binary connective lhs rhs ihl ihr =>
    have hl : ∀ term ∈ lhs.expand.terms, term.BuiltFrom (lhs.factors ++ rhs.factors) :=
      fun term member => (ihl term member).mono (List.subset_append_left _ _)
    have hr : ∀ term ∈ rhs.expand.terms, term.BuiltFrom (lhs.factors ++ rhs.factors) :=
      fun term member => (ihr term member).mono (List.subset_append_right _ _)
    cases connective with
    | add => exact union_builtFrom hl hr
    | remove => exact fun term member => hl term (List.mem_filter.mp member).1
    | interact => exact products_builtFrom hl hr
    | cross => exact union_builtFrom (union_builtFrom hl hr) (products_builtFrom hl hr)
    | nest =>
      have outer : ∀ term ∈ [productOf lhs.expand.terms],
          term.BuiltFrom (lhs.factors ++ rhs.factors) := by
        simpa using productOf_builtFrom hl
      exact union_builtFrom hl (products_builtFrom outer hr)

end Tree

namespace Tree

/-- The tree and everything it is made of. -/
def parts : Tree → List Tree
  | .binary connective lhs rhs => .binary connective lhs rhs :: (lhs.parts ++ rhs.parts)
  | .negate operand => .negate operand :: operand.parts
  | .power base order => .power base order :: base.parts
  | tree => [tree]

theorem factors_subset_of_mem_parts {part tree : Tree} (member : part ∈ tree.parts) :
    part.factors ⊆ tree.factors := by
  induction tree with
  | zero | one | factor | poly => exact (List.mem_singleton.mp member) ▸ List.Subset.refl _
  | negate operand ih | power operand order ih =>
    rcases List.mem_cons.mp member with rfl | inside
    · exact List.Subset.refl _
    · exact ih inside
  | binary connective lhs rhs ihl ihr =>
    rcases List.mem_cons.mp member with rfl | inside
    · exact List.Subset.refl _
    · rcases List.mem_append.mp inside with left | right
      · exact List.subset_append_of_subset_left _ (ihl left)
      · exact List.subset_append_of_subset_right _ (ihr right)

end Tree

namespace Formula

/-- The sides of the formula. -/
def sides (formula : Formula) : List Tree := formula.response.toList ++ [formula.predictors]

/-- The factors that the formula mentions, before any term is dropped. -/
def factors (formula : Formula) : List Factor := formula.sides.flatMap Tree.factors

theorem parsed_of_mem_sides {text : String} {formula : Formula}
    (parsed : parse text = .ok formula) {side : Tree} (isSide : side ∈ formula.sides) :
    side.Parsed := by
  obtain ⟨response, predictors⟩ := parsed_of_parse parsed
  rcases List.mem_append.mp isSide with left | right
  · exact response side (by simpa using left)
  · exact List.mem_singleton.mp right ▸ predictors

theorem written_of_parse {text : String} {formula : Formula} (parsed : parse text = .ok formula) :
    ∀ f ∈ formula.factors, f.Written := by
  intro f member
  obtain ⟨side, isSide, mentioned⟩ := List.mem_flatMap.mp member
  exact (parsed_of_mem_sides parsed isSide).written f mentioned

/-- Factors of one name have one column unless they are rivals, so that no column gets lost when
terms are compared by names: not in the parts of the formula, and not in any other lists of terms
that are built from its factors. -/
theorem agree_and_keepsColumns_of_parse {text : String} {formula : Formula}
    (parsed : parse text = .ok formula) :
    Factor.Agree formula.factors ∧
      (∀ side ∈ formula.sides, ∀ part ∈ side.parts, ∀ term ∈ part.expand.terms,
        term.BuiltFrom formula.factors) ∧
      ∀ left right : List Term, (∀ term ∈ left, term.BuiltFrom formula.factors) →
        (∀ term ∈ right, term.BuiltFrom formula.factors) → Expansion.KeepsColumns left right := by
  have written := written_of_parse parsed
  have agree : Factor.Agree formula.factors := fun f hf g hg same =>
    Factor.sameColumn_or_rivals (written f hf) (written g hg) same
  refine ⟨agree, fun side isSide part isPart term member => ?_,
    fun left right hl hr => Expansion.keepsColumns agree hl hr⟩
  refine (part.builtFrom_expand term member).mono fun f mentioned => ?_
  exact List.mem_flatMap.mpr ⟨side, isSide, Tree.factors_subset_of_mem_parts isPart mentioned⟩

private theorem exists_of_factors {text : String} {factors : List Factor}
    (h : (parse text).toOption.map Formula.factors = some factors) :
    ∃ formula, parse text = .ok formula ∧ formula.factors = factors := by
  obtain ⟨formula, parsed, same⟩ := Option.map_eq_some_iff.mp h
  exact ⟨formula, Outcomes.toOption_eq_some.mp parsed, same⟩

theorem keepsColumns_of_degrees :
    ∃ formula, parse "~ poly(x, 2) + poly(x, 3)" = .ok formula ∧
      (Expansion.basisColumn "x" 2 1).SameColumn (Expansion.basisColumn "x" 3 1) ∧
      Expansion.KeepsColumns [.single (Expansion.basisColumn "x" 2 1)]
        [.single (Expansion.basisColumn "x" 3 1)] := by
  obtain ⟨formula, parsed, mentioned⟩ : ∃ formula, parse "~ poly(x, 2) + poly(x, 3)" = .ok formula ∧
      formula.factors = [Expansion.basisColumn "x" 2 1, Expansion.basisColumn "x" 2 2,
        Expansion.basisColumn "x" 3 1, Expansion.basisColumn "x" 3 2,
        Expansion.basisColumn "x" 3 3] := exists_of_factors (by decide +kernel)
  obtain ⟨agree, -, keeps⟩ := agree_and_keepsColumns_of_parse parsed
  have low : Expansion.basisColumn "x" 2 1 ∈ formula.factors := by simp [mentioned]
  have high : Expansion.basisColumn "x" 3 1 ∈ formula.factors := by simp [mentioned]
  have isLow : (Expansion.basisColumn "x" 2 1).IsBasis :=
    ⟨"x", 2, 1, by decide, by decide, rfl⟩
  have isHigh : (Expansion.basisColumn "x" 3 1).IsBasis :=
    ⟨"x", 3, 1, by decide, by decide, rfl⟩
  refine ⟨formula, parsed, ?_, keeps _ _ ?_ ?_⟩
  · exact (agree _ low _ high rfl).resolve_right (isLow.not_rivals isHigh)
  · exact List.forall_mem_singleton.mpr (.single low)
  · exact List.forall_mem_singleton.mpr (.single high)

/-- Two factors of the formula have one name, and their columns differ on some frame. -/
def Clashes (text : String) : Prop :=
  ∃ formula, parse text = .ok formula ∧ ∃ f ∈ formula.factors, ∃ g ∈ formula.factors,
    f.name = g.name ∧ ¬f.SameColumn g

/-- Columns of which some have a name that other factors have as well. -/
def clashFrame : Frame where
  height := 3
  columns := [("x", #v[some 0, some 1, some 3]), ("x_2", #v[some 5, some 6, some 7]),
    ("I(x)", #v[some 5, some 6, some 7]), ("poly_x", #v[some 5, some 6, some 7]),
    ("poly_x_1", #v[some 5, some 6, some 7]), ("a + b", #v[some 5, some 6, some 7]),
    ("a", #v[some 0.1, some 1, some 2]), ("b", #v[some 0.2, some 1, some 2]),
    ("c", #v[some 0.3, some 1, some 2])].map fun (name, cells) => ⟨⟨.float64, .each cells⟩, name⟩
  distinct := by decide

private theorem clashes_of_apartOn {text : String} {factors : List Factor} (f g : Factor)
    (h : (parse text).toOption.map Formula.factors = some factors)
    (mentioned : f ∈ factors ∧ g ∈ factors) (same : f.name = g.name)
    (apart : (Expr.ofArith f.value).ApartOn clashFrame (.ofArith g.value)) : Clashes text := by
  obtain ⟨formula, parsed, rfl⟩ := exists_of_factors h
  exact ⟨formula, parsed, f, mentioned.1, g, mentioned.2, same,
    fun agree => agree.not_apartOn clashFrame apart⟩

private theorem cellsOn_clashFrame_basis {order : ℕ} (positive : 1 ≤ order) (within : order ≤ 2) :
    (Expr.basis "x" 2 order).cellsOn clashFrame = some (List.ofFn fun i : Fin 3 =>
      some (((Basis.columnOf [0, 1, 3] order)[i.val]?).getD 0)) := by
  have read : Expr.readColumn clashFrame "x" =
      .ok ⟨⟨.float64, .each #v[some 0, some 1, some 3]⟩, "x"⟩ := rfl
  exact Expr.cellsOn_basis (by decide) read (by decide +kernel) (by decide +kernel)
    (by decide +kernel) positive within

/-- The names of factors clash in each of the ways in which factors are rivals, and a column gets
lost by it. A term that counts as another one for its names may also multiply in another order. -/
theorem clashes_of_rivals :
    Clashes "~ x_2 + poly(x, 2, raw = TRUE)" ∧ Clashes "~ \x60I(x)\x60 + I(x)" ∧
      Clashes "~ poly_x_1 + poly(x, 2)" ∧ Clashes "~ poly(poly_x, 2, raw = TRUE) + poly(x, 2)" ∧
      Clashes "~ I(\x60a + b\x60) + I(a + b)" ∧
      (describe "~ x_2 + poly(x, 2, raw = TRUE)").toOption.map
        (fun description => description.predictors.map Term.name) = some ["x_2", "x"] ∧
      (describe "~ a:b:c + c:b:a").toOption.map
        (fun description => description.predictors.map Term.name) = some ["a:b:c"] ∧
      (Expr.ofTerm ⟨[.ofColumn "a", .ofColumn "b", .ofColumn "c"]⟩).ApartOn clashFrame
        (.ofTerm ⟨[.ofColumn "c", .ofColumn "b", .ofColumn "a"]⟩) := by
  -- The cells are compared as they are evaluated; a basis is not, for its values have to be sorted.
  have apart {e e' : Expr} (evaluates : (e.cellsOn clashFrame).isSome)
      (evaluates' : (e'.cellsOn clashFrame).isSome)
      (differ : e.cellsOn clashFrame ≠ e'.cellsOn clashFrame) : e.ApartOn clashFrame e' := by
    obtain ⟨cells, h⟩ := Option.isSome_iff_exists.mp evaluates
    obtain ⟨cells', h'⟩ := Option.isSome_iff_exists.mp evaluates'
    exact Expr.apartOn_of_cellsOn h h' fun same => differ (by rw [h, h', same])
  refine ⟨?_, ?_, ?_, ?_, ?_, by decide +kernel, by decide +kernel, ?_⟩
  · have mentioned : (parse "~ x_2 + poly(x, 2, raw = TRUE)").toOption.map Formula.factors =
      some [.ofColumn "x_2", .ofColumn "x", Expansion.rawPower "x" 2] := by decide +kernel
    exact clashes_of_apartOn (.ofColumn "x_2") (Expansion.rawPower "x" 2) mentioned (by simp)
      (by decide) (apart (by decide +kernel) (by decide +kernel) (by decide +kernel))
  · have mentioned : (parse "~ \x60I(x)\x60 + I(x)").toOption.map Formula.factors =
      some [.ofColumn "I(x)", .ofArith (.column "x")] := by decide +kernel
    exact clashes_of_apartOn (.ofColumn "I(x)") (.ofArith (.column "x")) mentioned (by simp)
      (by decide) (apart (by decide +kernel) (by decide +kernel) (by decide +kernel))
  · have mentioned : (parse "~ poly_x_1 + poly(x, 2)").toOption.map Formula.factors =
      some [.ofColumn "poly_x_1", Expansion.basisColumn "x" 2 1,
        Expansion.basisColumn "x" 2 2] := by decide +kernel
    have column : (Expr.column "poly_x_1").cellsOn clashFrame = some [some 5, some 6, some 7] := by
      decide +kernel
    have basis := cellsOn_clashFrame_basis (Nat.le_refl 1) (by decide)
    exact clashes_of_apartOn (.ofColumn "poly_x_1") (Expansion.basisColumn "x" 2 1) mentioned
      (by simp) (by decide) (Expr.apartOn_of_cellsOn column basis (by decide +kernel))
  · have mentioned : (parse "~ poly(poly_x, 2, raw = TRUE) + poly(x, 2)").toOption.map
      Formula.factors = some [.ofColumn "poly_x", Expansion.rawPower "poly_x" 2,
        Expansion.basisColumn "x" 2 1, Expansion.basisColumn "x" 2 2] := by decide +kernel
    have power : (Expr.ofArith (Expansion.rawPower "poly_x" 2).value).cellsOn clashFrame =
      some [some 25, some 36, some 49] := by decide +kernel
    have basis := cellsOn_clashFrame_basis (by decide) (Nat.le_refl 2)
    exact clashes_of_apartOn (Expansion.rawPower "poly_x" 2) (Expansion.basisColumn "x" 2 2)
      mentioned (by simp) (by decide) (Expr.apartOn_of_cellsOn power basis (by decide +kernel))
  · have mentioned : (parse "~ I(\x60a + b\x60) + I(a + b)").toOption.map Formula.factors =
      some [.ofArith (.column "a + b"),
        .ofArith (.binary .add (.column "a") (.column "b"))] := by decide +kernel
    exact clashes_of_apartOn (.ofArith (.column "a + b"))
      (.ofArith (.binary .add (.column "a") (.column "b"))) mentioned (by simp) (by decide)
      (apart (by decide +kernel) (by decide +kernel) (by decide +kernel))
  · exact apart (by decide +kernel) (by decide +kernel) (by decide +kernel)

end Formula

end DesignMatrix
