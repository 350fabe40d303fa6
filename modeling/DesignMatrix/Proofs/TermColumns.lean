import DesignMatrix.Proofs.ElementwiseTerms
import DesignMatrix.Proofs.Evaluation

/-!
# Columns of terms

A term has a column when each of its factors has a value and these can be multiplied from left to
right. Two values have the same product in either order, to the last bit, so the first two factors
of a term may change places. From the third factor on the order decides how the product is rounded.
-/

namespace DesignMatrix

open Outcomes

section Numbers

open Float.Model Float.Model.UnpackedFloat

theorem sign_mul_comm (s t : Sign) : s * t = t * s := by cases s <;> cases t <;> rfl

theorem unpacked_mul_comm {spec : Format} (x y : UnpackedFloat) :
    UnpackedFloat.mul spec x y = UnpackedFloat.mul spec y x := by
  cases x with
  | notANumber => cases y <;> rfl
  | infinity s =>
    cases y with
    | notANumber | zero => rfl
    | infinity t | finite t => exact congrArg infinity (sign_mul_comm s t)
  | zero s =>
    cases y with
    | notANumber | infinity => rfl
    | zero t | finite t => exact congrArg zero (sign_mul_comm s t)
  | finite s m e =>
    cases y with
    | notANumber => rfl
    | infinity t => exact congrArg infinity (sign_mul_comm s t)
    | zero t => exact congrArg zero (sign_mul_comm s t)
    | finite t n f =>
      show roundWithAccuracy spec (s * t) (m * n) (e + f) .exact =
        roundWithAccuracy spec (t * s) (n * m) (f + e) .exact
      rw [sign_mul_comm s, Nat.mul_comm m, Int.add_comm e]

theorem double_mul_comm (x y : Float) : x * y = y * x :=
  congrArg (fun product => Float.ofModel (.pack product)) (unpacked_mul_comm _ _)

theorem single_mul_comm (x y : Float32) : x * y = y * x :=
  congrArg (fun product => Float32.ofModel (.pack product)) (unpacked_mul_comm _ _)

end Numbers

theorem ElementType.common?_comm (left right : ElementType) :
    left.common? right = right.common? left := by
  cases left <;> cases right <;> rfl

theorem ResultType.common?_comm (left right : ResultType) :
    left.common? right = right.common? left := by
  cases left with
  | loose => cases right <;> rfl
  | fixed type =>
    cases right with
    | loose => rfl
    | fixed type' => exact congrArg (Option.map fixed) (type.common?_comm type')

theorem Cells.zipWith_comm {α β γ : Type} {height : ℕ} {f : Spread → α → β → γ}
    {g : Spread → β → α → γ} (swaps : ∀ spread spread' x y, f spread x y = g spread' y x)
    (xs : Cells α height) (ys : Cells β height) : xs.zipWith f ys = ys.zipWith g xs := by
  cases xs with
  | each xs =>
    cases ys with
    | each ys =>
      refine congrArg each (Vector.ext fun row below => ?_)
      simp [swaps .neither .neither]
    | uniform y => exact congrArg (fun f => each (xs.map f)) (funext fun x => swaps _ _ x y)
  | uniform x =>
    cases ys with
    | each ys => exact congrArg (fun f => each (ys.map f)) (funext fun y => swaps _ _ x y)
    | uniform y => exact congrArg uniform (swaps .neither .neither x y)

namespace Operator

theorem perform?_multiply_comm (spread spread' : Spread) {type : ElementType} (x y : type.Value) :
    perform? .multiply spread type x y = perform? .multiply spread' type y x := by
  cases type with
  | float64 => simp [perform?, arithmetic?, double_mul_comm x]
  | float32 => exact congrArg some (single_mul_comm x y)
  | int64 => exact congrArg some (Int64.mul_comm x y)
  | int32 => exact congrArg some (Int32.mul_comm x y)
  | uint32 => exact congrArg some (UInt32.mul_comm x y)
  | boolean | text => rfl

/-- Two values have the same product in either order. -/
theorem onValues_multiply_comm {height : ℕ} (left right : Value height) :
    multiply.onValues left right = multiply.onValues right left := by
  have shared : multiply.sharedType? left.type right.type =
      multiply.sharedType? right.type left.type := left.type.common?_comm right.type
  unfold onValues
  rw [shared]
  split
  · rfl
  · rename_i type _
    have cells : (left.cellsAs type.element).zipWith
          (fun spread => liftCells (multiply.perform? spread type.element))
          (right.cellsAs type.element) =
        (right.cellsAs type.element).zipWith
          (fun spread => liftCells (multiply.perform? spread type.element))
          (left.cellsAs type.element) := by
      refine Cells.zipWith_comm (fun spread spread' x y => ?_) _ _
      cases x <;> cases y <;> simp [liftCells, perform?_multiply_comm spread spread']
    simp only [isDefined, cells, Bool.and_comm left.isScalar, reduceCtorEq, if_false]

end Operator

/-- The product of some values, from left to right; the literal `1` if there are none. -/
def Value.product {height : ℕ} : List (Value height) → Except FrameError (Value height)
  | [] => .ok (.ofLiteral 1)
  | first :: rest => rest.foldlM (Operator.onValues .multiply) first

theorem Value.product_swap {height : ℕ} (first second : Value height) (rest : List (Value height)) :
    Value.product (first :: second :: rest) = Value.product (second :: first :: rest) := by
  simp only [product, List.foldlM_cons, Operator.onValues_multiply_comm first]

namespace Expr

variable {frame : Frame}

theorem valueOn_foldl {first : Expr} {rest : List Expr} {value : Value frame.height} :
    (rest.foldl (.binary .multiply) first).valueOn frame = .ok value ↔
      ∃ head tail, first.valueOn frame = .ok head ∧
        List.Forall₂ (fun expr value => expr.valueOn frame = .ok value) rest tail ∧
        tail.foldlM (Operator.onValues .multiply) head = .ok value := by
  induction rest generalizing first with
  | nil => simp [pure, Except.pure]
  | cons next rest ih =>
    simp only [List.foldl_cons, ih, valueOn, bind_eq_ok, mapError_eq_ok,
      List.forall₂_cons_left_iff]
    constructor
    · rintro ⟨head, tail, ⟨left, first, right, second, multiplied⟩, others, made⟩
      exact ⟨left, right :: tail, first, ⟨right, tail, second, others, rfl⟩,
        bind_eq_ok.mpr ⟨head, multiplied, made⟩⟩
    · rintro ⟨left, _, first, ⟨right, tail, second, others, rfl⟩, made⟩
      obtain ⟨head, multiplied, made⟩ := bind_eq_ok.mp made
      exact ⟨head, tail, ⟨left, first, right, second, multiplied⟩, others, made⟩

theorem valueOn_product {exprs : List Expr} {value : Value frame.height} :
    (product exprs).valueOn frame = .ok value ↔
      ∃ values, List.Forall₂ (fun expr value => expr.valueOn frame = .ok value) exprs values ∧
        Value.product values = .ok value := by
  cases exprs with
  | nil => simp [product, valueOn, Value.product]
  | cons first rest =>
    rw [product, valueOn_foldl]
    constructor
    · rintro ⟨head, tail, computed, others, made⟩
      exact ⟨head :: tail, .cons computed others, made⟩
    · rintro ⟨_, computed | ⟨head, tail⟩, made⟩
      exact ⟨_, _, head, tail, made⟩

theorem withColumn_foldl (name : String) (first : Expr) (rest : List Expr) :
    (rest.foldl (.binary .multiply) first).withColumn name =
      (rest.map (withColumn name)).foldl (.binary .multiply) (first.withColumn name) := by
  induction rest generalizing first with
  | nil => rfl
  | cons next rest ih => exact ih _

theorem withColumn_product (name : String) (exprs : List Expr) :
    (product exprs).withColumn name = product (exprs.map (withColumn name)) := by
  cases exprs with
  | nil => rfl
  | cons first rest => exact withColumn_foldl name first rest

/-- The expression with a column put in the place of every column, if one is given. -/
def fill (filling : Option String) (expr : Expr) : Expr :=
  filling.elim expr fun name => expr.withColumn name

theorem fill_product (filling : Option String) (exprs : List Expr) :
    (product exprs).fill filling = product (exprs.map (fill filling)) := by
  cases filling with
  | none => exact congrArg product (List.map_id exprs).symm
  | some name => exact withColumn_product name exprs

/-- What takes the place of every column on the frame, so that the expression stands for one. -/
def IsFilledOn (frame : Frame) (expr : Expr) : Option String → Prop
  | none => expr.hasWildcard = false
  | some name => expr.hasWildcard = true ∧ frame.names = [name]

theorem instances_eq_singleton {expr sole : Expr} :
    expr.instances frame.names = [sole] ↔
      ∃ filling, expr.IsFilledOn frame filling ∧ expr.fill filling = sole := by
  by_cases wild : expr.hasWildcard = true
  · simp [instances, wild, Option.exists, IsFilledOn, fill, List.map_eq_singleton_iff]
  · simp [instances, wild, Option.exists, IsFilledOn, fill]

theorem IsFilledOn.unique {expr expr' : Expr} {filling filling' : Option String}
    (wild : expr.hasWildcard = expr'.hasWildcard) (h : expr.IsFilledOn frame filling)
    (h' : expr'.IsFilledOn frame filling') : filling = filling' := by
  cases filling with
  | none =>
    cases filling' with
    | none => rfl
    | some name' => exact absurd (h.symm.trans (wild.trans h'.1)) (by decide)
  | some name =>
    cases filling' with
    | none => exact absurd (h'.symm.trans (wild.symm.trans h.1)) (by decide)
    | some name' => exact congrArg some (List.singleton_inj.mp (h.2.symm.trans h'.2))

theorem IsFilledOn.of_hasWildcard_eq {expr expr' : Expr} {filling : Option String}
    (wild : expr.hasWildcard = expr'.hasWildcard) (h : expr.IsFilledOn frame filling) :
    expr'.IsFilledOn frame filling := by
  cases filling with
  | none => exact wild.symm.trans h
  | some name => exact ⟨wild.symm.trans h.1, h.2⟩

theorem yields_iff {expr : Expr} {column : Column frame.height} :
    expr.Yields frame column ↔ ∃ filling, expr.IsFilledOn frame filling ∧
      ∃ value, (expr.fill filling).valueOn frame = .ok value ∧ value.toColumn = column := by
  simp only [Yields, instances_eq_singleton]
  constructor
  · rintro ⟨_, value, ⟨filling, filled, rfl⟩, computed, made⟩
    exact ⟨filling, filled, value, computed, made⟩
  · rintro ⟨filling, filled, value, computed, made⟩
    exact ⟨_, value, ⟨filling, filled, rfl⟩, computed, made⟩

end Expr

/-- The value of the factor on the frame, with a column in the place of every column. -/
def Factor.HasValue (frame : Frame) (filling : Option String) (factor : Factor)
    (value : Value frame.height) : Prop :=
  ((Expr.ofArith factor.value).fill filling).valueOn frame = .ok value

namespace Term

variable {frame : Frame} {column : Column frame.height}

theorem valueOn_ofTerm {term : Term} {filling : Option String} {value : Value frame.height} :
    ((Expr.ofTerm term).fill filling).valueOn frame = .ok value ↔
      ∃ values, List.Forall₂ (Factor.HasValue frame filling) term.factors values ∧
        Value.product values = .ok value := by
  have unnamed : ((Expr.ofTerm term).fill filling).valueOn frame =
      ((Expr.product (term.factors.map fun f => Expr.ofArith f.value)).fill filling).valueOn
        frame := by
    cases filling <;> rfl
  rw [unnamed, Expr.fill_product, Expr.valueOn_product, List.map_map]
  simp only [List.forall₂_map_left_iff]
  rfl

/-- A term has the column of the product of the values that its factors have. -/
theorem yields_iff {term : Term} :
    (Expr.ofTerm term).Yields frame column ↔
      ∃ filling, (Expr.ofTerm term).IsFilledOn frame filling ∧ ∃ values value,
        List.Forall₂ (Factor.HasValue frame filling) term.factors values ∧
        Value.product values = .ok value ∧ value.toColumn = column := by
  simp only [Expr.yields_iff, valueOn_ofTerm]
  refine exists_congr fun filling => and_congr_right fun _ => ?_
  constructor
  · rintro ⟨value, ⟨values, computed, multiplied⟩, made⟩
    exact ⟨values, value, computed, multiplied, made⟩
  · rintro ⟨values, value, computed, multiplied, made⟩
    exact ⟨value, ⟨values, computed, multiplied⟩, made⟩

theorem hasWildcard_ofTerm (term : Term) :
    (Expr.ofTerm term).hasWildcard =
      term.factors.any fun f => (Expr.ofArith f.value).hasWildcard := by
  rw [Bool.eq_iff_iff, Expr.hasWildcard_iff, Expr.sources_ofTerm, List.any_eq_true]
  simp only [Expr.hasWildcard_iff, Expr.sources_ofArith, sources, List.mem_flatMap]

/-- The same factors, but the first two may have changed places. -/
inductive FrontSwap : Term → Term → Prop
  | refl (term : Term) : FrontSwap term term
  | swap (first second : Factor) (rest : List Factor) :
      FrontSwap ⟨first :: second :: rest⟩ ⟨second :: first :: rest⟩

namespace FrontSwap

variable {left right : Term}

theorem symm (h : left.FrontSwap right) : right.FrontSwap left := by
  cases h with
  | refl => exact .refl _
  | swap first second rest => exact .swap second first rest

theorem perm (h : left.FrontSwap right) : left.factors.Perm right.factors := by
  cases h with
  | refl => exact .refl _
  | swap first second rest => exact .swap second first rest

/-- The first two factors of a term may change places without a change in its column. -/
theorem yields (h : left.FrontSwap right) (shows : (Expr.ofTerm left).Yields frame column) :
    (Expr.ofTerm right).Yields frame column := by
  have wild : (Expr.ofTerm left).hasWildcard = (Expr.ofTerm right).hasWildcard := by
    rw [hasWildcard_ofTerm, hasWildcard_ofTerm, Bool.eq_iff_iff, List.any_eq_true,
      List.any_eq_true]
    simp only [h.perm.mem_iff]
  cases h with
  | refl => exact shows
  | swap first second rest =>
    obtain ⟨filling, filled, _, value, computed | ⟨head, next | ⟨next, tail⟩⟩, product, made⟩ :=
      yields_iff.mp shows
    rw [Value.product_swap] at product
    exact yields_iff.mpr ⟨filling, filled.of_hasWildcard_eq wild, _, value,
      .cons next (.cons head tail), product, made⟩

end FrontSwap

/-- Terms with the same names, in the same order from the third on, have them all in the same order
once the first two factors of one of them have changed places. -/
theorem exists_frontSwap {left right : Term} (perm : left.names.Perm right.names)
    (back : left.names.drop 2 = right.names.drop 2) :
    ∃ term : Term, term.FrontSwap right ∧ left.names = term.names := by
  obtain ⟨factors⟩ := right
  generalize left.names = names at perm back
  match factors, names with
  | [], names => exact ⟨⟨[]⟩, .refl _, List.perm_nil.mp perm⟩
  | [f], names => exact ⟨⟨[f]⟩, .refl _, List.perm_singleton.mp perm⟩
  | f :: g :: rest, [] | f :: g :: rest, [_] => simpa [Term.names] using perm.length_eq
  | f :: g :: rest, a :: b :: names =>
    obtain rfl : names = rest.map Factor.name := back
    have pair : [a, b].Perm [f.name, g.name] :=
      (List.perm_append_right_iff (rest.map Factor.name)).mp perm
    rcases List.mem_pair.mp (pair.subset List.mem_cons_self) with rfl | rfl
    · obtain rfl : b = g.name := List.singleton_inj.mp (List.perm_singleton.mp pair.cons_inv)
      exact ⟨_, .refl _, rfl⟩
    · have swapped : [g.name, b].Perm [g.name, f.name] := pair.trans (.swap _ _ _)
      obtain rfl : b = f.name := List.singleton_inj.mp (List.perm_singleton.mp swapped.cons_inv)
      exact ⟨⟨g :: f :: rest⟩, .swap g f rest, rfl⟩

end Term

end DesignMatrix
