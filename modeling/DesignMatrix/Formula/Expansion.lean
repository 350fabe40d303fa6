import DesignMatrix.Formula.Tree

/-!
# From trees to terms

One side of a formula stands for a list of terms, each of them once, and for an effect on the
intercept. Terms come in the order in which the tree mentions them.
-/

namespace DesignMatrix

/-- What part of a formula says about the intercept. -/
inductive InterceptEffect where
  | unsaid
  | present
  | absent
  deriving DecidableEq, Repr

namespace InterceptEffect

/-- Of two parts the later decides, unless it says nothing. -/
def followedBy (first : InterceptEffect) : InterceptEffect → InterceptEffect
  | .unsaid => first
  | later => later

end InterceptEffect

/-- The terms of part of a formula and its effect on the intercept. -/
structure Expansion where
  effect : InterceptEffect
  terms : List Term
  deriving BEq, Repr

namespace Expansion

/-- The term is among the terms, in any order of its factors. -/
def contains (terms : List Term) (term : Term) : Bool := terms.any fun other => other.sameAs term

/-- The terms with one more at the end, unless it is there already. -/
def insertTerm (terms : List Term) (term : Term) : List Term :=
  if contains terms term then terms else terms ++ [term]

/-- The terms of two lists, each once. -/
def union (left right : List Term) : List Term := right.foldl insertTerm left

/-- The products of a term of the left list and one of the right list, each once. -/
def products (left right : List Term) : List Term :=
  union [] (left.flatMap fun l => right.map fun r => l.interact r)

/-- The terms of the left list that are not in the right list. -/
def without (left right : List Term) : List Term := left.filter fun term => !contains right term

/-- The product of all terms of a list. -/
def productOf (terms : List Term) : Term := terms.foldl Term.interact .empty

/--
Adds the products with the base terms for a number of rounds. A round that adds nothing is the last.
-/
def growBy (base : List Term) : Nat → List Term → List Term
  | 0, terms => terms
  | rounds + 1, terms =>
    let grown := union terms (products terms base)
    if grown.length = terms.length then grown else growBy base rounds grown

/--
The products of at most `order` base terms. No product has more distinct terms than the base.
-/
def powerOf (base : List Term) (order : Nat) : List Term :=
  growBy base (min order base.length - 1) base

/-- The factor of a raw power of a column. The first power is the column itself. -/
def rawPower (source : String) (order : Nat) : Factor :=
  if order = 1 then .ofColumn source
  else ⟨source ++ "_" ++ toString order,
    .binary .power (.column source) (.number (Float.ofNat order) (toString order))⟩

/-- The factor of one column of an orthogonal basis. -/
def basisColumn (source : String) (degree order : Nat) : Factor :=
  let value := Arith.basis source degree order
  ⟨value.text, value⟩

/-- The terms of `poly`, one for each order up to the degree. -/
def polyTerms (source : String) (degree : Nat) (raw : Bool) : List Term :=
  (List.range' 1 degree).map fun order =>
    .single (if raw then rawPower source order else basisColumn source degree order)

/-- The expansion of `a + b`. -/
def add (left right : Expansion) : Expansion :=
  ⟨left.effect.followedBy right.effect, union left.terms right.terms⟩

/--
The expansion of `a - b`. Removing an intercept leaves none, and removing a bare `0` brings it back;
what else is removed has no effect on it.
-/
def remove (left right : Expansion) (bareZero : Bool) : Expansion :=
  let effect := if bareZero then .present
    else if right.effect = .present then .absent else left.effect
  ⟨effect, without left.terms right.terms⟩

/-- The expansion of `a:b`. -/
def interact (left right : Expansion) : Expansion := ⟨.unsaid, products left.terms right.terms⟩

/-- The expansion of `a * b`. -/
def cross (left right : Expansion) : Expansion :=
  ⟨.unsaid, union (union left.terms right.terms) (products left.terms right.terms)⟩

/-- The expansion of `a / b`. -/
def nest (left right : Expansion) : Expansion :=
  ⟨.unsaid, union left.terms (products [productOf left.terms] right.terms)⟩

/-- The expansion of `a ** order`. -/
def power (base : Expansion) (order : Nat) : Expansion := ⟨.unsaid, powerOf base.terms order⟩

end Expansion

namespace Tree

/-- The tree is a bare `0`. -/
def isZero : Tree → Bool
  | .zero => true
  | _ => false

/-- The terms that a tree stands for and its effect on the intercept. -/
def expand : Tree → Expansion
  | .zero => ⟨.absent, []⟩
  | .one => ⟨.present, []⟩
  | .factor atom => ⟨.unsaid, [.single atom]⟩
  | .poly source degree raw => ⟨.unsaid, Expansion.polyTerms source degree raw⟩
  | .negate operand => ⟨if operand.isZero then .present else .absent, []⟩
  | .binary .add lhs rhs => lhs.expand.add rhs.expand
  | .binary .remove lhs rhs => lhs.expand.remove rhs.expand rhs.isZero
  | .binary .interact lhs rhs => lhs.expand.interact rhs.expand
  | .binary .cross lhs rhs => lhs.expand.cross rhs.expand
  | .binary .nest lhs rhs => lhs.expand.nest rhs.expand
  | .power base order => base.expand.power order

end Tree

end DesignMatrix
