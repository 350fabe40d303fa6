import DesignMatrix.Formula.Arith

/-!
# Terms

A term is a product of named factors. The name of a factor decides which factor it is: a product
holds each name once, and two products are the same term when they have the same names, in
whichever order. The empty product is the intercept.
-/

namespace DesignMatrix

/-- A named numeric expression. -/
structure Factor where
  name : String
  value : Arith
  deriving BEq, Repr

namespace Factor

/-- The factor that reads one column. -/
def ofColumn (name : String) : Factor := ⟨name, .column name⟩

/-- The factor written `I(...)`. -/
def ofArith (value : Arith) : Factor := ⟨"I(" ++ value.text ++ ")", value⟩

/-- The factor written as a call of a transform. -/
def ofCall (transform : Transform) (argument : Arith) : Factor :=
  ⟨(Arith.call transform argument).text, .call transform argument⟩

end Factor

/-- A product of factors, in the order in which they first appeared. -/
structure Term where
  factors : List Factor
  deriving BEq, Repr

namespace Term

/-- The product of one factor. -/
def single (factor : Factor) : Term := ⟨[factor]⟩

/-- The product of no factor. -/
def empty : Term := ⟨[]⟩

/-- The number of factors. -/
def degree (term : Term) : Nat := term.factors.length

/-- The names of the factors. -/
def names (term : Term) : List String := term.factors.map Factor.name

/-- A factor with this name is among the factors. -/
def hasName (factors : List Factor) (name : String) : Bool :=
  factors.any fun factor => factor.name == name

/-- The factors with one more at the end, unless its name is there already. -/
def insertFactor (factors : List Factor) (factor : Factor) : List Factor :=
  if hasName factors factor.name then factors else factors ++ [factor]

/-- The product of two terms: the factors of both, each name once. -/
def interact (left right : Term) : Term := ⟨right.factors.foldl insertFactor left.factors⟩

/-- As many factors, and every name of the one among those of the other. -/
def sameAs (left right : Term) : Bool :=
  left.factors.length == right.factors.length &&
    left.factors.all fun factor => hasName right.factors factor.name

/-- The name of a term: those of its factors with colons between them, or `1`. -/
def name (term : Term) : String :=
  if term.factors.isEmpty then "1" else String.intercalate ":" term.names

end Term

end DesignMatrix
