import DesignMatrix.Formula.Error

/-!
# Readers of token lists

A reader takes a value off the front of a token list and hands back the tokens behind it. Readers
call each other to any depth; each call of a nested reader spends one unit of a given allowance, and
a reader that has none left stops as `exhausted`.
-/

namespace DesignMatrix

/-- Why a reader stops without a value. -/
inductive Stop where
  | fault (error : FormulaError)
  | exhausted
  deriving DecidableEq, Repr

/-- Takes a value off the front of a token list. -/
abbrev Reader (α : Type) := List Placed → Except Stop (α × List Placed)

namespace Reader

variable {α : Type}

/-- The offset of the first token, or the size of the whole formula if none is left. -/
def offset (size : Nat) : List Placed → Nat
  | [] => size
  | head :: _ => head.offset

/-- The stop at a first token other than what was wanted. -/
def unexpected (size : Nat) (wanted : Wanted) (tokens : List Placed) : Stop :=
  .fault (.malformed (offset size tokens) (.unexpected wanted (tokens.head?.map Placed.token)))

/-- Takes one token off the front, which has to be the one given. -/
def expect (size : Nat) (lexeme : Token) : List Placed → Except Stop (List Placed)
  | [] => .error (unexpected size (.token lexeme) [])
  | head :: rest =>
    if head.token = lexeme then .ok rest
    else .error (unexpected size (.token lexeme) (head :: rest))

/-- A value followed by a closing parenthesis. -/
def closed (size : Nat) (inner : Reader α) : Reader α := fun tokens => do
  let (value, rest) ← inner tokens
  let rest ← expect size .rightParen rest
  .ok (value, rest)

/-- Goes on from a left operand as long as operators follow, grouping from the left. -/
def chainFrom (operand : Reader α) (join? : Token → Option (α → α → α)) :
    Nat → α → Reader α
  | _, left, [] => .ok (left, [])
  | fuel, left, head :: rest =>
    match join? head.token, fuel with
    | none, _ => .ok (left, head :: rest)
    | some _, 0 => .error .exhausted
    | some join, fuel + 1 => do
      let (right, rest) ← operand rest
      chainFrom operand join? fuel (join left right) rest

/-- One operand, or several with operators between them, grouped from the left. -/
def chain (operand : Reader α) (join? : Token → Option (α → α → α)) : Reader α :=
  fun tokens => do
    let (left, rest) ← operand tokens
    chainFrom operand join? rest.length left rest

end Reader

end DesignMatrix
