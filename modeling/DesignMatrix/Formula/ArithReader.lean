import DesignMatrix.Formula.Arith
import DesignMatrix.Formula.Reader

/-!
# Reading arithmetic

The grammar of arithmetic, the loosest binding first:

    sum    := product (('+' | '-') product)*
    product := signed (('*' | '/') signed)*
    signed := ('-' | '+') signed | power
    power  := atom (('**' | '^') signed)?
    atom   := number | name | '(' sum ')' | transform '(' sum ')'

Sums and products group from the left, powers from the right.
-/

namespace DesignMatrix

namespace Arith

/-- The operators that join the operands of a product. -/
def joinProduct? : Token → Option (Arith → Arith → Arith)
  | .star => some (.binary .multiply)
  | .slash => some (.binary .divide)
  | _ => none

/-- The operators that join the operands of a sum. -/
def joinSum? : Token → Option (Arith → Arith → Arith)
  | .plus => some (.binary .add)
  | .minus => some (.binary .subtract)
  | _ => none

/-- Reads a sum, given the reader of its signed operands. -/
def readSum (signed : Reader Arith) : Reader Arith :=
  Reader.chain (Reader.chain signed joinProduct?) joinSum?

/-- Reads a number, a column, a sum in parentheses or the call of a transform. -/
def readAtom (size : Nat) (signed : Reader Arith) : Reader Arith
  | ⟨.number value text, _⟩ :: rest => .ok (.number value text, rest)
  | ⟨.quoted source, _⟩ :: rest => .ok (.column source, rest)
  | ⟨.name function, _⟩ :: ⟨.leftParen, _⟩ :: rest =>
    match Transform.named? function with
    | none => .error (.fault (.unknownFunction function))
    | some transform => do
      let (argument, rest) ← Reader.closed size (readSum signed) rest
      .ok (.call transform argument, rest)
  | ⟨.name source, _⟩ :: rest => .ok (.column source, rest)
  | ⟨.leftParen, _⟩ :: rest => Reader.closed size (readSum signed) rest
  | tokens => .error (Reader.unexpected size .value tokens)

/-- Reads an atom and the power it is raised to, if there is one. -/
def readPower (size : Nat) (signed : Reader Arith) : Reader Arith := fun tokens => do
  let (base, rest) ← readAtom size signed tokens
  match rest with
  | ⟨.doubleStar, _⟩ :: rest | ⟨.caret, _⟩ :: rest =>
    let (exponent, rest) ← signed rest
    .ok (.binary .power base exponent, rest)
  | _ => .ok (base, rest)

/-- Reads a power with any number of signs in front of it; a plus leaves no trace. -/
def readSigned (size : Nat) : Nat → Reader Arith
  | 0, _ => .error .exhausted
  | fuel + 1, ⟨.plus, _⟩ :: rest => readSigned size fuel rest
  | fuel + 1, ⟨.minus, _⟩ :: rest => do
    let (operand, rest) ← readSigned size fuel rest
    .ok (.negate operand, rest)
  | fuel + 1, tokens => readPower size (readSigned size fuel) tokens

end Arith

end DesignMatrix
