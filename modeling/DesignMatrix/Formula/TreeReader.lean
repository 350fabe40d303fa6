import DesignMatrix.Formula.ArithReader
import DesignMatrix.Formula.Lexer
import DesignMatrix.Formula.Tree

/-!
# Reading formulas

The grammar of formulas, the loosest binding first:

    formula := [sum] '~' sum
    sum     := product (('+' | '-') product)*
    product := inter (('*' | '/') inter)*
    inter   := signed (':' signed)*
    signed  := ('-' | '+') signed | power
    power   := atom (('**' | '^') integer)?
    atom    := '(' sum ')' | '0' | '1' | name | name '(' arguments ')'

All operators group from the left. The arguments of `I` and of a transform are one arithmetic sum;
those of `poly` are a column, a degree and a flag.
-/

namespace DesignMatrix

namespace Tree

/-- The operator that joins the operands of an interaction. -/
def joinInteraction? : Token → Option (Tree → Tree → Tree)
  | .colon => some (.binary .interact)
  | _ => none

/-- The operators that join the operands of a product. -/
def joinProduct? : Token → Option (Tree → Tree → Tree)
  | .star => some (.binary .cross)
  | .slash => some (.binary .nest)
  | _ => none

/-- The operators that join the operands of a sum. -/
def joinSum? : Token → Option (Tree → Tree → Tree)
  | .plus => some (.binary .add)
  | .minus => some (.binary .remove)
  | _ => none

/-- Reads a sum, given the reader of its signed operands. -/
def readSum (signed : Reader Tree) : Reader Tree :=
  Reader.chain (Reader.chain (Reader.chain signed joinInteraction?) joinProduct?) joinSum?

/-- The truth value of a word for the `raw` flag. -/
def flag? : String → Option Bool
  | "TRUE" | "True" | "true" | "T" => some true
  | "FALSE" | "False" | "false" | "F" => some false
  | _ => none

/-- The value of a number as a degree of `poly`. -/
def degree? (value : Float) : Option Nat :=
  (natural? value).filter fun degree => 1 ≤ degree && degree ≤ maxPolyDegree

/-- Reads the column that `poly` is about, and the comma behind it. -/
def readPolyColumn : Reader String
  | ⟨.name source, _⟩ :: rest | ⟨.quoted source, _⟩ :: rest =>
    match rest with
    | ⟨.comma, _⟩ :: rest => .ok (source, rest)
    | _ => .error (.fault (.invalidPoly .noDegree))
  | _ => .error (.fault (.invalidPoly .noColumn))

/-- Skips `degree =` in front of a degree. -/
def skipDegreeKey (size : Nat) : List Placed → Except Stop (List Placed)
  | ⟨.name "degree", _⟩ :: rest => Reader.expect size .equals rest
  | tokens => .ok tokens

/-- Skips `raw =` in front of a flag. -/
def skipRawKey : List Placed → List Placed
  | ⟨.name "raw", _⟩ :: ⟨.equals, _⟩ :: rest => rest
  | tokens => tokens

/-- Reads the degree of `poly`. -/
def readDegree : Reader Nat
  | ⟨.number value _, _⟩ :: rest =>
    match degree? value with
    | some degree => .ok (degree, rest)
    | none => .error (.fault (.invalidPoly .badDegree))
  | _ => .error (.fault (.invalidPoly .badDegree))

/-- Reads the flag of `poly`, which is off when it is left out. -/
def readRaw : Reader Bool
  | ⟨.comma, _⟩ :: rest =>
    match skipRawKey rest with
    | ⟨.name word, _⟩ :: rest =>
      match flag? word with
      | some raw => .ok (raw, rest)
      | none => .error (.fault (.invalidPoly .badRaw))
    | _ => .error (.fault (.invalidPoly .badRaw))
  | tokens => .ok (false, tokens)

/-- Reads the arguments of `poly` and the closing parenthesis. -/
def readPoly (size : Nat) : Reader Tree := fun tokens => do
  let (source, rest) ← readPolyColumn tokens
  let rest ← skipDegreeKey size rest
  let (degree, rest) ← readDegree rest
  let (raw, rest) ← readRaw rest
  let rest ← Reader.expect size .rightParen rest
  .ok (.poly source degree raw, rest)

/-- Reads the arguments of a call and the closing parenthesis. -/
def readCall (size : Nat) (arith : Reader Arith) (function : String) : Reader Tree :=
  fun tokens =>
    if function = "I" then do
      let (value, rest) ← Reader.closed size arith tokens
      .ok (.factor (.ofArith value), rest)
    else if function = "poly" then readPoly size tokens
    else match Transform.named? function with
      | none => .error (.fault (.unknownFunction function))
      | some transform => do
        let (argument, rest) ← Reader.closed size arith tokens
        .ok (.factor (.ofCall transform argument), rest)

/-- Reads a sum in parentheses, `0`, `1`, a column or a call. -/
def readAtom (size : Nat) (signed : Reader Tree) (arith : Reader Arith) : Reader Tree
  | ⟨.leftParen, _⟩ :: rest => Reader.closed size (readSum signed) rest
  | ⟨.number value text, offset⟩ :: rest =>
    match natural? value with
    | some 0 => .ok (.zero, rest)
    | some 1 => .ok (.one, rest)
    | _ => .error (.fault (.malformed offset (.bareNumber text)))
  | ⟨.quoted source, _⟩ :: rest => .ok (.factor (.ofColumn source), rest)
  | ⟨.name function, _⟩ :: ⟨.leftParen, _⟩ :: rest => readCall size arith function rest
  | ⟨.name source, _⟩ :: rest => .ok (.factor (.ofColumn source), rest)
  | tokens => .error (Reader.unexpected size .term tokens)

/-- Reads the order of an interaction. -/
def readOrder (size : Nat) : Reader Nat
  | ⟨.number value text, offset⟩ :: rest =>
    match natural? value with
    | some order =>
      if order = 0 then .error (.fault (.malformed offset .orderZero))
      else if order ≤ maxOrder then .ok (order, rest)
      else .error (.fault (.malformed offset (.orderNotNatural text)))
    | none => .error (.fault (.malformed offset (.orderNotNatural text)))
  | tokens => .error (.fault (.malformed (Reader.offset size tokens) .orderNotNumber))

/-- Reads an atom and the order of its interactions, if there is one. -/
def readPower (size : Nat) (signed : Reader Tree) (arith : Reader Arith) : Reader Tree :=
  fun tokens => do
    let (base, rest) ← readAtom size signed arith tokens
    match rest with
    | ⟨.doubleStar, _⟩ :: rest | ⟨.caret, _⟩ :: rest =>
      let (order, rest) ← readOrder size rest
      .ok (.power base order, rest)
    | _ => .ok (base, rest)

/-- The tree is `0` or `1`. -/
def isConstant : Tree → Bool
  | .zero | .one => true
  | _ => false

/-- Reads a power with any number of signs in front of it; a plus leaves no trace. -/
def readSigned (size : Nat) (arith : Reader Arith) : Nat → Reader Tree
  | 0, _ => .error .exhausted
  | fuel + 1, ⟨.plus, _⟩ :: rest => readSigned size arith fuel rest
  | fuel + 1, ⟨.minus, offset⟩ :: rest => do
    let (operand, rest) ← readSigned size arith fuel rest
    if operand.isConstant then .ok (.negate operand, rest)
    else .error (.fault (.malformed offset .negatedTerm))
  | fuel + 1, tokens => readPower size (readSigned size arith fuel) arith tokens

end Tree

namespace Formula

/-- Reads a side of a formula, with an allowance for nested calls. -/
def readSide (size fuel : Nat) : Reader Tree :=
  Tree.readSum (Tree.readSigned size (Arith.readSum (Arith.readSigned size fuel)) fuel)

/-- Reads the side left of the tilde, which may be absent, and the tilde. -/
def readResponse (size fuel : Nat) : Reader (Option Tree)
  | ⟨.tilde, _⟩ :: rest => .ok (none, rest)
  | tokens => do
    let (response, rest) ← readSide size fuel tokens
    let rest ← Reader.expect size .tilde rest
    .ok (some response, rest)

/-- Reads a formula that fills the whole token list, with an allowance for nested calls. -/
def ofTokens (size fuel : Nat) (tokens : List Placed) : Except Stop Formula := do
  let (response, rest) ← readResponse size fuel tokens
  let (predictors, rest) ← readSide size fuel rest
  if rest.isEmpty then .ok ⟨response, predictors⟩
  else .error (Reader.unexpected size .endOfFormula rest)

/-- The allowance that suffices for a token list: every nested call takes a token first. -/
def allowance (tokens : List Placed) : Nat := tokens.length + 1

/-- The error of a reader that stops; one that is exhausted is at a loss for a term. -/
def errorOf (size : Nat) : Stop → FormulaError
  | .fault error => error
  | .exhausted => .malformed size (.unexpected .term none)

/-- Reads a formula. -/
def parse (text : String) : Except FormulaError Formula := do
  let tokens ← Token.list text
  (ofTokens text.utf8ByteSize (allowance tokens) tokens).mapError (errorOf text.utf8ByteSize)

end Formula

end DesignMatrix
