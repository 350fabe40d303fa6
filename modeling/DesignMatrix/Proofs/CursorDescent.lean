import DesignMatrix.Proofs.FormulaReading
import DesignMatrix.Proofs.TokenLayout

/-!
# Descent with a cursor

The grammar can also be read by procedures that share a list of the tokens, with the end of the text
as its last entry, and a cursor into this list. They look at entries next to the cursor, move it,
and call each other. A program is the text of a procedure; every look of it is checked, and its
calls can be seen. At the last entry the cursor does not move.
-/

namespace DesignMatrix.Descent

/-- The procedures that read terms. -/
inductive TermProcedure where
  | chain (chain : Tree.Chain)
  /-- What follows the first operand of a chain, round by round. -/
  | chainFrom (chain : Tree.Chain) (left : Tree)
  | signed
  | power
  | atom
  /-- The arguments of a function and the closing parenthesis. -/
  | call (function : String)

/-- The procedures that read arithmetic. -/
inductive ArithProcedure where
  | chain (chain : Arith.Chain)
  /-- What follows the first operand of a chain, round by round. -/
  | chainFrom (chain : Arith.Chain) (left : Arith)
  | signed
  | power
  | atom

/-- The procedures that call each other. -/
inductive Procedure where
  | term (procedure : TermProcedure)
  | arith (procedure : ArithProcedure)

/-- What a procedure reads. -/
abbrev Procedure.Result : Procedure → Type
  | .term _ => Tree
  | .arith _ => Arith

/-- A place that is looked at: that of the cursor or one beside it. -/
inductive Place where
  | here | ahead | behind

/-- The index of a place. Nothing is ahead of the last entry and nothing behind the first. -/
def Place.index (last cursor : ℕ) : Place → ℕ
  | .here => cursor
  | .ahead => min (cursor + 1) last
  | .behind => cursor - 1

/-- The text of a procedure. -/
inductive Program (α : Type) where
  | ret (value : α)
  | fail (error : FormulaError)
  | look (place : Place) (next : Sight → Program α)
  /-- Takes the entry at the cursor and moves on, unless it is the last one. -/
  | advance (next : Sight → Program α)
  | stepBack (next : Program α)
  | call (procedure : Procedure) (next : procedure.Result → Program α)

namespace Program

variable {α β : Type}

/-- The program that goes on with the value of another one. -/
def bind (f : α → Program β) : Program α → Program β
  | .ret value => f value
  | .fail error => .fail error
  | .look place next => .look place fun seen => (next seen).bind f
  | .advance next => .advance fun seen => (next seen).bind f
  | .stepBack next => .stepBack (next.bind f)
  | .call procedure next => .call procedure fun value => (next value).bind f

instance : Monad Program where
  pure := .ret
  bind program f := program.bind f

theorem bind_assoc {γ : Type} (program : Program α) (f : α → Program β) (g : β → Program γ) :
    program >>= f >>= g = program >>= fun value => f value >>= g := by
  change (program.bind f).bind g = program.bind fun value => (f value).bind g
  induction program with
  | ret value => rfl
  | fail error => rfl
  | look place next ih => simp only [bind, ih]
  | advance next ih => simp only [bind, ih]
  | stepBack next ih => simp only [bind, ih]
  | call procedure next ih => simp only [bind, ih]

/-- What stands at the cursor. -/
def here : Program Sight := .look .here .ret

/-- Takes what stands at the cursor. -/
def take : Program Sight := .advance .ret

/-- Calls a procedure. -/
def perform (procedure : Procedure) : Program procedure.Result := .call procedure .ret

/-- Fails at the cursor, where something else was wanted. -/
def unexpected (wanted : Wanted) : Program α := do
  let seen ← here
  .fail (.malformed seen.offset (.unexpected wanted seen.token?))

/-- Takes the token at the cursor if it is the one given. -/
def eat (token : Token) : Program Bool := do
  let seen ← here
  if seen.token? = some token then
    let _ ← take
    return true
  else return false

/-- Takes the token at the cursor, which has to be the one given. -/
def expect (token : Token) : Program Unit := do
  if ← eat token then return () else unexpected (.token token)

/-- A program and the closing parenthesis behind it. -/
def closed (program : Program α) : Program α := do
  let value ← program
  expect .rightParen
  return value

end Program

/-- How a program ends, and where it leaves the cursor. -/
inductive Outcome (α : Type) where
  | done (value : α) (cursor : ℕ)
  | failed (error : FormulaError) (cursor : ℕ)
  /-- At a look the cursor, or the place that is looked at, was not in the list. -/
  | outOfBounds
  /-- It has called a procedure without an allowance for it. -/
  | exhausted

section Running

variable {α : Type} (sights : List Sight)
  (perform : (procedure : Procedure) → ℕ → Outcome procedure.Result)

/-- Runs a program from a place of the cursor, given how procedures are performed. -/
def exec : Program α → ℕ → Outcome α
  | .ret value, cursor => .done value cursor
  | .fail error, cursor => .failed error cursor
  | .look place next, cursor =>
    match sights[cursor]?, sights[place.index (sights.length - 1) cursor]? with
    | some _, some seen => exec (next seen) cursor
    | _, _ => .outOfBounds
  | .advance next, cursor =>
    match sights[cursor]? with
    | none => .outOfBounds
    | some seen => exec (next seen) (min (cursor + 1) (sights.length - 1))
  | .stepBack next, cursor => exec next (cursor - 1)
  | .call procedure next, cursor =>
    match perform procedure cursor with
    | .done value cursor => exec (next value) cursor
    | .failed error cursor => .failed error cursor
    | .outOfBounds => .outOfBounds
    | .exhausted => .exhausted

/-- The program itself calls the procedure with the cursor there. -/
inductive MakesCall (callee : Procedure) (place : ℕ) : Program α → ℕ → Prop
  | here {next : callee.Result → Program α} : MakesCall callee place (.call callee next) place
  | look {position : Place} {next : Sight → Program α} {cursor : ℕ} {seen : Sight}
      (found : sights[position.index (sights.length - 1) cursor]? = some seen)
      (h : MakesCall callee place (next seen) cursor) :
      MakesCall callee place (.look position next) cursor
  | advance {next : Sight → Program α} {cursor : ℕ} {seen : Sight}
      (found : sights[cursor]? = some seen)
      (h : MakesCall callee place (next seen) (min (cursor + 1) (sights.length - 1))) :
      MakesCall callee place (.advance next) cursor
  | stepBack {next : Program α} {cursor : ℕ} (h : MakesCall callee place next (cursor - 1)) :
      MakesCall callee place (.stepBack next) cursor
  | behind {procedure : Procedure} {next : procedure.Result → Program α} {cursor cursor' : ℕ}
      {value : procedure.Result} (done : perform procedure cursor = .done value cursor')
      (h : MakesCall callee place (next value) cursor') :
      MakesCall callee place (.call procedure next) cursor

end Running

open Program

/-- What follows the first operand of a chain: nothing, or an operator, an operand and more. -/
def Program.round {α : Type} (join? : Token → Option (α → α → α)) (operand : Program α)
    (more : α → Program α) (left : α) : Program α := do
  let seen ← here
  match seen.token?.bind join? with
  | none => return left
  | some join =>
    let _ ← take
    let right ← operand
    more (join left right)

/-- The procedure of the operands of a chain. -/
def TermProcedure.operand : Tree.Chain → TermProcedure
  | .sum => .chain .product
  | .product => .chain .interaction
  | .interaction => .signed

/-- The procedure of the operands of a chain. -/
def ArithProcedure.operand : Arith.Chain → ArithProcedure
  | .sum => .chain .product
  | .product => .signed

namespace ArithProcedure

/-- The signs in front of a power, each for another call, and the power. -/
def signedBody : Program Arith := do
  if ← eat .plus then perform (.arith .signed)
  else if ← eat .minus then
    let operand ← perform (.arith .signed)
    return .negate operand
  else perform (.arith .power)

def powerBody : Program Arith := do
  let base ← perform (.arith .atom)
  let seen ← here
  match seen.token? with
  | some .doubleStar | some .caret =>
    let _ ← take
    let exponent ← perform (.arith .signed)
    return .binary .power base exponent
  | _ => return base

def atomBody : Program Arith := do
  let seen ← take
  match seen.token? with
  | some (.number value text) => return .number value text
  | some (.quoted source) => return .column source
  | some (.name source) =>
    if ← eat .leftParen then
      match Transform.named? source with
      | none => .fail (.unknownFunction source)
      | some transform =>
        let argument ← closed (perform (.arith (.chain .sum)))
        return .call transform argument
    else return .column source
  | some .leftParen => closed (perform (.arith (.chain .sum)))
  | found => .stepBack (.fail (.malformed seen.offset (.unexpected .value found)))

/-- The text of a procedure. -/
def body : ArithProcedure → Program Arith
  | .chain kind => do
    let left ← perform (.arith (operand kind))
    perform (.arith (.chainFrom kind left))
  | .chainFrom kind left =>
    round kind.join? (perform (.arith (operand kind)))
      (fun left => perform (.arith (.chainFrom kind left))) left
  | .signed => signedBody
  | .power => powerBody
  | .atom => atomBody

end ArithProcedure

namespace TermProcedure

/-- The signs in front of a power, each for another call, and the power. -/
def signedBody : Program Tree := do
  let sign ← here
  if ← eat .plus then perform (.term .signed)
  else if ← eat .minus then
    let operand ← perform (.term .signed)
    if operand.isConstant then return .negate operand
    else .fail (.malformed sign.offset .negatedTerm)
  else perform (.term .power)

/-- A natural number that may be the order of an interaction, or zero. -/
def integer : Program ℕ := do
  let start ← here
  let seen ← take
  match seen.token? with
  | some (.number value text) =>
    match natural? value with
    | some order =>
      if order ≤ maxOrder then return order
      else .fail (.malformed start.offset (.orderNotNatural text))
    | none => .fail (.malformed start.offset (.orderNotNatural text))
  | _ => .fail (.malformed start.offset .orderNotNumber)

/-- The order of an interaction. If it is zero, the fault is at the token behind the cursor. -/
def order : Program ℕ := do
  let order ← integer
  if order = 0 then
    let last ← .look .behind .ret
    .fail (.malformed last.offset .orderZero)
  else return order

def powerBody : Program Tree := do
  let base ← perform (.term .atom)
  let seen ← here
  match seen.token? with
  | some .doubleStar | some .caret =>
    let _ ← take
    let order ← order
    return .power base order
  | _ => return base

def atomBody : Program Tree := do
  let seen ← take
  match seen.token? with
  | some .leftParen => closed (perform (.term (.chain .sum)))
  | some (.number value text) =>
    match natural? value with
    | some 0 => return .zero
    | some 1 => return .one
    | _ => .fail (.malformed seen.offset (.bareNumber text))
  | some (.quoted source) => return .factor (.ofColumn source)
  | some (.name source) =>
    if ← eat .leftParen then perform (.term (.call source))
    else return .factor (.ofColumn source)
  | found => .stepBack (.fail (.malformed seen.offset (.unexpected .term found)))

/-- The column that `poly` is about, and the comma behind it. -/
def polyColumn : Program String := do
  let seen ← take
  match seen.token? with
  | some (.name source) | some (.quoted source) =>
    if ← eat .comma then return source else .fail (.invalidPoly .noDegree)
  | _ => .fail (.invalidPoly .noColumn)

/-- Skips `degree =` in front of a degree. -/
def degreeKey : Program Unit := do
  if ← eat (.name "degree") then expect .equals else return ()

/-- The degree of `poly`. -/
def degree : Program ℕ := do
  let seen ← take
  match seen.token? with
  | some (.number value _) =>
    match Tree.degree? value with
    | some degree => return degree
    | none => .fail (.invalidPoly .badDegree)
  | _ => .fail (.invalidPoly .badDegree)

/-- Skips `raw =` in front of a flag, if both stand there. -/
def rawKey : Program Unit := do
  let seen ← here
  if seen.token? = some (.name "raw") then
    let second ← .look .ahead .ret
    if second.token? = some .equals then
      let _ ← take
      let _ ← take
      return ()
    else return ()
  else return ()

/-- The flag of `poly`, which is off when it is left out. -/
def raw : Program Bool := do
  if ← eat .comma then
    rawKey
    let seen ← take
    match seen.token? with
    | some (.name word) =>
      match Tree.flag? word with
      | some raw => return raw
      | none => .fail (.invalidPoly .badRaw)
    | _ => .fail (.invalidPoly .badRaw)
  else return false

def polyBody : Program Tree := do
  let source ← polyColumn
  degreeKey
  let degree ← degree
  let raw ← raw
  expect .rightParen
  return .poly source degree raw

def callBody (function : String) : Program Tree :=
  if function = "I" then do
    let value ← closed (perform (.arith (.chain .sum)))
    return .factor (.ofArith value)
  else if function = "poly" then polyBody
  else match Transform.named? function with
    | none => .fail (.unknownFunction function)
    | some transform => do
      let argument ← closed (perform (.arith (.chain .sum)))
      return .factor (.ofCall transform argument)

/-- The text of a procedure. -/
def body : TermProcedure → Program Tree
  | .chain kind => do
    let left ← perform (.term (operand kind))
    perform (.term (.chainFrom kind left))
  | .chainFrom kind left =>
    round kind.join? (perform (.term (operand kind)))
      (fun left => perform (.term (.chainFrom kind left))) left
  | .signed => signedBody
  | .power => powerBody
  | .atom => atomBody
  | .call function => callBody function

end TermProcedure

/-- The text of a procedure. -/
def Procedure.body : (procedure : Procedure) → Program procedure.Result
  | .term procedure => procedure.body
  | .arith procedure => procedure.body

/-- The side left of the tilde, which may be absent, and the tilde. -/
def response : Program (Option Tree) := do
  let seen ← here
  if seen.token? = some .tilde then
    expect .tilde
    return none
  else
    let side ← perform (.term (.chain .sum))
    expect .tilde
    return some side

/-- A formula with nothing behind it. -/
def formula : Program Formula := do
  let response ← response
  let predictors ← perform (.term (.chain .sum))
  let seen ← here
  if seen.token? = none then return ⟨response, predictors⟩
  else unexpected .endOfFormula

/-- Performs a procedure from a place of the cursor, with an allowance for nested calls. -/
def run (sights : List Sight) : ℕ → (procedure : Procedure) → ℕ → Outcome procedure.Result
  | 0, _, _ => .exhausted
  | fuel + 1, procedure, cursor => exec sights (run sights fuel) procedure.body cursor

/-- Reads a formula from the first entry on. -/
def runFormula (sights : List Sight) (fuel : ℕ) : Outcome Formula :=
  exec sights (run sights fuel) formula 0

/-- A procedure that is performed at a place calls another one at a place. -/
def Calls (sights : List Sight) (caller callee : Procedure × ℕ) : Prop :=
  ∃ fuel, MakesCall sights (run sights fuel) callee.1 callee.2 caller.1.body caller.2

end DesignMatrix.Descent
