import DesignMatrix.Proofs.ArithGrammar
import DesignMatrix.Proofs.Lexing

/-!
# The text of an arithmetic expression

The text that names an expression is read as the tokens of a phrase whose value is the expression,
as long as its columns have names that need no quotes. Two such expressions with one text are equal.
-/

namespace DesignMatrix

namespace Token

/-- What stands behind a text that ends with its last token. -/
def Ends (rest : List Char) : Prop := ∀ c ∈ rest.head?, c = ' ' ∨ c = ')' ∨ c = ':'

/-- The text is read as these tokens wherever it ends. -/
def WrittenAs (written : List Token) (text : List Char) : Prop :=
  ∀ ⦃rest : List Char⦄ ⦃tokens : List Token⦄, Ends rest → Lexes rest tokens →
    Lexes (text ++ rest) (written ++ tokens)

theorem ends_nil : Ends [] := by simp [Ends]

theorem ends_blank (rest : List Char) : Ends (' ' :: rest) := by simp [Ends]

theorem ends_rightParen (rest : List Char) : Ends (')' :: rest) := by simp [Ends]

theorem ends_colon (rest : List Char) : Ends (':' :: rest) := by simp [Ends]

theorem WrittenAs.nil : WrittenAs [] [] := fun _ _ _ lexes => lexes

theorem Ends.append {text rest : List Char} (h : Ends text) (ends : Ends rest) :
    Ends (text ++ rest) := by
  cases text with
  | nil => exact ends
  | cons c text => exact h

theorem WrittenAs.append {written more : List Token} {text behind : List Char}
    (h : WrittenAs written text) (h' : WrittenAs more behind) (ends : Ends behind) :
    WrittenAs (written ++ more) (text ++ behind) := by
  intro rest tokens endsRest lexes
  have front := h (ends.append endsRest) (h' endsRest lexes)
  rwa [List.append_assoc, List.append_assoc]

/-- A character that is a token for itself. -/
def IsSymbol (c : Char) (token : Token) : Prop :=
  isNameStart c = false ∧ isNumberPart c = false ∧ c ≠ backQuote ∧ Text.isBlank c = false ∧
    ofSymbol? c = some token

theorem Lexes.symbol {c : Char} {token : Token} {rest : List Char} {tokens : List Token}
    (isSymbol : IsSymbol c token) (single : c = '*' → rest.head? ≠ some '*')
    (h : Lexes rest tokens) : Lexes (c :: rest) (token :: tokens) := by
  obtain ⟨notStart, notPart, notQuote, notBlank, symbol⟩ := isSymbol
  refine .token notBlank ?_ h
  simp only [first, notStart, notPart, notQuote, if_false, Bool.false_eq_true]
  split
  · simp at single
  · simp [symbol]

theorem Lexes.doubleStar {rest : List Char} {tokens : List Token} (h : Lexes rest tokens) :
    Lexes ('*' :: '*' :: rest) (.doubleStar :: tokens) := by
  have notStart : isNameStart '*' = false := by decide +kernel
  have notPart : isNumberPart '*' = false := by decide
  have notQuote : '*' ≠ backQuote := by decide
  refine .token (by decide) ?_ h
  simp [first, notStart, notPart, notQuote]

theorem isSymbol_leftParen : IsSymbol '(' .leftParen := by
  exact ⟨by decide +kernel, by decide, by decide, by decide, rfl⟩

theorem isSymbol_rightParen : IsSymbol ')' .rightParen := by
  exact ⟨by decide +kernel, by decide, by decide, by decide, rfl⟩

theorem isSymbol_minus : IsSymbol '-' .minus := by
  exact ⟨by decide +kernel, by decide, by decide, by decide, rfl⟩

theorem writtenAs_name {cs : List Char} (isName : IsName cs) :
    WrittenAs [.name (String.ofList cs)] cs := by
  intro rest tokens ends lexes
  refine lexes.name isName fun c first => ?_
  rcases ends c first with rfl | rfl | rfl <;> decide +kernel

theorem writtenAs_numeral {value : Float} {cs : List Char} (isNumeral : IsNumeral value cs) :
    WrittenAs [.number value (String.ofList cs)] cs := by
  intro rest tokens ends lexes
  refine lexes.numeral isNumeral fun c first => ?_
  rcases ends c first with rfl | rfl | rfl <;> decide

theorem WrittenAs.parenthesized {written : List Token} {text : List Char}
    (h : WrittenAs written text) :
    WrittenAs (.leftParen :: (written ++ [.rightParen])) ('(' :: (text ++ [')'])) := by
  intro rest tokens _ lexes
  have close : Lexes (')' :: rest) (.rightParen :: tokens) :=
    lexes.symbol isSymbol_rightParen (by simp)
  have inner := h (ends_rightParen rest) close
  simpa using inner.symbol isSymbol_leftParen (by simp)

end Token

namespace Operator

def token : Operator → Token
  | .add => .plus
  | .subtract => .minus
  | .multiply => .star
  | .divide => .slash
  | .power => .doubleStar

end Operator

namespace Arith

open Token (IsName IsNumeral IsSymbol Lexes WrittenAs)

/-- Numbers are as the lexer reads them, and there is no basis of polynomials. -/
def Lexed : Arith → Prop
  | .column _ => True
  | .number value text => IsNumeral value text.toList
  | .negate operand => operand.Lexed
  | .binary _ lhs rhs => lhs.Lexed ∧ rhs.Lexed
  | .call _ argument => argument.Lexed
  | .basis _ _ _ => False

/-- Every column has a name that needs no quotes. -/
def Unquoted : Arith → Prop
  | .column name => IsName name.toList
  | .number _ _ => True
  | .negate operand => operand.Unquoted
  | .binary _ lhs rhs => lhs.Unquoted ∧ rhs.Unquoted
  | .call _ argument => argument.Unquoted
  | .basis source _ _ => IsName source.toList

/-- The tokens, in parentheses if asked for. -/
def encloseTokens (parentheses : Bool) (tokens : List Token) : List Token :=
  if parentheses then .leftParen :: (tokens ++ [.rightParen]) else tokens

/-- The tokens of the text of an expression without a basis. -/
def tokens : Arith → List Token
  | .column name => [.name name]
  | .number value text => [.number value text]
  | .negate operand => .minus :: encloseTokens (operand.precedence < 3) operand.tokens
  | .binary operator lhs rhs =>
    encloseTokens (enclosesLeft operator lhs) lhs.tokens ++
      operator.token :: encloseTokens (enclosesRight operator rhs) rhs.tokens
  | .call transform argument =>
    .name transform.name :: .leftParen :: (argument.tokens ++ [.rightParen])
  | .basis _ _ _ => []

section Reading

theorem writtenAs_enclose (parentheses : Bool) {written : List Token} {text : String}
    (h : WrittenAs written text.toList) :
    WrittenAs (encloseTokens parentheses written) (enclose parentheses text).toList := by
  cases parentheses with
  | false => exact h
  | true =>
    have enclosed := h.parenthesized
    simpa [enclose, encloseTokens] using enclosed

theorem lexes_operator (operator : Operator) {rest : List Char} {tokens : List Token}
    (h : Lexes rest tokens) :
    Lexes (' ' :: (operator.symbol.toList ++ ' ' :: rest)) (operator.token :: tokens) := by
  have spaced : Lexes (' ' :: rest) tokens := .blank (by decide) h
  refine .blank (by decide) ?_
  have symbol {c : Char} {token : Token} (isSymbol : IsSymbol c token) :
      Lexes (c :: ' ' :: rest) (token :: tokens) := spaced.symbol isSymbol (by simp)
  cases operator with
  | add => exact symbol ⟨by decide +kernel, by decide, by decide, by decide, rfl⟩
  | subtract => exact symbol Token.isSymbol_minus
  | multiply => exact symbol ⟨by decide +kernel, by decide, by decide, by decide, rfl⟩
  | divide => exact symbol ⟨by decide +kernel, by decide, by decide, by decide, rfl⟩
  | power => exact spaced.doubleStar

theorem isName_transformName (transform : Transform) : IsName transform.name.toList := by
  cases transform <;> exact ⟨by decide +kernel, List.all_eq_true.mp (by decide +kernel)⟩

/-- The text of an expression is read as its tokens. -/
theorem writtenAs_text {arith : Arith} (lexed : arith.Lexed) (unquoted : arith.Unquoted) :
    WrittenAs arith.tokens arith.text.toList := by
  induction arith with
  | column name =>
    have written := Token.writtenAs_name unquoted
    simpa [tokens, text] using written
  | number value text =>
    have written := Token.writtenAs_numeral lexed
    simpa [tokens, Arith.text] using written
  | negate operand ih =>
    intro rest tokens ends lexes
    have inner := writtenAs_enclose (operand.precedence < 3) (ih lexed unquoted) ends lexes
    have signed := inner.symbol Token.isSymbol_minus (by simp)
    simpa [Arith.tokens, text] using signed
  | binary operator lhs rhs ihl ihr =>
    intro rest tokens ends lexes
    have right := writtenAs_enclose (enclosesRight operator rhs) (ihr lexed.2 unquoted.2) ends lexes
    have left := writtenAs_enclose (enclosesLeft operator lhs) (ihl lexed.1 unquoted.1)
      (Token.ends_blank _) (lexes_operator operator right)
    simpa [Arith.tokens, text] using left
  | call transform argument ih =>
    intro rest tokens ends lexes
    have notRest : Token.isNameRest '(' = false := by decide +kernel
    have inner := (ih lexed unquoted).parenthesized ends lexes
    have written := inner.name (isName_transformName transform) (by simpa using notRest)
    simpa [Arith.tokens, text] using written
  | basis source degree order => exact lexed.elim

end Reading

section Phrases

namespace Phrase

/-- A tail with one operand more at its end. -/
def snoc {chain : Chain} (mark : Mark chain) (operand : Phrase (.whole chain.operand)) :
    Phrase (.tail chain) → Phrase (.tail chain)
  | .stop => .next mark operand .stop
  | .next first head tail => .next first head (snoc mark operand tail)

theorem yield_snoc {chain : Chain} (mark : Mark chain) (operand : Phrase (.whole chain.operand)) :
    (tail : Phrase (.tail chain)) →
      (snoc mark operand tail).yield = tail.yield ++ mark.token :: operand.yield
  | .stop => by simp [snoc, yield]
  | .next first head tail => by simp [snoc, yield, yield_snoc mark operand tail]

theorem value_snoc {chain : Chain} (mark : Mark chain) (operand : Phrase (.whole chain.operand)) :
    (tail : Phrase (.tail chain)) → (left : Arith) →
      (snoc mark operand tail).value left = .binary mark.operator (tail.value left) operand.value
  | .stop, _ => by simp [snoc, value]
  | .next first head tail, left => by simp [snoc, value, value_snoc mark operand tail]

end Phrase

/-- A phrase of the level derives the tokens and has the value. -/
def Shown (level : Level) (tokens : List Token) (value : Arith) : Prop :=
  ∃ phrase : Phrase (.whole level), phrase.yield = tokens ∧ phrase.value = value

/-- How tightly the phrases of a level hold together. -/
def Level.tightness : Level → ℕ
  | .chain .sum => 0
  | .chain .product => 1
  | .signed => 2
  | .power => 3
  | .atom => 4

/-- The level of the outermost construct. -/
def level : Arith → Level
  | .negate _ => .signed
  | .binary .add _ _ | .binary .subtract _ _ => .chain .sum
  | .binary .multiply _ _ | .binary .divide _ _ => .chain .product
  | .binary .power _ _ => .power
  | _ => .atom

theorem tightness_of_precedence (arith : Arith) :
    (2 ≤ arith.precedence → 1 ≤ arith.level.tightness) ∧
      (3 ≤ arith.precedence → 3 ≤ arith.level.tightness) ∧
      (4 ≤ arith.precedence → 4 ≤ arith.level.tightness) := by
  cases arith with
  | binary operator lhs rhs =>
    cases operator <;> simp [precedence, Operator.precedence, level, Level.tightness]
  | _ => simp [precedence, level, Level.tightness]

namespace Shown

variable {level : Level} {tokens more : List Token} {value other : Arith}

theorem toAtom (h : Shown level tokens value) (tight : 4 ≤ level.tightness) :
    Shown .atom tokens value := by
  cases level with
  | chain chain => cases chain <;> simp [Level.tightness] at tight
  | atom => exact h
  | _ => simp [Level.tightness] at tight

theorem toPower (h : Shown level tokens value) (tight : 3 ≤ level.tightness) :
    Shown .power tokens value := by
  obtain ⟨phrase, yields, values⟩ := h
  cases level with
  | chain chain => cases chain <;> simp [Level.tightness] at tight
  | signed => simp [Level.tightness] at tight
  | power => exact ⟨phrase, yields, values⟩
  | atom => exact ⟨.bare phrase, yields, values⟩

theorem toSigned (h : Shown level tokens value) (tight : 2 ≤ level.tightness) :
    Shown .signed tokens value := by
  cases level with
  | chain chain => cases chain <;> simp [Level.tightness] at tight
  | signed => exact h
  | power =>
    obtain ⟨phrase, yields, values⟩ := h
    exact ⟨.unsigned phrase, yields, values⟩
  | atom =>
    obtain ⟨phrase, yields, values⟩ := h.toPower (by decide)
    exact ⟨.unsigned phrase, yields, values⟩

/-- An operand alone is a chain. -/
theorem alone {chain : Chain} (h : Shown chain.operand tokens value) :
    Shown (.chain chain) tokens value := by
  obtain ⟨phrase, rfl, rfl⟩ := h
  exact ⟨.chain phrase .stop, by simp [Phrase.yield], rfl⟩

theorem toProduct (h : Shown level tokens value) (tight : 1 ≤ level.tightness) :
    Shown (.chain .product) tokens value := by
  rcases Nat.eq_or_lt_of_le tight with product | tighter
  · cases level with
    | chain chain =>
      cases chain with
      | sum => simp [Level.tightness] at product
      | product => exact h
    | _ => simp [Level.tightness] at product
  · have operand : Shown (Chain.operand .product) tokens value := h.toSigned tighter
    exact operand.alone

theorem toSum (h : Shown level tokens value) : Shown (.chain .sum) tokens value := by
  rcases Nat.eq_zero_or_pos level.tightness with sum | tight
  · cases level with
    | chain chain =>
      cases chain with
      | sum => exact h
      | product => simp [Level.tightness] at sum
    | _ => simp [Level.tightness] at sum
  · have operand : Shown (Chain.operand .sum) tokens value := h.toProduct tight
    exact operand.alone

theorem enclosed (h : Shown level tokens value) :
    Shown .atom (.leftParen :: (tokens ++ [.rightParen])) value := by
  obtain ⟨phrase, rfl, rfl⟩ := h.toSum
  exact ⟨.enclosed phrase, rfl, rfl⟩

/-- An operand is tight enough if it has parentheses wherever it is not without them. -/
theorem operand (h : Shown level tokens value) (parentheses : Bool) (least : ℕ) (bound : least ≤ 4)
    (tight : parentheses = false → least ≤ level.tightness) :
    ∃ level : Level, least ≤ level.tightness ∧
      Shown level (encloseTokens parentheses tokens) value := by
  cases parentheses with
  | false => exact ⟨level, tight rfl, h⟩
  | true => exact ⟨.atom, bound, h.enclosed⟩

/-- A chain goes on with one operand more at its end. -/
theorem next {chain : Chain} (mark : Mark chain) (hl : Shown (.chain chain) tokens value)
    (hr : Shown chain.operand more other) :
    Shown (.chain chain) (tokens ++ mark.token :: more) (.binary mark.operator value other) := by
  obtain ⟨phrase, rfl, rfl⟩ := hl
  obtain ⟨operand, rfl, rfl⟩ := hr
  cases phrase with
  | chain head tail =>
    refine ⟨.chain head (.snoc mark operand tail), ?_, ?_⟩
    · simp [Phrase.yield, Phrase.yield_snoc]
    · simp [Phrase.value, Phrase.value_snoc]

end Shown

private theorem Mark.token_operator {chain : Chain} (mark : Mark chain) :
    mark.operator.token = mark.token := by
  cases mark <;> rfl

private theorem shown_sum (mark : Mark .sum) {lhs rhs : Arith}
    (hl : Shown lhs.level lhs.tokens lhs) (hr : Shown rhs.level rhs.tokens rhs) :
    Shown (.chain .sum) (Arith.binary mark.operator lhs rhs).tokens
      (.binary mark.operator lhs rhs) := by
  obtain ⟨product, -, -⟩ := tightness_of_precedence rhs
  have bareRight : enclosesRight mark.operator rhs = false → 2 ≤ rhs.precedence := by
    intro bare
    have loose : ¬rhs.precedence ≤ 1 := by cases mark <;> exact of_decide_eq_false bare
    omega
  obtain ⟨_, -, left⟩ := hl.operand (enclosesLeft mark.operator lhs) 0 (by decide)
    fun _ => Nat.zero_le _
  obtain ⟨_, tight, right⟩ := hr.operand (enclosesRight mark.operator rhs) 1 (by decide)
    fun bare => product (bareRight bare)
  have operand : Shown (Chain.operand .sum) _ rhs := right.toProduct tight
  rw [tokens, mark.token_operator]
  exact left.toSum.next mark operand

private theorem shown_product (mark : Mark .product) {lhs rhs : Arith}
    (hl : Shown lhs.level lhs.tokens lhs) (hr : Shown rhs.level rhs.tokens rhs) :
    Shown (.chain .product) (Arith.binary mark.operator lhs rhs).tokens
      (.binary mark.operator lhs rhs) := by
  obtain ⟨product, -, -⟩ := tightness_of_precedence lhs
  obtain ⟨-, power, -⟩ := tightness_of_precedence rhs
  have bareLeft : enclosesLeft mark.operator lhs = false → 2 ≤ lhs.precedence := by
    intro bare
    have loose : ¬lhs.precedence < 2 := by cases mark <;> exact of_decide_eq_false bare
    omega
  have bareRight : enclosesRight mark.operator rhs = false → 3 ≤ rhs.precedence := by
    intro bare
    have loose : ¬rhs.precedence ≤ 2 := by cases mark <;> exact of_decide_eq_false bare
    omega
  obtain ⟨_, loose, left⟩ := hl.operand (enclosesLeft mark.operator lhs) 1 (by decide)
    fun bare => product (bareLeft bare)
  obtain ⟨_, tight, right⟩ := hr.operand (enclosesRight mark.operator rhs) 3 (by decide)
    fun bare => power (bareRight bare)
  have operand : Shown (Chain.operand .product) _ rhs := right.toSigned (by omega)
  rw [tokens, mark.token_operator]
  exact (left.toProduct loose).next mark operand

private theorem shown_power {lhs rhs : Arith} (hl : Shown lhs.level lhs.tokens lhs)
    (hr : Shown rhs.level rhs.tokens rhs) :
    Shown .power (Arith.binary .power lhs rhs).tokens (.binary .power lhs rhs) := by
  obtain ⟨-, -, atom⟩ := tightness_of_precedence lhs
  obtain ⟨-, power, -⟩ := tightness_of_precedence rhs
  have bareLeft : enclosesLeft .power lhs = false → 4 ≤ lhs.precedence := by
    intro bare
    have loose : ¬lhs.precedence ≤ 3 := of_decide_eq_false bare
    omega
  have bareRight : enclosesRight .power rhs = false → 3 ≤ rhs.precedence := by
    intro bare
    have loose : ¬rhs.precedence < 3 := of_decide_eq_false bare
    omega
  obtain ⟨_, tightest, left⟩ := hl.operand (enclosesLeft .power lhs) 4 (by decide)
    fun bare => atom (bareLeft bare)
  obtain ⟨_, tight, right⟩ := hr.operand (enclosesRight .power rhs) 3 (by decide)
    fun bare => power (bareRight bare)
  obtain ⟨base, yieldsBase, valueBase⟩ := left.toAtom tightest
  obtain ⟨exponent, yieldsExponent, valueExponent⟩ := right.toSigned (by omega)
  refine ⟨.raised base .doubleStar exponent, ?_, ?_⟩
  · simp only [Phrase.yield, yieldsBase, yieldsExponent, tokens, Operator.token, PowerMark.token]
  · simp only [Phrase.value, valueBase, valueExponent]

/-- The tokens of an expression are those of a phrase whose value it is. -/
theorem shown_tokens {arith : Arith} (lexed : arith.Lexed) :
    Shown arith.level arith.tokens arith := by
  induction arith with
  | column name => exact ⟨.name name, rfl, rfl⟩
  | number value text => exact ⟨.number value text, rfl, rfl⟩
  | call transform argument ih =>
    obtain ⟨phrase, yields, values⟩ := (ih lexed).toSum
    exact ⟨.call transform.name transform (Transform.named?_name transform) phrase,
      by simp [Phrase.yield, yields, tokens], by simp [Phrase.value, values]⟩
  | basis source degree order => exact lexed.elim
  | negate operand ih =>
    obtain ⟨-, power, -⟩ := tightness_of_precedence operand
    obtain ⟨level, tight, shown⟩ := (ih lexed).operand (operand.precedence < 3) 3 (by decide)
      fun bare => power (by simpa using bare)
    obtain ⟨phrase, yields, values⟩ := shown.toSigned (by omega)
    exact ⟨.minus phrase, by simp [Phrase.yield, yields, tokens], by simp [Phrase.value, values]⟩
  | binary operator lhs rhs ihl ihr =>
    have hl := ihl lexed.1
    have hr := ihr lexed.2
    cases operator with
    | add => exact shown_sum .plus hl hr
    | subtract => exact shown_sum .minus hl hr
    | multiply => exact shown_product .star hl hr
    | divide => exact shown_product .slash hl hr
    | power => exact shown_power hl hr

/-- The tokens of an expression determine it. -/
theorem eq_of_tokens_eq {first second : Arith} (lexed : first.Lexed) (lexed' : second.Lexed)
    (same : first.tokens = second.tokens) : first = second := by
  obtain ⟨phrase, yields, rfl⟩ := (shown_tokens lexed).toSum
  obtain ⟨phrase', yields', rfl⟩ := (shown_tokens lexed').toSum
  have yield : phrase.yield ++ [] = phrase'.yield ++ [] := by rw [yields, yields', same]
  obtain ⟨rfl, -⟩ :=
    phrase.eq_of_yield_append_eq phrase' yield (Rank.stops_nil _) (Rank.stops_nil _)
  rfl

/-- The text of an expression determines it, unless it has a column whose name needs quotes. -/
theorem eq_of_text_eq {first second : Arith} (lexed : first.Lexed) (lexed' : second.Lexed)
    (unquoted : first.Unquoted) (unquoted' : second.Unquoted) (same : first.text = second.text) :
    first = second := by
  have written := writtenAs_text lexed unquoted Token.ends_nil .nil
  have written' := writtenAs_text lexed' unquoted' Token.ends_nil .nil
  rw [same] at written
  exact eq_of_tokens_eq lexed lexed' (by simpa using written.unique written')

end Phrases

end Arith

end DesignMatrix
