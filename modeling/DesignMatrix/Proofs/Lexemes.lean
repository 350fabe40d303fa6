import Mathlib.Data.List.TakeWhile
import DesignMatrix.Proofs.Literals
import DesignMatrix.Proofs.TextFronts

/-!
# Lexemes

The lexer takes a token off the front of a text exactly if its spelling stands there, is a lexeme of
its kind, and is not continued by what follows. Where it takes none, an offending lexeme stands.
-/

namespace DesignMatrix.Token

open Text

variable {c : Char} {rest after : List Char} {token : Token}

/-- The spelling of the token is a lexeme of its kind. -/
def IsLexeme : Token → Prop
  | .name text => IsName text.toList
  | .quoted text => text.toList ≠ [] ∧ backQuote ∉ text.toList
  | .number value text =>
    (∀ c ∈ text.toList, isNumberPart c = true) ∧ double? text.toList = some value
  | _ => True

/-- The lexeme is part of a longer one if the character stands behind it. -/
def goesOnWith : Token → Char → Bool
  | .name _, c => isNameRest c
  | .number _ _, c => isNumberPart c
  | .star, c => c == '*'
  | _, _ => false

/-- What follows the lexeme does not go on with it. -/
def EndedBy (token : Token) (rest : List Char) : Prop :=
  ∀ c ∈ rest.head?, token.goesOnWith c = false

/-- A fault, the lexeme at the front of a text that has it, and the text behind the lexeme. -/
inductive Offends : SyntaxFault → List Char → List Char → Prop
  | invalidNumber {lexeme rest : List Char} (nonempty : lexeme ≠ [])
      (parts : ∀ c ∈ lexeme, isNumberPart c = true)
      (ended : ∀ c ∈ rest.head?, isNumberPart c = false) (noDouble : double? lexeme = none) :
      Offends (.invalidNumber (String.ofList lexeme)) lexeme rest
  | unterminatedName {name : List Char} (unclosed : backQuote ∉ name) :
      Offends .unterminatedName (backQuote :: name) []
  | emptyName {rest : List Char} : Offends .emptyName [backQuote, backQuote] rest
  | unexpectedCharacter {c : Char} {rest : List Char} (notBlank : isBlank c = false)
      (notStart : isNameStart c = false) (notPart : isNumberPart c = false)
      (notQuote : c ≠ backQuote) (notSymbol : ofSymbol? c = none) :
      Offends (.unexpectedCharacter c) [c] rest

/-- A symbol is neither a blank nor the start of a longer lexeme. -/
theorem of_ofSymbol? (symbol : ofSymbol? c = some token) :
    isBlank c = false ∧ isNameStart c = false ∧ isNumberPart c = false ∧ c ≠ backQuote := by
  unfold ofSymbol? at symbol
  split at symbol
  all_goals first | cases symbol; done | exact (by decide +kernel)

theorem spelling_of_ofSymbol? (symbol : ofSymbol? c = some token) :
    token.spelling.toList = [c] ∧ token.IsLexeme := by
  unfold ofSymbol? at symbol
  split at symbol <;> cases symbol <;> exact ⟨by decide, trivial⟩

/-- Of the symbols, only the star goes on, with another one. -/
theorem goesOnWith_of_ofSymbol? (symbol : ofSymbol? c = some token) (d : Char) :
    token.goesOnWith d = (c == '*' && d == '*') := by
  unfold ofSymbol? at symbol
  split at symbol <;> cases symbol <;> rfl

/-- No lexeme goes on with a blank. -/
theorem goesOnWith_of_isBlank (blank : isBlank c = true) : token.goesOnWith c = false := by
  have notAlphabetic : isAlphabetic c = false :=
    Ranges.covers_eq_false_of_apart (by decide +kernel) blank
  have notNumeric : isNumeric c = false :=
    Ranges.covers_eq_false_of_apart (by decide +kernel) blank
  have others : c ≠ '_' ∧ c ≠ '.' ∧ c ≠ '*' := by
    refine ⟨?_, ?_, ?_⟩ <;> rintro rfl <;> exact absurd blank (by decide)
  have notPart : isNumberPart c = false := by
    rw [Bool.eq_false_iff]
    intro part
    simp [isBlank_eq_false_of_isNumberPart part] at blank
  cases token with
  | name text => simp [goesOnWith, isNameRest, isAlphanumeric, notAlphabetic, notNumeric, others]
  | number value text => exact notPart
  | star => simpa [goesOnWith] using others.2.2
  | _ => rfl

theorem toList_spelling_quoted (text : String) :
    (Token.quoted text).spelling.toList = backQuote :: (text.toList ++ [backQuote]) := by
  simp [spelling]

/-- The mark that closes a quoted name is the first one in it. -/
private theorem exists_closing {after : List Char} {closing : Char}
    (h : rest.dropWhile (· != backQuote) = closing :: after) :
    rest = rest.takeWhile (· != backQuote) ++ backQuote :: after ∧
      backQuote ∉ rest.takeWhile (· != backQuote) := by
  have first := List.head?_dropWhile_not (· != backQuote) rest
  rw [h] at first
  obtain rfl : closing = backQuote := by simpa using first
  refine ⟨?_, fun inside => ?_⟩
  · rw [← h, List.takeWhile_append_dropWhile]
  · simpa using List.all_eq_true.mp List.all_takeWhile backQuote inside

/-- What the lexer takes off the front of a text is a lexeme that is ended by what follows. -/
theorem lexeme_of_first (h : first c rest = .ok (token, after)) :
    c :: rest = token.spelling.toList ++ after ∧ token.IsLexeme ∧ token.EndedBy after := by
  have inside {p : Char → Bool} : ∀ d ∈ rest.takeWhile p, p d = true := fun d member =>
    List.all_eq_true.mp List.all_takeWhile d member
  have boundary {p : Char → Bool} : ∀ d ∈ (rest.dropWhile p).head?, p d = false := by
    intro d isHead
    have first := List.head?_dropWhile_not p rest
    rwa [Option.mem_def.mp isHead] at first
  unfold first at h
  split at h
  · rename_i start
    cases h
    exact ⟨by simp [spelling], by simpa [IsLexeme, IsName] using ⟨start, inside⟩, boundary⟩
  split at h
  · rename_i part
    simp only at h
    split at h
    · rename_i value read
      cases h
      have parts : ∀ d ∈ c :: rest.takeWhile isNumberPart, isNumberPart d = true :=
        List.forall_mem_cons.mpr ⟨part, inside⟩
      rw [numberValue?_eq_double? parts] at read
      exact ⟨by simp [spelling], by simpa only [IsLexeme, String.toList_ofList] using ⟨parts, read⟩,
        boundary⟩
    · cases h
  split at h
  · rename_i quote
    split at h
    · cases h
    · rename_i closing behind dropped
      simp only at h
      split at h
      · cases h
      · rename_i nonempty
        cases h
        obtain ⟨split, unquoted⟩ := exists_closing dropped
        refine ⟨?_, ?_, fun _ _ => rfl⟩
        · rw [toList_spelling_quoted, String.toList_ofList, quote]
          simpa using split
        · rw [List.isEmpty_iff] at nonempty
          simpa only [IsLexeme, String.toList_ofList] using ⟨nonempty, unquoted⟩
  split at h
  · cases h
    exact ⟨rfl, trivial, fun _ _ => rfl⟩
  · rename_i notDouble
    split at h
    · rename_i symbol
      cases h
      obtain ⟨spelled, isLexeme⟩ := spelling_of_ofSymbol? symbol
      refine ⟨by rw [spelled]; rfl, isLexeme, fun d isHead => ?_⟩
      obtain ⟨more, same⟩ := List.head?_eq_some_iff.mp isHead
      rw [goesOnWith_of_ofSymbol? symbol, Bool.and_eq_false_iff, beq_eq_false_iff_ne,
        beq_eq_false_iff_ne, or_iff_not_imp_left, not_not]
      rintro rfl rfl
      exact notDouble more rfl same
    · cases h

private theorem first_name {more : List Char} (isName : IsName (c :: more))
    (ended : ∀ d ∈ after.head?, isNameRest d = false) :
    first c (more ++ after) = .ok (.name (String.ofList (c :: more)), after) := by
  obtain ⟨taken, dropped⟩ := Fronts.takeWhile_append_of_head? isName.2 ended
  simp [first, isName.1, taken, dropped]

private theorem first_number {more : List Char} {value : Float}
    (parts : ∀ d ∈ c :: more, isNumberPart d = true) (read : double? (c :: more) = some value)
    (ended : ∀ d ∈ after.head?, isNumberPart d = false) :
    first c (more ++ after) = .ok (.number value (String.ofList (c :: more)), after) := by
  rw [← numberValue?_eq_double? parts] at read
  obtain ⟨part, parts⟩ := List.forall_mem_cons.mp parts
  obtain ⟨taken, dropped⟩ := Fronts.takeWhile_append_of_head? parts ended
  simp [first, isNameStart_eq_false_of_isNumberPart part, part, taken, dropped, read]

private theorem first_quoted {name : List Char} (nonempty : name ≠ [])
    (unquoted : backQuote ∉ name) :
    first backQuote (name ++ backQuote :: after) = .ok (.quoted (String.ofList name), after) := by
  have notStart : isNameStart backQuote = false := by decide +kernel
  have notPart : isNumberPart backQuote = false := by decide
  have others : ∀ d ∈ name, (d != backQuote) = true := by
    rintro d member
    simpa using fun same : d = backQuote => unquoted (same ▸ member)
  have closed : ∀ d ∈ (backQuote :: after).head?, (d != backQuote) = false := by simp
  obtain ⟨taken, dropped⟩ := Fronts.takeWhile_append_of_head? others closed
  simp [first, notStart, notPart, taken, dropped, nonempty]

private theorem first_symbol (symbol : ofSymbol? c = some token) (ended : token.EndedBy after) :
    first c after = .ok (token, after) := by
  obtain ⟨-, notStart, notPart, notQuote⟩ := of_ofSymbol? symbol
  simp only [first, notStart, notPart, notQuote, if_false, Bool.false_eq_true]
  split
  · cases symbol
    exact absurd (ended '*' rfl) (by decide)
  · simp [symbol]

private theorem first_doubleStar : first '*' ('*' :: after) = .ok (.doubleStar, after) := by
  have notStart : isNameStart '*' = false := by decide +kernel
  have notPart : isNumberPart '*' = false := by decide
  have notQuote : '*' ≠ backQuote := by decide
  simp [first, notStart, notPart, notQuote]

/-- The lexer takes a lexeme off the front of a text that does not go on with it. -/
theorem exists_first_of_lexeme (isLexeme : token.IsLexeme) (ended : token.EndedBy after) :
    ∃ c rest, token.spelling.toList ++ after = c :: rest ∧ first c rest = .ok (token, after) := by
  have symbol {c : Char} (symbol : ofSymbol? c = some token) :
      ∃ c rest, token.spelling.toList ++ after = c :: rest ∧ first c rest = .ok (token, after) :=
    ⟨c, after, by rw [(spelling_of_ofSymbol? symbol).1]; rfl, first_symbol symbol ended⟩
  cases token with
  | name text =>
    cases same : text.toList with
    | nil => simp [IsLexeme, IsName, same] at isLexeme
    | cons c more =>
      rw [IsLexeme, same] at isLexeme
      refine ⟨c, more ++ after, by simp [spelling, same], ?_⟩
      rw [first_name isLexeme ended, ← same, String.ofList_toList]
  | number value text =>
    cases same : text.toList with
    | nil =>
      have noDouble : double? [] = none := by rw [← numberValue?_eq_double? (by simp)]; rfl
      simp [IsLexeme, same, noDouble] at isLexeme
    | cons c more =>
      rw [IsLexeme, same] at isLexeme
      refine ⟨c, more ++ after, by simp [spelling, same], ?_⟩
      rw [first_number isLexeme.1 isLexeme.2 ended, ← same, String.ofList_toList]
  | quoted text =>
    refine ⟨backQuote, text.toList ++ backQuote :: after, by simp [toList_spelling_quoted], ?_⟩
    rw [first_quoted isLexeme.1 isLexeme.2, String.ofList_toList]
  | doubleStar => exact ⟨'*', '*' :: after, rfl, first_doubleStar⟩
  | tilde => exact symbol (c := '~') rfl
  | plus => exact symbol (c := '+') rfl
  | minus => exact symbol (c := '-') rfl
  | star => exact symbol (c := '*') rfl
  | caret => exact symbol (c := '^') rfl
  | slash => exact symbol (c := '/') rfl
  | colon => exact symbol (c := ':') rfl
  | comma => exact symbol (c := ',') rfl
  | equals => exact symbol (c := '=') rfl
  | leftParen => exact symbol (c := '(') rfl
  | rightParen => exact symbol (c := ')') rfl

/-- A lexeme starts with no blank. -/
theorem isBlank_eq_false_of_first (h : first c rest = .ok (token, after)) : isBlank c = false := by
  cases front_of_first h with
  | name start => exact isBlank_eq_false_of_isNameStart start
  | number part read => exact isBlank_eq_false_of_isNumberPart part
  | quoted quote suffix text => exact quote ▸ (by decide)
  | doubleStar suffix =>
    obtain ⟨rfl, -⟩ := List.cons.inj (lexeme_of_first h).1
    decide
  | symbol symbol => exact (of_ofSymbol? symbol).1

/-- Where the lexer takes no lexeme off the front of a text, an offending one stands there. -/
theorem exists_offends_of_first {fault : SyntaxFault} (notBlank : isBlank c = false)
    (h : first c rest = .error fault) :
    ∃ lexeme after, c :: rest = lexeme ++ after ∧ Offends fault lexeme after := by
  unfold first at h
  split at h
  · cases h
  rename_i notStart
  rw [Bool.not_eq_true] at notStart
  split at h
  · rename_i part
    simp only at h
    split at h
    · cases h
    · rename_i noValue
      cases h
      obtain ⟨more, after, rfl, inside, boundary⟩ := Fronts.exists_front isNumberPart rest
      obtain ⟨taken, -⟩ := Fronts.takeWhile_append_of_head? inside boundary
      have parts : ∀ d ∈ c :: more, isNumberPart d = true :=
        List.forall_mem_cons.mpr ⟨part, inside⟩
      rw [taken] at noValue ⊢
      rw [numberValue?_eq_double? parts] at noValue
      exact ⟨c :: more, after, rfl, .invalidNumber (by simp) parts boundary noValue⟩
  rename_i notPart
  rw [Bool.not_eq_true] at notPart
  split at h
  · rename_i quote
    subst quote
    split at h
    · rename_i noClosing
      cases h
      refine ⟨backQuote :: rest, [], by simp, .unterminatedName fun inside => ?_⟩
      have others := List.dropWhile_eq_nil_iff.mp noClosing
      simpa using others backQuote inside
    · rename_i closing after dropped
      simp only at h
      split at h
      · rename_i isEmpty
        cases h
        obtain ⟨split, -⟩ := exists_closing dropped
        rw [List.isEmpty_iff.mp isEmpty, List.nil_append] at split
        exact ⟨[backQuote, backQuote], after, by rw [split]; rfl, .emptyName⟩
      · cases h
  rename_i notQuote
  split at h
  · cases h
  · split at h
    · cases h
    · rename_i notSymbol
      cases h
      exact ⟨[c], rest, rfl, .unexpectedCharacter notBlank notStart notPart notQuote notSymbol⟩

end DesignMatrix.Token
