import DesignMatrix.Text.Blank
import DesignMatrix.Formula.Error

/-!
# From text to tokens

Blanks separate tokens and are dropped; a token is as long as it can be. Each token is placed at
the number of bytes before it.
-/

namespace DesignMatrix

namespace Token

/-- A name starts with a letter or an underscore. -/
def isNameStart (c : Char) : Bool := Text.isAlphabetic c || c == '_'

/-- A name goes on with letters, digits, underscores and points. -/
def isNameRest (c : Char) : Bool := Text.isAlphanumeric c || c == '_' || c == '.'

/-- A number is made of ASCII digits and points. -/
def isNumberPart (c : Char) : Bool := c.isDigit || c == '.'

/-- The double that digits with at most one point among them stand for. -/
def numberValue? (text : List Char) : Option Float :=
  (Decimal.magnitude? false text).map Decimal.toFloat

/-- The token of a single character. -/
def ofSymbol? : Char → Option Token
  | '~' => some .tilde
  | '+' => some .plus
  | '-' => some .minus
  | '*' => some .star
  | '^' => some .caret
  | '/' => some .slash
  | ':' => some .colon
  | ',' => some .comma
  | '=' => some .equals
  | '(' => some .leftParen
  | ')' => some .rightParen
  | _ => none

/-- The token at the front of a text whose first character is no blank, and what follows it. -/
def first (c : Char) (rest : List Char) : Except SyntaxFault (Token × List Char) :=
  if isNameStart c then
    .ok (.name (String.ofList (c :: rest.takeWhile isNameRest)), rest.dropWhile isNameRest)
  else if isNumberPart c then
    let text := c :: rest.takeWhile isNumberPart
    match numberValue? text with
    | some value => .ok (.number value (String.ofList text), rest.dropWhile isNumberPart)
    | none => .error (.invalidNumber (String.ofList text))
  else if c = backQuote then
    match rest.dropWhile (· != backQuote) with
    | [] => .error .unterminatedName
    | _ :: after =>
      let text := rest.takeWhile (· != backQuote)
      if text.isEmpty then .error .emptyName else .ok (.quoted (String.ofList text), after)
  else match c, rest with
    | '*', '*' :: after => .ok (.doubleStar, after)
    | _, _ =>
      match ofSymbol? c with
      | some token => .ok (token, rest)
      | none => .error (.unexpectedCharacter c)

private theorem length_dropWhile_le (p : Char → Bool) (cs : List Char) :
    (cs.dropWhile p).length ≤ cs.length := by
  induction cs with
  | nil => simp
  | cons c cs ih => by_cases h : p c <;> simp [List.dropWhile, h]; omega

/-- A token takes at least the first character. -/
theorem first_length_le {c : Char} {rest after : List Char} {token : Token}
    (h : first c rest = .ok (token, after)) : after.length ≤ rest.length := by
  unfold first at h
  have drop := fun p => length_dropWhile_le p rest
  split at h
  · cases h; exact drop _
  split at h
  · simp only at h
    split at h
    · cases h; exact drop _
    · cases h
  split at h
  · split at h
    · cases h
    · rename_i head tail heq
      simp only at h
      split at h
      · cases h
      · cases h
        have := drop (· != backQuote)
        rw [heq] at this
        simp only [List.length_cons] at this
        omega
  split at h
  · cases h; simp
  · split at h
    · cases h; exact Nat.le_refl _
    · cases h

/-- The number of bytes that a token takes. -/
def width (token : Token) : Nat := token.spelling.utf8ByteSize

/-- The tokens of a text that stands behind `offset` bytes. -/
def listFrom (offset : Nat) : List Char → Except FormulaError (List Placed)
  | [] => .ok []
  | c :: rest =>
    if Text.isBlank c then listFrom (offset + c.utf8Size) rest
    else match _h : first c rest with
      | .error fault => .error (.malformed offset fault)
      | .ok (token, after) =>
        (listFrom (offset + token.width) after).map (⟨token, offset⟩ :: ·)
termination_by cs => cs.length
decreasing_by
  · simp
  · have := first_length_le _h
    simp only [List.length_cons]
    omega

/-- The tokens of a formula. -/
def list (formula : String) : Except FormulaError (List Placed) := listFrom 0 formula.toList

end Token

end DesignMatrix
