import Mathlib.Tactic.Common
import DesignMatrix.Formula.Lexer
import DesignMatrix.Proofs.Outcomes

/-!
# What the lexer reads

The tokens of a text do not depend on where they stand. A name or a numeral is read as one token
when the character behind it is no part of it.
-/

namespace DesignMatrix

namespace Text.Ranges

/-- No interval of one list meets an interval of the other. -/
def apart (ranges others : Ranges) : Bool :=
  ranges.all fun range => others.all fun other => range.2 < other.1 || other.2 < range.1

theorem covers_eq_false_of_apart {ranges others : Ranges} (h : apart ranges others = true)
    {c : Char} (covered : ranges.covers c = true) : others.covers c = false := by
  obtain ⟨range, member, low, high⟩ := (covers_iff ranges c).mp covered
  rw [Bool.eq_false_iff]
  intro both
  obtain ⟨other, member', low', high'⟩ := (covers_iff others c).mp both
  have separate := List.all_eq_true.mp (List.all_eq_true.mp h range member) other member'
  simp only [Bool.or_eq_true, decide_eq_true_eq] at separate
  omega

end Text.Ranges

namespace Token

open Outcomes Text

/-- The characters are those of a name. -/
def IsName : List Char → Prop
  | [] => False
  | c :: rest => isNameStart c = true ∧ ∀ d ∈ rest, isNameRest d = true

/-- The characters are those of a number with this value. -/
def IsNumeral (value : Float) (cs : List Char) : Prop :=
  cs ≠ [] ∧ (∀ c ∈ cs, isNumberPart c = true) ∧ numberValue? cs = some value

/-- A token that the lexer makes. -/
def WellFormed : Token → Prop
  | .name text => IsName text.toList
  | .number value text => IsNumeral value text.toList
  | _ => True

/-- The token is a name between back quotes. -/
def IsQuoted : Token → Prop
  | .quoted _ => True
  | _ => False

private def numberPartRanges : Ranges := [(0x2E, 0x2E), (0x30, 0x39)]

private theorem covers_of_isNumberPart {c : Char} (h : isNumberPart c = true) :
    numberPartRanges.covers c = true := by
  rw [Ranges.covers_iff]
  simp only [isNumberPart, Bool.or_eq_true, beq_iff_eq] at h
  rcases h with digit | point
  · refine ⟨(0x30, 0x39), by decide, ?_⟩
    simpa [Char.isDigit, Char.le_def, UInt32.le_iff_toNat_le] using digit
  · exact ⟨(0x2E, 0x2E), by decide, by simp [point]⟩

theorem isNameStart_eq_false_of_isNumberPart {c : Char} (h : isNumberPart c = true) :
    isNameStart c = false := by
  have covered := covers_of_isNumberPart h
  have notAlphabetic : isAlphabetic c = false :=
    Ranges.covers_eq_false_of_apart (by decide +kernel) covered
  have notUnderscore : c ≠ '_' := by
    rintro rfl
    exact absurd h (by decide)
  simp [isNameStart, notAlphabetic, notUnderscore]

theorem isBlank_eq_false_of_isNumberPart {c : Char} (h : isNumberPart c = true) :
    isBlank c = false :=
  Ranges.covers_eq_false_of_apart (by decide +kernel) (covers_of_isNumberPart h)

theorem isBlank_eq_false_of_isNameStart {c : Char} (h : isNameStart c = true) :
    isBlank c = false := by
  simp only [isNameStart, Bool.or_eq_true, beq_iff_eq] at h
  rcases h with alphabetic | rfl
  · exact Ranges.covers_eq_false_of_apart (by decide +kernel) alphabetic
  · decide

/-- A text without the places of its tokens. -/
inductive Lexes : List Char → List Token → Prop
  | nil : Lexes [] []
  | blank {c : Char} {rest : List Char} {tokens : List Token} (isBlank : isBlank c = true)
      (lexes : Lexes rest tokens) : Lexes (c :: rest) tokens
  | token {c : Char} {rest after : List Char} {token : Token} {tokens : List Token}
      (notBlank : Text.isBlank c = false) (reads : first c rest = .ok (token, after))
      (lexes : Lexes after tokens) : Lexes (c :: rest) (token :: tokens)

theorem Lexes.unique {cs : List Char} {tokens others : List Token} (h : Lexes cs tokens)
    (h' : Lexes cs others) : tokens = others := by
  -- Whether the first character is blank decides the constructor on both sides.
  induction h generalizing others with
  | nil =>
    cases h'
    rfl
  | blank isBlank _ ih =>
    cases h' with
    | blank _ lexes => exact ih lexes
    | token notBlank => simp [isBlank] at notBlank
  | token notBlank reads _ ih =>
    cases h' with
    | blank isBlank => simp [isBlank] at notBlank
    | token _ reads' lexes =>
      obtain ⟨rfl, rfl⟩ := Prod.mk.inj (Except.ok.inj (reads.symm.trans reads'))
      rw [ih lexes]

theorem lexes_of_listFrom {offset : ℕ} {cs : List Char} {placed : List Placed}
    (h : listFrom offset cs = .ok placed) : Lexes cs (placed.map Placed.token) := by
  induction offset, cs using listFrom.induct generalizing placed with
  | case1 offset =>
    simp only [listFrom, Except.ok.injEq] at h
    subst h
    exact .nil
  | case2 offset c rest isBlank ih =>
    rw [listFrom, if_pos isBlank] at h
    exact .blank isBlank (ih h)
  | case3 offset c rest notBlank fault reads =>
    rw [listFrom, if_neg notBlank] at h
    split at h
    · cases h
    · simp_all
  | case4 offset c rest notBlank token after reads ih =>
    rw [listFrom, if_neg notBlank] at h
    split at h
    · cases h
    · rename_i token' after' reads'
      obtain ⟨rfl, rfl⟩ := Prod.mk.inj (Except.ok.inj (reads'.symm.trans reads))
      obtain ⟨behind, lexed, rfl⟩ := map_eq_ok.mp h
      exact .token (Bool.eq_false_iff.mpr notBlank) reads (ih lexed)

theorem Lexes.exists_listFrom {cs : List Char} {tokens : List Token} (h : Lexes cs tokens)
    (offset : ℕ) :
    ∃ placed, listFrom offset cs = .ok placed ∧ placed.map Placed.token = tokens := by
  induction h generalizing offset with
  | nil => exact ⟨[], by rw [listFrom], rfl⟩
  | @blank c rest tokens isBlank _ ih =>
    obtain ⟨placed, listed, same⟩ := ih (offset + c.utf8Size)
    exact ⟨placed, by rw [listFrom, if_pos isBlank, listed], same⟩
  | @token c rest after token tokens notBlank reads _ ih =>
    obtain ⟨placed, listed, same⟩ := ih (offset + token.width)
    refine ⟨⟨token, offset⟩ :: placed, ?_, by rw [List.map_cons, same]⟩
    rw [listFrom, if_neg (by simp [notBlank])]
    split
    · simp_all
    · rename_i token' after' reads'
      obtain ⟨rfl, rfl⟩ := Prod.mk.inj (Except.ok.inj (reads'.symm.trans reads))
      rw [listed]
      rfl

theorem lexes_of_list {text : String} {placed : List Placed} (h : list text = .ok placed) :
    Lexes text.toList (placed.map Placed.token) :=
  lexes_of_listFrom h

/-- The ways in which a token and what follows it come from the front of a text. -/
inductive Front (c : Char) (rest : List Char) : Token → List Char → Prop
  | name (start : isNameStart c = true) :
      Front c rest (.name (String.ofList (c :: rest.takeWhile isNameRest)))
        (rest.dropWhile isNameRest)
  | number {value : Float} (part : isNumberPart c = true)
      (read : numberValue? (c :: rest.takeWhile isNumberPart) = some value) :
      Front c rest (.number value (String.ofList (c :: rest.takeWhile isNumberPart)))
        (rest.dropWhile isNumberPart)
  | quoted {after : List Char} (quote : c = backQuote) (suffix : after <:+ rest) (text : String) :
      Front c rest (.quoted text) after
  | doubleStar {after : List Char} (suffix : after <:+ rest) : Front c rest .doubleStar after
  | symbol {token : Token} (symbol : ofSymbol? c = some token) : Front c rest token rest

theorem front_of_first {c : Char} {rest after : List Char} {token : Token}
    (h : first c rest = .ok (token, after)) : Front c rest token after := by
  unfold first at h
  split at h
  · rename_i start
    cases h
    exact .name start
  split at h
  · rename_i part
    simp only at h
    split at h
    · rename_i value read
      cases h
      exact .number part read
    · cases h
  split at h
  · rename_i quote
    split at h
    · cases h
    · rename_i closing behind dropped
      simp only at h
      split at h <;> cases h
      have suffix : closing :: after <:+ rest := dropped ▸ List.dropWhile_suffix _
      exact .quoted quote ((List.suffix_cons closing after).trans suffix) _
  split at h
  · cases h
    exact .doubleStar (List.suffix_cons _ _)
  · split at h <;> cases h
    exact .symbol ‹_›

theorem Front.wellFormed {c : Char} {rest after : List Char} {token : Token}
    (h : Front c rest token after) : token.WellFormed := by
  have members {p : Char → Bool} : ∀ d ∈ rest.takeWhile p, p d = true := fun d member =>
    List.all_eq_true.mp List.all_takeWhile d member
  cases h with
  | name start => simpa [WellFormed, IsName] using ⟨start, members⟩
  | number part read => exact ⟨by simp, by simpa using ⟨part, members⟩, by simpa using read⟩
  | quoted quote suffix text => trivial
  | doubleStar suffix => trivial
  | symbol symbol =>
    unfold ofSymbol? at symbol
    split at symbol <;> cases symbol <;> trivial

theorem Front.suffix {c : Char} {rest after : List Char} {token : Token}
    (h : Front c rest token after) : after <:+ rest := by
  cases h with
  | name start => exact List.dropWhile_suffix _
  | number part read => exact List.dropWhile_suffix _
  | quoted quote suffix text => exact suffix
  | doubleStar suffix => exact suffix
  | symbol symbol => exact List.suffix_refl _

theorem Front.not_isQuoted {c : Char} {rest after : List Char} {token : Token}
    (h : Front c rest token after) (plain : c ≠ backQuote) : ¬token.IsQuoted := by
  cases h with
  | name start => exact id
  | number part read => exact id
  | quoted quote suffix text => exact absurd quote plain
  | doubleStar suffix => exact id
  | symbol symbol =>
    unfold ofSymbol? at symbol
    split at symbol <;> cases symbol <;> exact id

theorem Lexes.wellFormed {cs : List Char} {tokens : List Token} (h : Lexes cs tokens) :
    ∀ token ∈ tokens, token.WellFormed := by
  induction h with
  | nil => simp
  | blank _ _ ih => exact ih
  | token _ reads _ ih => exact List.forall_mem_cons.mpr ⟨(front_of_first reads).wellFormed, ih⟩

/-- A text without back quotes has no quoted names. -/
theorem Lexes.not_isQuoted {cs : List Char} {tokens : List Token} (h : Lexes cs tokens)
    (plain : backQuote ∉ cs) : ∀ token ∈ tokens, ¬token.IsQuoted := by
  induction h with
  | nil => simp
  | blank _ _ ih => exact ih fun inside => plain (List.mem_cons_of_mem _ inside)
  | token _ reads _ ih =>
    have front := front_of_first reads
    refine List.forall_mem_cons.mpr ⟨front.not_isQuoted ?_, ih fun inside => plain ?_⟩
    · rintro rfl
      exact plain List.mem_cons_self
    · exact List.mem_cons_of_mem _ (front.suffix.subset inside)

section Reading

variable {cs rest : List Char} {tokens : List Token}

private theorem takeWhile_part {p : Char → Bool} (all : ∀ c ∈ cs, p c = true)
    (ends : ∀ c ∈ rest.head?, p c = false) : (cs ++ rest).takeWhile p = cs := by
  rw [List.takeWhile_append_of_pos all]
  cases rest <;> simp_all

private theorem dropWhile_part {p : Char → Bool} (all : ∀ c ∈ cs, p c = true)
    (ends : ∀ c ∈ rest.head?, p c = false) : (cs ++ rest).dropWhile p = rest := by
  rw [List.dropWhile_append_of_pos all]
  cases rest <;> simp_all

theorem Lexes.name (isName : IsName cs) (ends : ∀ c ∈ rest.head?, isNameRest c = false)
    (h : Lexes rest tokens) : Lexes (cs ++ rest) (.name (String.ofList cs) :: tokens) := by
  cases cs with
  | nil => exact isName.elim
  | cons c cs =>
    obtain ⟨start, all⟩ := isName
    refine .token (isBlank_eq_false_of_isNameStart start) ?_ h
    simp [first, start, takeWhile_part all ends, dropWhile_part all ends]

theorem Lexes.numeral {value : Float} (isNumeral : IsNumeral value cs)
    (ends : ∀ c ∈ rest.head?, isNumberPart c = false) (h : Lexes rest tokens) :
    Lexes (cs ++ rest) (.number value (String.ofList cs) :: tokens) := by
  obtain ⟨nonempty, all, read⟩ := isNumeral
  cases cs with
  | nil => exact absurd rfl nonempty
  | cons c cs =>
    obtain ⟨part, all⟩ := List.forall_mem_cons.mp all
    refine .token (isBlank_eq_false_of_isNumberPart part) ?_ h
    simp [first, isNameStart_eq_false_of_isNumberPart part, part, takeWhile_part all ends,
      dropWhile_part all ends, read]

end Reading

end Token

end DesignMatrix
