import Mathlib.Data.String.Basic
import DesignMatrix.Proofs.FormulaReading
import DesignMatrix.Proofs.Lexemes

/-!
# Where tokens stand

A text has tokens exactly if it consists of their lexemes with blanks around them, each ended by
what follows. Every token stands at the number of bytes before its lexeme, and the end of the text
at the number of all its bytes. More blanks between two lexemes move tokens and change none.
-/

namespace DesignMatrix

open String (utf8Len)

/-- What stands at an offset of a text: a token, or the end of the text. -/
structure Sight where
  token? : Option Token
  offset : ℕ

/-- A token that stands there does not reach across the place behind so many bytes. -/
def Sight.ClearOf (cut : ℕ) (seen : Sight) : Prop :=
  ∀ token ∈ seen.token?, seen.offset + token.width ≤ cut ∨ cut ≤ seen.offset

def Placed.sight (placed : Placed) : Sight := ⟨some placed.token, placed.offset⟩

theorem Placed.sight_injective : Placed.sight.Injective := fun _ _ h =>
  congrArg₂ Placed.mk (Option.some.inj (congrArg Sight.token? h)) (congrArg Sight.offset h)

/-- The tokens of a text of this size one behind the other, and its end. -/
def Reader.sights (size : ℕ) (tokens : List Placed) : List Sight :=
  tokens.map Placed.sight ++ [⟨none, size⟩]

theorem Reader.map_token?_sights (size : ℕ) (tokens : List Placed) :
    (sights size tokens).map Sight.token? = (tokens.map Placed.token).map some ++ [none] := by
  simp [sights, Placed.sight]

instance (cut : ℕ) (seen : Sight) : Decidable (seen.ClearOf cut) :=
  inferInstanceAs (Decidable (∀ _ ∈ _, _))

namespace Token

open Outcomes Text Reader

/-- A text behind another one consists of lexemes with blanks around them. Each lexeme is ended by
what follows it and is seen at the number of bytes before it; the last thing seen is the end. -/
inductive Laid : (before text : List Char) → List Sight → Prop
  | finish {before gap : List Char} (blank : ∀ c ∈ gap, isBlank c = true) :
      Laid before gap [⟨none, utf8Len (before ++ gap)⟩]
  | lexeme {before gap rest : List Char} {token : Token} {sights : List Sight}
      (blank : ∀ c ∈ gap, isBlank c = true) (isLexeme : token.IsLexeme) (ended : token.EndedBy rest)
      (behind : Laid (before ++ gap ++ token.spelling.toList) rest sights) :
      Laid before (gap ++ token.spelling.toList ++ rest)
        (⟨some token, utf8Len (before ++ gap)⟩ :: sights)

section Layout

variable {before text rest gap : List Char} {token : Token} {offset : ℕ} {placed : List Placed}
  {sights : List Sight}

theorem utf8Len_spelling (token : Token) : utf8Len token.spelling.toList = token.width :=
  String.utf8Len_toList _

theorem Laid.blank {c : Char} (isBlank : isBlank c = true) (h : Laid (before ++ [c]) text sights) :
    Laid before (c :: text) sights := by
  cases h with
  | finish blank =>
    rw [← List.append_cons]
    exact .finish (List.forall_mem_cons.mpr ⟨isBlank, blank⟩)
  | lexeme blank isLexeme ended behind =>
    rw [← List.append_cons] at behind ⊢
    exact .lexeme (List.forall_mem_cons.mpr ⟨isBlank, blank⟩) isLexeme ended behind

/-- A lexeme without a blank before it. -/
theorem Laid.adjacent (isLexeme : token.IsLexeme) (ended : token.EndedBy rest)
    (h : Laid (before ++ token.spelling.toList) rest sights) :
    Laid before (token.spelling.toList ++ rest) (⟨some token, utf8Len before⟩ :: sights) := by
  have none : ∀ c ∈ ([] : List Char), isBlank c = true := by simp
  rw [← List.append_nil before] at h
  simpa using Laid.lexeme none isLexeme ended h

theorem laid_of_listFrom (h : listFrom (utf8Len before) text = .ok placed) :
    Laid before text (Reader.sights (utf8Len (before ++ text)) placed) := by
  generalize start : utf8Len before = offset at h
  induction offset, text using listFrom.induct generalizing before placed with
  | case1 offset =>
    rw [listFrom] at h
    cases h
    exact .finish (by simp)
  | case2 offset c rest isBlank ih =>
    rw [listFrom, if_pos isBlank] at h
    rw [List.append_cons]
    exact .blank isBlank (ih (by simp [start]) h)
  | case3 offset c rest notBlank fault reads =>
    rw [listFrom, if_neg notBlank] at h
    split at h
    · cases h
    · simp_all
  | case4 offset c rest notBlank token after reads ih =>
    rw [listFrom, if_neg notBlank] at h
    split at h
    · cases h
    · rename_i token' after' reads'
      obtain ⟨rfl, rfl⟩ := Prod.mk.inj (Except.ok.inj (reads'.symm.trans reads))
      obtain ⟨behind, listed, rfl⟩ := map_eq_ok.mp h
      obtain ⟨front, isLexeme, ended⟩ := lexeme_of_first reads
      have stop : utf8Len (before ++ token'.spelling.toList) = offset + token'.width := by
        rw [String.utf8Len_append, start, utf8Len_spelling]
      have laid := Laid.adjacent isLexeme ended (ih stop listed)
      rwa [List.append_assoc, ← front, start] at laid

theorem listFrom_gap (blank : ∀ c ∈ gap, isBlank c = true) :
    listFrom offset (gap ++ rest) = listFrom (offset + utf8Len gap) rest := by
  induction gap generalizing offset with
  | nil => rfl
  | cons c gap ih =>
    obtain ⟨first, blank⟩ := List.forall_mem_cons.mp blank
    rw [List.cons_append, listFrom, if_pos first, ih blank, String.utf8Len_cons]
    congr 1
    omega

theorem listFrom_lexeme (isLexeme : token.IsLexeme) (ended : token.EndedBy rest) :
    listFrom offset (token.spelling.toList ++ rest) =
      (listFrom (offset + token.width) rest).map (⟨token, offset⟩ :: ·) := by
  obtain ⟨c, more, front, read⟩ := exists_first_of_lexeme isLexeme ended
  have notBlank := isBlank_eq_false_of_first read
  rw [front, listFrom, if_neg (by simp [notBlank])]
  split
  · simp_all
  · rename_i token' after' read'
    obtain ⟨rfl, rfl⟩ := Prod.mk.inj (Except.ok.inj (read'.symm.trans read))
    rfl

theorem Laid.exists_listFrom (h : Laid before text sights) :
    ∃ placed, listFrom (utf8Len before) text = .ok placed ∧
      Reader.sights (utf8Len (before ++ text)) placed = sights := by
  induction h with
  | @finish before gap blank =>
    refine ⟨[], ?_, rfl⟩
    rw [← List.append_nil gap, listFrom_gap blank, listFrom]
  | @lexeme before gap rest token sights blank isLexeme ended _ ih =>
    obtain ⟨placed, listed, rfl⟩ := ih
    refine ⟨⟨token, utf8Len (before ++ gap)⟩ :: placed, ?_, ?_⟩
    · rw [List.append_assoc, listFrom_gap blank, listFrom_lexeme isLexeme ended]
      simp only [String.utf8Len_append, utf8Len_spelling] at listed ⊢
      rw [listed]
      rfl
    · simp [Reader.sights, Placed.sight]

theorem laid_iff {text : String} : Laid [] text.toList sights ↔
    ∃ tokens, list text = .ok tokens ∧ Reader.sights text.utf8ByteSize tokens = sights := by
  rw [← String.utf8Len_toList]
  constructor
  · exact Laid.exists_listFrom
  · rintro ⟨tokens, listed, rfl⟩
    have start : listFrom (utf8Len []) text.toList = .ok tokens := listed
    exact laid_of_listFrom start

end Layout

section Gaps

variable {before front back gap rest : List Char} {token : Token} {sights : List Sight}

/-- More blanks do not make a lexeme longer. -/
theorem EndedBy.widened (h : token.EndedBy (front ++ back)) (blank : ∀ c ∈ gap, isBlank c = true) :
    token.EndedBy (front ++ gap ++ back) := by
  intro c isHead
  cases front with
  | cons d front => exact h c isHead
  | nil =>
    cases gap with
    | nil => exact h c isHead
    | cons d gap =>
      obtain rfl := Option.some.inj isHead
      exact goesOnWith_of_isBlank (blank d List.mem_cons_self)

/-- The tokens of a text do not depend on what stands before it. -/
theorem Laid.moved (h : Laid before front sights) (before' : List Char) :
    ∃ moved, Laid before' front moved ∧ moved.map Sight.token? = sights.map Sight.token? := by
  induction h generalizing before' with
  | finish blank => exact ⟨_, .finish blank, rfl⟩
  | lexeme blank isLexeme ended _ ih =>
    obtain ⟨moved, laid, same⟩ := ih _
    exact ⟨_, .lexeme blank isLexeme ended laid, by simpa using same⟩

/-- A cut that a lexeme does not reach across lies in the blanks before it or behind it. -/
theorem cut_cases {lexeme : List Char} (same : front ++ back = gap ++ lexeme ++ rest)
    (clear : utf8Len (gap ++ lexeme) ≤ utf8Len front ∨ utf8Len front ≤ utf8Len gap) :
    (∃ more, gap = front ++ more ∧ back = more ++ lexeme ++ rest) ∨
      ∃ more, front = gap ++ lexeme ++ more ∧ rest = more ++ back := by
  rcases clear with behind | ahead
  · rcases List.append_eq_append_iff.mp same with ⟨more, longer, rfl⟩ | ⟨more, rfl, rfl⟩
    · have length := congrArg utf8Len longer
      rw [String.utf8Len_append front] at length
      obtain rfl : more = [] := String.utf8Len_eq_zero.mp (by omega)
      exact .inr ⟨[], by simpa using longer.symm, rfl⟩
    · exact .inr ⟨more, rfl, rfl⟩
  · rw [List.append_assoc] at same
    rcases List.append_eq_append_iff.mp same with ⟨more, rfl, rfl⟩ | ⟨more, longer, shorter⟩
    · exact .inl ⟨more, rfl, by simp⟩
    · have length := congrArg utf8Len longer
      rw [String.utf8Len_append gap] at length
      obtain rfl : more = [] := String.utf8Len_eq_zero.mp (by omega)
      exact .inl ⟨[], by simpa using longer.symm, by simpa using shorter.symm⟩

/-- More blanks between two lexemes leave all tokens as they are. -/
theorem Laid.widened {text : List Char} (h : Laid before text sights)
    (blank : ∀ c ∈ gap, isBlank c = true) (split : front ++ back = text)
    (clear : ∀ seen ∈ sights, seen.ClearOf (utf8Len (before ++ front))) :
    ∃ moved, Laid before (front ++ gap ++ back) moved ∧
      moved.map Sight.token? = sights.map Sight.token? := by
  induction h generalizing front with
  | @finish before all allBlank =>
    subst split
    obtain ⟨frontBlank, backBlank⟩ := List.forall_mem_append.mp allBlank
    have widerBlank := List.forall_mem_append.mpr
      ⟨List.forall_mem_append.mpr ⟨frontBlank, blank⟩, backBlank⟩
    exact ⟨_, .finish widerBlank, rfl⟩
  | @lexeme before ahead rest token sights aheadBlank isLexeme ended behind ih =>
    obtain ⟨clearFirst, clearRest⟩ := List.forall_mem_cons.mp clear
    have clearFirst := clearFirst token rfl
    simp only [String.utf8Len_append, ← utf8Len_spelling] at clearFirst
    rcases cut_cases split (by rw [String.utf8Len_append]; omega) with
      ⟨more, rfl, rfl⟩ | ⟨more, rfl, rfl⟩
    · obtain ⟨frontBlank, moreBlank⟩ := List.forall_mem_append.mp aheadBlank
      have widerBlank := List.forall_mem_append.mpr
        ⟨List.forall_mem_append.mpr ⟨frontBlank, blank⟩, moreBlank⟩
      obtain ⟨moved, laid, same⟩ :=
        behind.moved (before ++ (front ++ gap ++ more) ++ token.spelling.toList)
      have shape : front ++ gap ++ (more ++ token.spelling.toList ++ rest) =
          (front ++ gap ++ more) ++ token.spelling.toList ++ rest := by simp
      rw [shape]
      exact ⟨_, .lexeme widerBlank isLexeme ended laid, by simpa using same⟩
    · obtain ⟨moved, laid, same⟩ := ih rfl (by simpa only [List.append_assoc] using clearRest)
      have shape : ahead ++ token.spelling.toList ++ more ++ gap ++ back =
          ahead ++ token.spelling.toList ++ (more ++ gap ++ back) := by simp
      rw [shape]
      exact ⟨_, .lexeme aheadBlank isLexeme (ended.widened blank) laid, by simpa using same⟩

end Gaps

section Places

variable {before text : List Char} {token : Token} {sights : List Sight} {offset : ℕ}

theorem IsLexeme.width_pos (h : token.IsLexeme) : 0 < token.width := by
  have ended : token.EndedBy [] := by simp [EndedBy]
  obtain ⟨c, rest, front, -⟩ := exists_first_of_lexeme h ended
  rw [← utf8Len_spelling, ← List.append_nil token.spelling.toList, front, String.utf8Len_cons]
  exact Nat.lt_of_lt_of_le c.utf8Size_pos (Nat.le_add_left _ _)

/-- Whatever is seen in a text stands between two of its characters, or at one of its ends. -/
theorem Laid.exists_front (h : Laid before text sights) {seen : Sight} (member : seen ∈ sights) :
    ∃ front back, text = front ++ back ∧ seen.offset = utf8Len (before ++ front) := by
  induction h with
  | @finish before gap blank =>
    obtain rfl := List.mem_singleton.mp member
    exact ⟨gap, [], by simp, rfl⟩
  | @lexeme before gap rest token sights blank isLexeme ended _ ih =>
    rcases List.mem_cons.mp member with rfl | behind
    · exact ⟨gap, token.spelling.toList ++ rest, by simp, rfl⟩
    · obtain ⟨front, back, rfl, same⟩ := ih behind
      exact ⟨gap ++ token.spelling.toList ++ front, back, by simp, by simpa using same⟩

/-- No two things are seen at one place, and the places increase. -/
theorem Laid.pairwise_offset_lt (h : Laid before text sights) :
    sights.Pairwise fun seen later => seen.offset < later.offset := by
  induction h with
  | finish blank => exact List.pairwise_singleton _ _
  | @lexeme before gap rest token sights blank isLexeme ended laid ih =>
    refine List.pairwise_cons.mpr ⟨fun later member => ?_, ih⟩
    obtain ⟨front, back, -, same⟩ := laid.exists_front member
    have positive := isLexeme.width_pos
    rw [same]
    simp only [String.utf8Len_append, utf8Len_spelling]
    omega

/-- A text without tokens has a first lexeme that offends, and its error is placed at the first
character of this lexeme. -/
theorem exists_offends_of_listFrom {error : FormulaError}
    (h : listFrom offset text = .error error) :
    ∃ front lexeme back fault, text = front ++ lexeme ++ back ∧ Offends fault lexeme back ∧
      error = .malformed (offset + utf8Len front) fault ∧
      ∃ placed, listFrom offset front = .ok placed := by
  induction offset, text using listFrom.induct generalizing error with
  | case1 offset => simp [listFrom] at h
  | case2 offset c rest isBlank ih =>
    rw [listFrom, if_pos isBlank] at h
    obtain ⟨front, lexeme, back, fault, rfl, offends, rfl, placed, listed⟩ := ih h
    refine ⟨c :: front, lexeme, back, fault, rfl, offends, ?_, placed, ?_⟩
    · rw [String.utf8Len_cons, Nat.add_right_comm, Nat.add_assoc]
    · rw [listFrom, if_pos isBlank, listed]
  | case3 offset c rest notBlank fault reads =>
    rw [listFrom, if_neg notBlank] at h
    split at h
    · rename_i fault' reads'
      obtain rfl := Except.error.inj (reads'.symm.trans reads)
      cases h
      obtain ⟨lexeme, back, split, offends⟩ :=
        exists_offends_of_first (Bool.eq_false_iff.mpr notBlank) reads
      exact ⟨[], lexeme, back, _, split, offends, rfl, [], by rw [listFrom]⟩
    · simp_all
  | case4 offset c rest notBlank token after reads ih =>
    rw [listFrom, if_neg notBlank] at h
    split at h
    · simp_all
    · rename_i token' after' reads'
      obtain ⟨rfl, rfl⟩ := Prod.mk.inj (Except.ok.inj (reads'.symm.trans reads))
      obtain ⟨front, lexeme, back, fault, rfl, offends, rfl, placed, listed⟩ :=
        ih (map_eq_error.mp h)
      obtain ⟨split, isLexeme, ended⟩ := lexeme_of_first reads
      have endedFront : token'.EndedBy front := by
        intro d isHead
        obtain ⟨more, rfl⟩ := List.head?_eq_some_iff.mp isHead
        exact ended d rfl
      refine ⟨token'.spelling.toList ++ front, lexeme, back, fault, by simpa using split, offends,
        ?_, ⟨token', offset⟩ :: placed, ?_⟩
      · rw [String.utf8Len_append, utf8Len_spelling, Nat.add_assoc]
      · rw [listFrom_lexeme isLexeme endedFront, listed]
        rfl

end Places

theorem laid_iff_and_parse_widened :
    (∀ (text : String) (sights : List Sight),
      (∃ tokens, list text = .ok tokens ∧ Reader.sights text.utf8ByteSize tokens = sights) ↔
        Laid [] text.toList sights) ∧
    ∀ (front gap back : String) (tokens : List Placed), list (front ++ back) = .ok tokens →
      (∀ placed ∈ tokens, placed.sight.ClearOf front.utf8ByteSize) → isBlankText gap = true →
      (∃ moved, list (front ++ gap ++ back) = .ok moved ∧
        moved.map Placed.token = tokens.map Placed.token) ∧
      ∀ formula, Formula.parse (front ++ gap ++ back) = .ok formula ↔
        Formula.parse (front ++ back) = .ok formula := by
  refine ⟨fun text sights => laid_iff.symm, fun front gap back tokens listed clear blank => ?_⟩
  have clearSights : ∀ seen ∈ Reader.sights (front ++ back).utf8ByteSize tokens,
      seen.ClearOf (utf8Len ([] ++ front.toList)) := by
    intro seen member
    rw [List.nil_append, String.utf8Len_toList]
    rcases List.mem_append.mp member with isToken | isEnd
    · obtain ⟨placed, inside, rfl⟩ := List.mem_map.mp isToken
      exact clear placed inside
    · obtain rfl := List.mem_singleton.mp isEnd
      simp [Sight.ClearOf]
  obtain ⟨sights, laid, same⟩ := (laid_iff.mpr ⟨tokens, listed, rfl⟩).widened
    (List.all_eq_true.mp blank) String.toList_append.symm clearSights
  rw [← String.toList_append, ← String.toList_append, laid_iff] at laid
  obtain ⟨moved, listedMoved, rfl⟩ := laid
  have sameTokens : moved.map Placed.token = tokens.map Placed.token := by
    rw [Reader.map_token?_sights, Reader.map_token?_sights, List.append_left_inj] at same
    exact (List.map_inj_right fun _ _ => Option.some.inj).mp same
  refine ⟨⟨moved, listedMoved, sameTokens⟩, fun formula => ?_⟩
  simp only [Formula.parse_eq_ok, listed, listedMoved, Except.ok.injEq, exists_eq_left', sameTokens]

/-- Blanks between a sign and the quoted name behind it. -/
theorem parse_widened_quotedName :
    ∃ tokens, list ("y~(größe+" ++ "`b c`)**2") = .ok tokens ∧
      (∀ placed ∈ tokens, placed.sight.ClearOf "y~(größe+".utf8ByteSize) ∧
      isBlankText "\u2003\t" = true ∧
      (∃ moved, list ("y~(größe+" ++ "\u2003\t" ++ "`b c`)**2") = .ok moved ∧
        moved.map Placed.token = tokens.map Placed.token) ∧
      ∀ formula, Formula.parse ("y~(größe+" ++ "\u2003\t" ++ "`b c`)**2") = .ok formula ↔
        Formula.parse ("y~(größe+" ++ "`b c`)**2") = .ok formula := by
  let two : Token := .number (Decimal.toFloat (.finite false 2 0)) "2"
  let tokens : List Placed := [⟨.name "y", 0⟩, ⟨.tilde, 1⟩, ⟨.leftParen, 2⟩, ⟨.name "größe", 3⟩,
    ⟨.plus, 10⟩, ⟨.quoted "b c", 11⟩, ⟨.rightParen, 16⟩, ⟨.doubleStar, 17⟩, ⟨two, 19⟩]
  have listed : list ("y~(größe+" ++ "`b c`)**2") = .ok tokens := by decide +kernel
  have clear : ∀ placed ∈ tokens, placed.sight.ClearOf "y~(größe+".utf8ByteSize := by
    decide +kernel
  have blank : isBlankText "\u2003\t" = true := by decide +kernel
  exact ⟨tokens, listed, clear, blank, laid_iff_and_parse_widened.2 _ _ _ _ listed clear blank⟩

end Token

end DesignMatrix
