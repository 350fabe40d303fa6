import Mathlib.Data.List.Basic
import DesignMatrix.Proofs.HexCodes
import DesignMatrix.Proofs.TextFronts
import DesignMatrix.Yaml.Quoted
import DesignMatrix.Yaml.Writer

/-!
# Texts written between quotes in YAML

Between double quotes every text can be written: what is not printable is escaped, and no line is
ended. Between single quotes a text may go over several lines if no space stands at the end or at
the front of one. In both cases the text is read back up to the closing quote.
-/

namespace DesignMatrix.Yaml

open Fronts

/-! ## Between double quotes -/

theorem shortEscape?_of_escapeLetter? {c letter : Char} (h : escapeLetter? c = some letter) :
    shortEscape? letter = some c ∧ letter ≠ 'x' ∧ letter ≠ 'u' ∧ letter ≠ 'U' ∧
      isBreak letter = false ∧ isPrintable letter = true := by
  unfold escapeLetter? at h
  split at h <;> cases h <;> decide

theorem isBreak_iff {c : Char} : isBreak c = true ↔ c = '\n' ∨ c = '\u2028' ∨ c = '\u2029' := by
  simp [isBreak, or_assoc]

/-- A printable character is a gap only if it is a space or ends the line. -/
theorem eq_space_of_isGap {c : Char} (printable : isPrintable c = true) (inLine : isBreak c = false)
    (gap : isGap c = true) : c = ' ' := by
  rw [isGap, inLine, Bool.or_false, isBlank, Bool.or_eq_true, beq_iff_eq, beq_iff_eq] at gap
  refine gap.resolve_right ?_
  rintro rfl
  cases printable

/-- The character can stand between double quotes as it is. -/
def IsRaw (c : Char) : Prop :=
  isPrintable c = true ∧ isBreak c = false ∧ c ≠ '"' ∧ c ≠ '\\'

theorem escape_of_isRaw {c : Char} (raw : IsRaw c) : escape c = [c] := by
  rw [escape, if_pos]
  simpa [IsRaw, and_assoc] using raw

/-- A character that is not printable has at most four digits. -/
theorem small_of_not_isPrintable {c : Char} (h : isPrintable c = false) : c.toNat < 16 ^ 4 := by
  simp only [isPrintable, Bool.or_eq_false_iff, decide_eq_false_iff_not] at h
  omega

/-- A character that is escaped by its code is not printable. -/
theorem escape_of_not_isRaw {c : Char} (h : ¬IsRaw c) :
    (∃ letter, escapeLetter? c = some letter ∧ escape c = ['\\', letter]) ∨
      isPrintable c = false ∧ escape c = '\\' :: escapeCode c := by
  have escaped : ¬(isPrintable c && !isBreak c && c != '"' && c != '\\') = true := by
    simpa [IsRaw, and_assoc] using h
  rw [escape, if_neg escaped]
  cases letter : escapeLetter? c with
  | some letter' => exact .inl ⟨letter', rfl, rfl⟩
  | none =>
    refine .inr ⟨?_, rfl⟩
    by_contra printable
    rw [Bool.not_eq_false] at printable
    refine h ⟨printable, ?_, ?_, ?_⟩
    · rw [← Bool.not_eq_true, isBreak_iff]
      rintro (rfl | rfl | rfl) <;> cases letter
    · rintro rfl
      cases letter
    · rintro rfl
      cases letter

theorem readDouble?_escape (gap : Gap) {c : Char} (escaped : ¬IsRaw c) {rest : List Char}
    {read : Reading} (found : readDouble? .empty rest = some read) :
    readDouble? gap (escape c ++ rest) = some (.prepend (gap.text ++ [c]) read) := by
  rcases escape_of_not_isRaw escaped with ⟨letter, isLetter, written⟩ | ⟨code, written⟩
  · obtain ⟨meant, notTwo, notFour, notEight, inLine, -⟩ := shortEscape?_of_escapeLetter? isLetter
    simp only [written, List.cons_append, List.nil_append]
    rw [readDouble?.eq_6]
    · simp [inLine, meant, found]
    · exact fun _ _ _ code => absurd code notTwo
    · exact fun _ _ _ _ _ code => absurd code notFour
    · exact fun _ _ _ _ _ _ _ _ _ code => absurd code notEight
  · rw [written, escapeCode]
    split
    · have coded : Hex.coded? (Hex.fixedUpper 2 c.toNat) = some c :=
        Hex.coded?_fixedUpper (by omega)
      obtain ⟨a, b, digits⟩ : ∃ a b, Hex.fixedUpper 2 c.toNat = [a, b] := ⟨_, _, rfl⟩
      rw [digits] at coded
      simp only [digits, List.cons_append, List.nil_append]
      simp [readDouble?.eq_3, coded, found]
    · have coded := Hex.coded?_fixedUpper (small_of_not_isPrintable code)
      obtain ⟨a, b, d, e, digits⟩ : ∃ a b d e, Hex.fixedUpper 4 c.toNat = [a, b, d, e] :=
        ⟨_, _, _, _, rfl⟩
      rw [digits] at coded
      simp only [digits, List.cons_append, List.nil_append]
      simp [readDouble?.eq_4, coded, found]

theorem isPrintable_escape (c : Char) : ∀ d ∈ escape c, isPrintable d = true := by
  by_cases raw : IsRaw c
  · rw [escape_of_isRaw raw, List.forall_mem_singleton]
    exact raw.1
  · have digits (width n : ℕ) : ∀ d ∈ Hex.fixedUpper width n, isPrintable d = true :=
      Hex.forall_mem_fixedUpper (by decide) width n
    rcases escape_of_not_isRaw raw with ⟨letter, isLetter, written⟩ | ⟨-, written⟩
    · obtain ⟨-, -, -, -, -, printable⟩ := shortEscape?_of_escapeLetter? isLetter
      rw [written, List.forall_mem_cons, List.forall_mem_singleton]
      exact ⟨rfl, printable⟩
    · rw [written, escapeCode]
      split <;> exact List.forall_mem_cons.mpr ⟨rfl, List.forall_mem_cons.mpr ⟨rfl, digits _ _⟩⟩

theorem isPrintable_writeDouble (cs : List Char) :
    ∀ d ∈ writeDouble cs, isPrintable d = true := by
  intro d member
  simp only [writeDouble, List.cons_append, List.mem_cons, List.mem_append, List.mem_flatMap,
    List.not_mem_nil, or_false] at member
  rcases member with rfl | ⟨c, -, member⟩ | rfl
  · rfl
  · exact isPrintable_escape c d member
  · rfl

theorem writeDouble_append (cs rest : List Char) :
    writeDouble cs ++ rest = '"' :: (cs.flatMap escape ++ '"' :: rest) := by
  simp [writeDouble]

/-- A text between double quotes is read behind some blanks on its line. -/
theorem readDouble?_flatMap_escape (blanks cs rest : List Char) :
    readDouble? (.blanks blanks) (cs.flatMap escape ++ '"' :: rest) =
      some (blanks ++ cs, rest) := by
  induction cs generalizing blanks with
  | nil => simp [readDouble?, Gap.text]
  | cons c cs ih =>
    rw [List.flatMap_cons, List.append_assoc]
    by_cases raw : IsRaw c
    · rw [escape_of_isRaw raw, List.singleton_append]
      obtain ⟨printable, inLine, notQuote, notBackslash⟩ := raw
      rw [readDouble?.eq_7]
      · cases gap : isGap c with
        | true => simp [inLine, Gap.push, ih]
        | false =>
          have empty := ih []
          rw [← Gap.empty] at empty
          simp [inLine, empty, Reading.prepend, Gap.text]
      · exact notQuote
      · exact fun _ _ _ code => absurd code notBackslash
      · exact fun _ _ _ _ _ code => absurd code notBackslash
      · exact fun _ _ _ _ _ _ _ _ _ code => absurd code notBackslash
      · exact fun _ _ code => absurd code notBackslash
    · rw [readDouble?_escape (.blanks blanks) raw (ih [])]
      simp [Reading.prepend, Gap.text]

/-! ## Between single quotes -/

theorem hasPair_cons (p q : Char → Bool) (c : Char) (cs : List Char) :
    hasPair p q (c :: cs) = ((p c && cs.head?.any q) || hasPair p q cs) := by
  cases cs with
  | nil => simp [hasPair]
  | cons d cs => simp [hasPair]

/-- The text can be written between single quotes, with the line separators as its only breaks. -/
structure IsFoldable (cs : List Char) : Prop where
  printable : ∀ c ∈ cs, isPrintable c = true
  newline : '\n' ∉ cs
  trailing : hasPair (· == ' ') isBreak cs = false
  leading : hasPair isBreak (· == ' ') cs = false

theorem IsFoldable.of_cons {c : Char} {cs : List Char} (h : IsFoldable (c :: cs)) :
    IsFoldable cs := by
  obtain ⟨printable, newline, trailing, leading⟩ := h
  rw [hasPair_cons, Bool.or_eq_false_iff] at trailing leading
  exact ⟨fun d member => printable d (List.mem_cons_of_mem c member),
    fun member => newline (List.mem_cons_of_mem c member), trailing.2, leading.2⟩

/-- The gap has been read in front of a text, none of which it hides. -/
def Gap.Precedes : Gap → List Char → Prop
  | .blanks spaces, cs => spaces = [] ∨ ∀ c ∈ cs.head?, isBreak c = false
  | .breaks (some first) _, cs => first ≠ '\n' ∧ ∀ c ∈ cs.head?, c ≠ ' '
  | .breaks none _, _ => False

/-- Quotes are doubled. -/
def doubleQuotes (cs : List Char) : List Char :=
  cs.flatMap fun c => if c == '\'' then [c, c] else [c]

/-- The indentation in front of a closing quote that stands on a line of its own. -/
def closing (below : Bool) (cs : List Char) : List Char :=
  if cs.getLast?.elim below isBreak then indentation else []

theorem closing_cons (below : Bool) (c : Char) (cs : List Char) :
    closing below (c :: cs) = closing (isBreak c) cs := by
  unfold closing
  cases cs with
  | nil => rfl
  | cons d cs => simp [List.getLast?_cons]

theorem readSingle?_indentation {gap : Gap} (broken : gap.isBroken = true) (rest : List Char) :
    readSingle? gap (indentation ++ rest) = readSingle? gap rest := by
  cases gap with
  | blanks => cases broken
  | breaks first more => simp [indentation, readSingle?, Gap.push, isGap, isBlank, isBreak]

theorem readSingle?_indent (gap : Gap) (rest : List Char) :
    readSingle? gap ((if gap.isBroken then indentation else []) ++ rest) =
      readSingle? gap rest := by
  split
  · rename_i broken
    exact readSingle?_indentation broken rest
  · rfl

/-- No marker stands at the start of a line of the text, for what is no break is indented. -/
theorem startsMarker_indentLines (cs rest : List Char) (h : startsMarker rest = false) :
    startsMarker (indentLines true cs ++ rest) = false := by
  cases cs with
  | nil => exact h
  | cons c cs =>
    rw [indentLines]
    split
    · rename_i isBreak
      rw [isBreak_iff] at isBreak
      rcases isBreak with rfl | rfl | rfl <;> rfl
    · rfl

theorem Gap.text_breaks {first : Char} (h : first ≠ '\n') (more : List Char) :
    (Gap.breaks (some first) more).text = first :: more := by
  rw [Gap.text.eq_4]
  · rfl
  · rintro same -
    exact h (Option.some.inj same)
  · rintro same
    exact h (Option.some.inj same)

/-- A break behind a gap and in front of a text without leading spaces goes with the gap. -/
theorem Gap.Precedes.push_break {gap : Gap} {c : Char} {cs : List Char}
    (h : gap.Precedes (c :: cs)) (ends : isBreak c = true) (separator : c ≠ '\n')
    (leading : ∀ d ∈ cs.head?, d ≠ ' ') :
    (gap.push c).isBroken = true ∧ (gap.push c).Precedes cs ∧
      (gap.push c).text = gap.text ++ [c] := by
  cases gap with
  | blanks spaces =>
    obtain rfl : spaces = [] := h.resolve_right fun inLine => by
      cases ends.symm.trans (inLine c rfl)
    simp only [push, ends, if_true]
    exact ⟨rfl, ⟨separator, leading⟩, text_breaks separator []⟩
  | breaks first more =>
    cases first with
    | none => exact h.elim
    | some first =>
      simp only [push, ends, if_true]
      refine ⟨rfl, ⟨h.1, leading⟩, ?_⟩
      rw [text_breaks h.1, text_breaks h.1, List.cons_append]

theorem mem_indentLines {below : Bool} {cs : List Char} {d : Char}
    (member : d ∈ indentLines below cs) : d = ' ' ∨ d ∈ cs := by
  induction cs generalizing below with
  | nil => cases member
  | cons c cs ih =>
    rw [indentLines] at member
    split at member
    · rw [List.mem_cons] at member ⊢
      exact member.elim (fun same => .inr (.inl same)) fun later => (ih later).imp_right .inr
    · rw [List.mem_append, List.mem_cons] at member
      rw [List.mem_cons]
      rcases member with indented | same | later
      · left
        split at indented
        · simpa [indentation] using indented
        · cases indented
      · exact .inr (.inl same)
      · exact (ih later).imp_right .inr

/-- A text between single quotes from the front or the inside of a line on, with its closing quote
and what follows it. -/
def singleLines (below : Bool) (cs rest : List Char) : List Char :=
  indentLines below (doubleQuotes cs) ++ (closing below cs ++ '\'' :: rest)

theorem writeSingle_append (cs rest : List Char) :
    writeSingle cs ++ rest = '\'' :: singleLines false cs rest := by
  have last : (if cs.getLast?.any isBreak then indentation else []) = closing false cs := by
    unfold closing
    cases cs.getLast? <;> rfl
  simp only [writeSingle, singleLines, last, List.cons_append, List.append_assoc, List.nil_append]
  rfl

theorem isPrintable_writeSingle {cs : List Char} (printable : ∀ c ∈ cs, isPrintable c = true) :
    ∀ d ∈ writeSingle cs, isPrintable d = true := by
  have doubled : ∀ d ∈ doubleQuotes cs, isPrintable d = true := by
    intro d member
    obtain ⟨c, source, member⟩ := List.mem_flatMap.mp member
    have same : d = c := by
      split at member <;> simpa using member
    exact same ▸ printable c source
  have closed : ∀ d ∈ closing false cs, isPrintable d = true := by
    unfold closing
    split <;> exact forall_mem_of_all (by decide)
  intro d member
  rw [← List.append_nil (writeSingle cs), writeSingle_append, singleLines] at member
  simp only [List.mem_cons, List.mem_append, List.not_mem_nil, or_false] at member
  rcases member with rfl | text | last | rfl
  · rfl
  · rcases mem_indentLines text with rfl | source
    · rfl
    · exact doubled d source
  · exact closed d last
  · rfl

theorem singleLines_nil (below : Bool) (rest : List Char) :
    singleLines below [] rest = (if below then indentation else []) ++ '\'' :: rest := rfl

theorem singleLines_break {c : Char} (ends : isBreak c = true) (below : Bool)
    (cs rest : List Char) : singleLines below (c :: cs) rest = c :: singleLines true cs rest := by
  have notQuote : c ≠ '\'' := by
    rintro rfl
    cases ends
  simp [singleLines, doubleQuotes, closing_cons, indentLines, notQuote, ends]

theorem singleLines_quote (below : Bool) (cs rest : List Char) :
    singleLines below ('\'' :: cs) rest =
      (if below then indentation else []) ++ '\'' :: '\'' :: singleLines false cs rest := by
  simp [singleLines, doubleQuotes, closing_cons, indentLines, isBreak]

theorem singleLines_inLine {c : Char} (inLine : isBreak c = false) (notQuote : c ≠ '\'')
    (below : Bool) (cs rest : List Char) : singleLines below (c :: cs) rest =
      (if below then indentation else []) ++ c :: singleLines false cs rest := by
  simp [singleLines, doubleQuotes, closing_cons, indentLines, notQuote, inLine]

theorem startsMarker_singleLines (cs rest : List Char) :
    startsMarker (singleLines true cs rest) = false := by
  apply startsMarker_indentLines
  unfold closing
  split <;> rfl

theorem readSingle?_cons (gap : Gap) {c : Char} (notQuote : c ≠ '\'') (rest : List Char) :
    readSingle? gap (c :: rest) =
      if isBreak c && startsMarker rest then none
      else if isGap c then readSingle? (gap.push c) rest
      else (readSingle? .empty rest).map (.prepend (gap.text ++ [c])) := by
  rw [readSingle?.eq_4]
  · exact fun _ same => absurd same notQuote
  · exact notQuote

/-- A space that the gap in front does not hide goes with that gap. -/
theorem Gap.Precedes.push_space {gap : Gap} {cs : List Char} (h : gap.Precedes (' ' :: cs))
    (inLine : ∀ c ∈ cs.head?, isBreak c = false) :
    (gap.push ' ').isBroken = false ∧ (gap.push ' ').Precedes cs ∧
      (gap.push ' ').text = gap.text ++ [' '] := by
  cases gap with
  | blanks spaces => exact ⟨rfl, .inr inLine, rfl⟩
  | breaks first more =>
    cases first with
    | none => exact h.elim
    | some first => exact absurd rfl (h.2 ' ' rfl)

/-- A text between single quotes is read behind a gap. -/
theorem readSingle?_singleLines {cs : List Char} (foldable : IsFoldable cs) {gap : Gap}
    (precedes : gap.Precedes cs) {rest : List Char} (ended : rest.head? ≠ some '\'') :
    readSingle? gap (singleLines gap.isBroken cs rest) = some (gap.text ++ cs, rest) := by
  -- What the gap has read is still to be given out, so the gap is part of the invariant.
  induction cs generalizing gap with
  | nil =>
    rw [singleLines_nil, readSingle?_indent, readSingle?.eq_3, List.append_nil]
    rintro rest rfl
    exact ended rfl
  | cons c cs ih =>
    have rest' := foldable.of_cons
    have printable := foldable.printable c List.mem_cons_self
    have trailing := foldable.trailing
    have leading := foldable.leading
    rw [hasPair_cons, Bool.or_eq_false_iff, Bool.and_eq_false_imp] at trailing leading
    have hidden : Gap.empty.Precedes cs := .inl rfl
    have empty : readSingle? .empty (singleLines false cs rest) = some (cs, rest) := ih rest' hidden
    cases ends : isBreak c with
    | true =>
      have separator : c ≠ '\n' := fun same => foldable.newline (same ▸ List.mem_cons_self)
      have noSpace : ∀ d ∈ cs.head?, d ≠ ' ' := by
        rintro d same rfl
        simp [Option.mem_def.mp same, ends] at leading
      obtain ⟨broken, precedes', text⟩ := precedes.push_break ends separator noSpace
      have read := ih rest' precedes'
      rw [broken, text] at read
      have notQuote : c ≠ '\'' := by
        rintro rfl
        cases ends
      rw [singleLines_break ends, readSingle?_cons gap notQuote, startsMarker_singleLines]
      simp [isGap, ends, read]
    | false =>
      by_cases quote : c = '\''
      · subst quote
        rw [singleLines_quote, readSingle?_indent, readSingle?, empty]
        simp [Reading.prepend]
      · rw [singleLines_inLine ends quote, readSingle?_indent, readSingle?_cons gap quote]
        by_cases space : c = ' '
        · subst space
          have inLine : ∀ d ∈ cs.head?, isBreak d = false := by
            intro d same
            simpa [Option.mem_def.mp same] using trailing.1 rfl
          obtain ⟨unbroken, precedes', text⟩ := precedes.push_space inLine
          have read := ih rest' precedes'
          rw [unbroken, text] at read
          simp [isBreak, isGap, isBlank, read]
        · have noGap : isGap c = false := by
            by_contra gap
            exact space (eq_space_of_isGap printable ends (by simpa using gap))
          simp [ends, noGap, empty, Reading.prepend]

end DesignMatrix.Yaml
