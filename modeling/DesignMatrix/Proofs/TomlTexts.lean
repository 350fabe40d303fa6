import Mathlib.Data.List.Basic
import DesignMatrix.Proofs.HexCodes
import DesignMatrix.Toml.Text
import DesignMatrix.Toml.Writer

/-!
# Texts written in TOML

A text that is written between quotes of some kind is read back, whatever follows it on its line.
Quotes that are not escaped must not look like the closing ones: the text has none, or it stands
between three of them and has never more than two in a row.
-/

namespace DesignMatrix.Toml

/-! ## Escapes -/

theorem shortEscape?_of_escapeLetter? {c letter : Char} (h : escapeLetter? c = some letter) :
    shortEscape? letter = some c ∧ letter ≠ 'u' ∧ letter ≠ 'U' ∧ isBlank letter = false ∧
      letter ≠ '\n' := by
  unfold escapeLetter? at h
  split at h <;> cases h <;> decide

/-- The character cannot stand between double quotes as it is. -/
def NeedsEscape (long : Bool) (c : Char) : Prop :=
  c = '\t' ∨ c = '\\' ∨ isControl c = true ∨ c = '\n' ∧ long = false

theorem small_of_needsEscape {long : Bool} {c : Char} (h : c = '"' ∨ NeedsEscape long c) :
    c.toNat < 16 ^ 4 := by
  rcases h with rfl | rfl | rfl | control | ⟨rfl, -⟩
  · decide
  · decide
  · decide
  · simp only [isControl, Bool.or_eq_true, Bool.and_eq_true, decide_eq_true_eq,
      beq_iff_eq] at control
    omega
  · decide

/-- A character that is no control character is printable, unless it ends the line. -/
theorem isPrintable_of_not_isControl {c : Char} (h : isControl c = false) (noBreak : c ≠ '\n') :
    isPrintable c = true := by
  simp only [isControl, bne, Bool.or_eq_false_iff, Bool.and_eq_false_imp, Bool.and_eq_true,
    decide_eq_true_eq, Bool.not_eq_true', beq_eq_false_iff_ne, ne_eq] at h
  grind [isPrintable]

theorem escaped_quote (long : Bool) (run : ℕ) (cs : List Char) :
    escaped long run ('"' :: cs) = if run < freeQuotes long then '"' :: escaped long (run + 1) cs
      else escape '"' ++ escaped long 0 cs := by
  simp [escaped]

theorem escaped_of_needsEscape {long : Bool} {c : Char} (notQuote : c ≠ '"')
    (h : NeedsEscape long c) (run : ℕ) (cs : List Char) :
    escaped long run (c :: cs) = escape c ++ escaped long 0 cs := by
  rw [escaped, if_neg notQuote, if_pos]
  simpa [NeedsEscape, or_assoc] using h

theorem escaped_of_not_needsEscape {long : Bool} {c : Char} (notQuote : c ≠ '"')
    (h : ¬NeedsEscape long c) (run : ℕ) (cs : List Char) :
    escaped long run (c :: cs) = c :: escaped long 0 cs := by
  rw [escaped, if_neg notQuote, if_neg]
  simpa [NeedsEscape, or_assoc] using h

/-! ## Between double quotes -/

theorem readBasic?_escape {c : Char} (small : c.toNat < 16 ^ 4) {rest : List Char}
    {read : Reading} (found : readBasic? rest = some read) :
    readBasic? (escape c ++ rest) = some (.prepend [c] read) := by
  cases letter : escapeLetter? c with
  | some letter' =>
    obtain ⟨meant, notShort, notLong, -⟩ := shortEscape?_of_escapeLetter? letter
    simp only [escape, letter, List.cons_append, List.nil_append]
    rw [readBasic?.eq_5]
    · simp [meant, found]
    · exact fun _ _ _ _ _ code => absurd code notShort
    · exact fun _ _ _ _ _ _ _ _ _ code => absurd code notLong
  | none =>
    have coded := Hex.coded?_fixedUpper small
    obtain ⟨a, b, d, e, digits⟩ : ∃ a b d e, Hex.fixedUpper 4 c.toNat = [a, b, d, e] :=
      ⟨_, _, _, _, rfl⟩
    rw [digits] at coded
    simp only [escape, letter, digits, List.cons_append, List.nil_append]
    simp [readBasic?.eq_3, coded, found]

theorem readBasic?_escaped (run : ℕ) (cs rest : List Char) :
    readBasic? (escaped false run cs ++ '"' :: rest) = some (cs, rest) := by
  induction cs generalizing run with
  | nil => rfl
  | cons c cs ih =>
    by_cases quote : c = '"'
    · subst quote
      rw [escaped_quote, if_neg (by simp [freeQuotes]), List.append_assoc]
      exact readBasic?_escape (by decide) (ih 0)
    · by_cases needs : NeedsEscape false c
      · rw [escaped_of_needsEscape quote needs, List.append_assoc]
        exact readBasic?_escape (small_of_needsEscape (.inr needs)) (ih 0)
      · rw [escaped_of_not_needsEscape quote needs, List.cons_append]
        simp only [NeedsEscape, not_or, not_and, not_true, imp_false, Bool.not_eq_true] at needs
        obtain ⟨-, notBackslash, plain, noBreak⟩ := needs
        rw [readBasic?.eq_6]
        · simp [isPrintable_of_not_isControl plain noBreak, ih, Reading.prepend]
        · exact quote
        · exact fun _ _ _ _ _ code => absurd code notBackslash
        · exact fun _ _ _ _ _ _ _ _ _ code => absurd code notBackslash
        · exact fun _ _ code => absurd code notBackslash

/-! ## Between single quotes -/

theorem readLiteral?_append {cs : List Char} (plain : ∀ c ∈ cs, c ≠ '\'' ∧ isPrintable c = true)
    (rest : List Char) : readLiteral? (cs ++ '\'' :: rest) = some (cs, rest) := by
  induction cs with
  | nil => rfl
  | cons c cs ih =>
    obtain ⟨⟨notQuote, printable⟩, tail⟩ := List.forall_mem_cons.mp plain
    rw [List.cons_append, readLiteral?.eq_3 c _ (by exact notQuote)]
    simp [printable, ih tail, Reading.prepend]

/-! ## Between three quotes -/

/-- The text starts with three quotes. -/
def StartsClosed (quote : Char) (cs : List Char) : Prop :=
  ∃ rest, cs = quote :: quote :: quote :: rest

theorem closeLong_of_head_ne {quote : Char} {rest : List Char} (h : rest.head? ≠ some quote) :
    closeLong quote rest = ([], rest) := by
  match rest with
  | [] => rfl
  | [c] => simp_all [closeLong]
  | c :: d :: rest => simp_all [closeLong]

theorem closeLong_cons {quote : Char} {rest : List Char} (h : rest.head? ≠ some quote) :
    closeLong quote (quote :: rest) = ([quote], rest) := by
  cases rest with
  | nil => simp [closeLong]
  | cons d rest => simp_all [closeLong]

theorem closeLong_cons_cons (quote : Char) (rest : List Char) :
    closeLong quote (quote :: quote :: rest) = ([quote, quote], rest) := by
  simp [closeLong]

theorem readLongBasic?_escape {c : Char} (small : c.toNat < 16 ^ 4) {rest : List Char}
    {read : Reading} (found : readLongBasic? false rest = some read) :
    readLongBasic? false (escape c ++ rest) = some (.prepend [c] read) := by
  cases letter : escapeLetter? c with
  | some letter' =>
    obtain ⟨meant, notShort, notLong, notBlank, notBreak⟩ := shortEscape?_of_escapeLetter? letter
    have inLine : endsLine (letter' :: rest) = false := by
      simp [endsLine, skipBlanks, notBlank, notBreak]
    simp only [escape, letter, List.cons_append, List.nil_append]
    rw [readLongBasic?.eq_5]
    · simp [meant, found, inLine]
    · exact fun _ _ _ _ _ code => absurd code notShort
    · exact fun _ _ _ _ _ _ _ _ _ code => absurd code notLong
  | none =>
    have coded := Hex.coded?_fixedUpper small
    obtain ⟨a, b, d, e, digits⟩ : ∃ a b d e, Hex.fixedUpper 4 c.toNat = [a, b, d, e] :=
      ⟨_, _, _, _, rfl⟩
    rw [digits] at coded
    simp only [escape, letter, digits, List.cons_append, List.nil_append]
    simp [readLongBasic?.eq_3, coded, found]

theorem readLongBasic?_cons {c : Char} {rest : List Char} {read : Reading}
    (notBackslash : c ≠ '\\') (allowed : isPrintable c = true ∨ c = '\n')
    (opened : ¬StartsClosed '"' (c :: rest)) (found : readLongBasic? false rest = some read) :
    readLongBasic? false (c :: rest) = some (.prepend [c] read) := by
  rw [readLongBasic?.eq_6]
  · rcases allowed with printable | rfl
    · simp [printable, found]
    · simp [found]
  · rintro rest rfl rfl
    exact opened ⟨rest, rfl⟩
  · exact fun _ _ _ _ _ code => absurd code notBackslash
  · exact fun _ _ _ _ _ _ _ _ _ code => absurd code notBackslash
  · exact fun _ _ code => absurd code notBackslash

theorem head?_escape (c : Char) (rest : List Char) : (escape c ++ rest).head? = some '\\' := by
  unfold escape
  split <;> rfl

/-- A quote behind as many as may stand in a row, or another character, is not written as a
quote. -/
theorem head?_escaped_ne {long : Bool} {c : Char} {run : ℕ} (h : c ≠ '"' ∨ freeQuotes long ≤ run)
    (cs rest : List Char) : (escaped long run (c :: cs) ++ rest).head? ≠ some '"' := by
  by_cases quote : c = '"'
  · subst quote
    have full : ¬run < freeQuotes long := by simpa using h
    rw [escaped_quote, if_neg full, List.append_assoc, head?_escape]
    decide
  · by_cases needs : NeedsEscape long c
    · rw [escaped_of_needsEscape quote needs, List.append_assoc, head?_escape]
      decide
    · rw [escaped_of_not_needsEscape quote needs]
      simpa using quote

theorem head?_escaped_ne_newline {c : Char} (h : c ≠ '\n') (cs rest : List Char) :
    (escaped true 0 (c :: cs) ++ rest).head? ≠ some '\n' := by
  by_cases quote : c = '"'
  · subst quote
    exact (by decide : some '"' ≠ some '\n')
  · by_cases needs : NeedsEscape true c
    · rw [escaped_of_needsEscape quote needs, List.append_assoc, head?_escape]
      decide
    · rw [escaped_of_not_needsEscape quote needs]
      simpa using h

/-- Quotes that are not escaped look like the closing ones only where these follow. -/
theorem eq_of_startsClosed {run : ℕ} {cs rest : List Char}
    (h : StartsClosed '"' ('"' :: (escaped true (run + 1) cs ++ '"' :: '"' :: '"' :: rest))) :
    cs = [] ∨ cs = ['"'] ∧ run = 0 := by
  obtain ⟨behind, same⟩ := h
  have next := (List.cons.inj same).2
  match cs with
  | [] => exact .inl rfl
  | c :: cs =>
    by_cases quote : c = '"' ∧ run + 1 < 2
    · obtain ⟨rfl, first⟩ := quote
      obtain rfl : run = 0 := by omega
      rw [escaped_quote, if_pos (by decide)] at next
      have third := (List.cons.inj next).2
      match cs with
      | [] => exact .inr ⟨rfl, rfl⟩
      | c :: cs => exact absurd (congrArg List.head? third) (head?_escaped_ne (.inr le_rfl) cs _)
    · have written : c ≠ '"' ∨ freeQuotes true ≤ run + 1 :=
        or_iff_not_imp_left.mpr fun h => Nat.not_lt.mp fun few => quote ⟨of_not_not h, few⟩
      exact absurd (congrArg List.head? next) (head?_escaped_ne written cs _)

/-- What is escaped between three double quotes is read up to the closing ones. -/
theorem readLongBasic?_escaped (run : ℕ) (cs : List Char) {rest : List Char}
    (ended : rest.head? ≠ some '"') :
    readLongBasic? false (escaped true run cs ++ '"' :: '"' :: '"' :: rest) = some (cs, rest) := by
  induction cs generalizing run with
  | nil => simp [escaped, readLongBasic?, closeLong_of_head_ne ended]
  | cons c cs ih =>
    by_cases quote : c = '"'
    · subst quote
      rw [escaped_quote]
      split
      · rw [List.cons_append]
        by_cases closed :
            StartsClosed '"' ('"' :: (escaped true (run + 1) cs ++ '"' :: '"' :: '"' :: rest))
        · rcases eq_of_startsClosed closed with rfl | ⟨rfl, rfl⟩
          · simp [escaped, readLongBasic?, closeLong_cons ended]
          · simp [escaped, freeQuotes, readLongBasic?, closeLong_cons_cons]
        · exact readLongBasic?_cons (by decide) (.inl (by decide)) closed (ih (run + 1))
      · rw [List.append_assoc]
        exact readLongBasic?_escape (by decide) (ih 0)
    · by_cases needs : NeedsEscape true c
      · rw [escaped_of_needsEscape quote needs, List.append_assoc]
        exact readLongBasic?_escape (small_of_needsEscape (.inr needs)) (ih 0)
      · rw [escaped_of_not_needsEscape quote needs, List.cons_append]
        simp only [NeedsEscape, not_or, not_and, Bool.not_eq_true] at needs
        have allowed : isPrintable c = true ∨ c = '\n' :=
          or_iff_not_imp_right.mpr (isPrintable_of_not_isControl needs.2.2.1)
        refine readLongBasic?_cons needs.2.1 allowed ?_ (ih 0)
        rintro ⟨behind, same⟩
        exact quote (List.cons.inj same).1

theorem readLongLiteral?_cons {c : Char} {rest : List Char} {read : Reading}
    (allowed : isPrintable c = true ∨ c = '\n') (opened : ¬StartsClosed '\'' (c :: rest))
    (found : readLongLiteral? rest = some read) :
    readLongLiteral? (c :: rest) = some (.prepend [c] read) := by
  rw [readLongLiteral?.eq_3]
  · rcases allowed with printable | rfl
    · simp [printable, found]
    · simp [found]
  · rintro rest rfl rfl
    exact opened ⟨rest, rfl⟩

theorem le_longestRun (quote : Char) (run : ℕ) (cs : List Char) :
    run ≤ longestRun quote run cs := by
  induction cs generalizing run with
  | nil => exact le_rfl
  | cons c cs ih =>
    unfold longestRun
    split
    · exact (Nat.le_succ run).trans (ih (run + 1))
    · exact Nat.le_max_left _ _

/-- Of a text with at most two quotes in a row, three quotes are the closing ones. -/
theorem readLongLiteral?_append {cs : List Char} {run : ℕ}
    (allowed : ∀ c ∈ cs, isPrintable c = true ∨ c = '\n')
    (short : longestRun '\'' run cs ≤ 2) {rest : List Char} (ended : rest.head? ≠ some '\'') :
    readLongLiteral? (cs ++ '\'' :: '\'' :: '\'' :: rest) = some (cs, rest) := by
  induction cs generalizing run with
  | nil => simp [readLongLiteral?, closeLong_of_head_ne ended]
  | cons c cs ih =>
    obtain ⟨head, tail⟩ := List.forall_mem_cons.mp allowed
    unfold longestRun at short
    split at short
    · rename_i quote
      subst quote
      by_cases closed : StartsClosed '\'' ('\'' :: (cs ++ '\'' :: '\'' :: '\'' :: rest))
      · obtain ⟨behind, same⟩ := closed
        have next := (List.cons.inj same).2
        match cs with
        | [] => simp [readLongLiteral?, closeLong_cons ended]
        | [d] =>
          obtain rfl : d = '\'' := (List.cons.inj next).1
          simp [readLongLiteral?, closeLong_cons_cons]
        | d :: e :: cs =>
          obtain ⟨rfl, second⟩ := List.cons.inj next
          obtain rfl : e = '\'' := (List.cons.inj second).1
          have long := (le_longestRun '\'' (run + 3) cs).trans short
          omega
      · exact readLongLiteral?_cons head closed (ih tail short)
    · rename_i notQuote
      refine readLongLiteral?_cons head ?_ (ih tail ((Nat.le_max_right _ _).trans short))
      rintro ⟨behind, same⟩
      exact notQuote (List.cons.inj same).1

/-! ## All kinds of quotes -/

theorem readText?_double {cs : List Char} (h : ¬StartsClosed '"' ('"' :: cs)) :
    readText? ('"' :: cs) = readBasic? cs := by
  rw [readText?.eq_2]
  rintro rest rfl
  exact h ⟨rest, rfl⟩

theorem readText?_single {cs : List Char} (h : ¬StartsClosed '\'' ('\'' :: cs)) :
    readText? ('\'' :: cs) = readLiteral? cs := by
  rw [readText?.eq_4]
  rintro rest rfl
  exact h ⟨rest, rfl⟩

theorem readText?_writeBasic (cs : List Char) {rest : List Char} (ended : rest.head? ≠ some '"') :
    readText? (writeBasic cs ++ rest) = some (cs, rest) := by
  have written : writeBasic cs ++ rest = '"' :: (escaped false 0 cs ++ '"' :: rest) := by
    simp [writeBasic]
  rw [written, readText?_double, readBasic?_escaped]
  rintro ⟨behind, same⟩
  have next := (List.cons.inj same).2
  cases cs with
  | nil => exact ended (congrArg List.head? (List.cons.inj next).2)
  | cons c cs =>
    exact head?_escaped_ne (.inr (Nat.zero_le _)) cs ('"' :: rest) (congrArg List.head? next)

theorem readText?_writeLiteral {cs : List Char}
    (plain : ∀ c ∈ cs, c ≠ '\'' ∧ isPrintable c = true) {rest : List Char}
    (ended : rest.head? ≠ some '\'') : readText? (writeLiteral cs ++ rest) = some (cs, rest) := by
  have written : writeLiteral cs ++ rest = '\'' :: (cs ++ '\'' :: rest) := by
    simp [writeLiteral]
  rw [written, readText?_single, readLiteral?_append plain]
  rintro ⟨behind, same⟩
  have next := (List.cons.inj same).2
  cases cs with
  | nil => exact ended (congrArg List.head? (List.cons.inj next).2)
  | cons c cs => exact (plain c List.mem_cons_self).1 (List.cons.inj next).1

/-- The newline in front of a text of several lines is dropped, and no other is. -/
theorem dropNewline_opening {cs body : List Char} (h : '\n' ∉ cs → body.head? ≠ some '\n') :
    dropNewline ((if '\n' ∈ cs then ['\n'] else []) ++ body) = body := by
  split
  · rfl
  · rename_i oneLine
    rw [List.nil_append, dropNewline.eq_2]
    rintro rest rfl
    exact h oneLine rfl

theorem readText?_writeLongBasic (cs : List Char) {rest : List Char}
    (ended : rest.head? ≠ some '"') :
    readText? (writeLongBasic cs ++ rest) = some (cs, rest) := by
  have written : writeLongBasic cs ++ rest = '"' :: '"' :: '"' ::
      ((if '\n' ∈ cs then ['\n'] else []) ++
        (escaped true 0 cs ++ '"' :: '"' :: '"' :: rest)) := by
    simp [writeLongBasic, writeLong]
  rw [written, readText?, dropNewline_opening, readLongBasic?_escaped 0 cs ended]
  intro oneLine
  cases cs with
  | nil => exact (by decide : some '"' ≠ some '\n')
  | cons c cs =>
    have inside : c ≠ '\n' := fun same => oneLine (List.mem_cons.mpr (.inl same.symm))
    exact head?_escaped_ne_newline inside cs _

theorem readText?_writeLongLiteral {cs : List Char}
    (allowed : ∀ c ∈ cs, isPrintable c = true ∨ c = '\n') (short : longestRun '\'' 0 cs ≤ 2)
    {rest : List Char} (ended : rest.head? ≠ some '\'') :
    readText? (writeLongLiteral cs ++ rest) = some (cs, rest) := by
  have written : writeLongLiteral cs ++ rest = '\'' :: '\'' :: '\'' ::
      ((if '\n' ∈ cs then ['\n'] else []) ++ (cs ++ '\'' :: '\'' :: '\'' :: rest)) := by
    simp [writeLongLiteral, writeLong]
  rw [written, readText?, dropNewline_opening, readLongLiteral?_append allowed short ended]
  intro oneLine
  cases cs with
  | nil => exact (by decide : some '\'' ≠ some '\n')
  | cons c cs => exact fun same => oneLine (List.mem_cons.mpr (.inl (Option.some.inj same).symm))

theorem notMem_of_longestRun {quote : Char} {cs : List Char} {run : ℕ}
    (h : longestRun quote run cs = 0) : quote ∉ cs := by
  induction cs generalizing run with
  | nil => exact List.not_mem_nil
  | cons c cs ih =>
    unfold longestRun at h
    split at h
    · have := le_longestRun quote (run + 1) cs
      omega
    · rename_i other
      have rest : longestRun quote 0 cs = 0 := by omega
      exact List.not_mem_cons_of_ne_of_not_mem (Ne.symm other) (ih rest)

/-- A text is read as it was written, between whichever quotes. -/
theorem readText?_writeText (cs : List Char) {rest : List Char} (ended : rest.head? ≠ some '"')
    (ended' : rest.head? ≠ some '\'') : readText? (writeText cs ++ rest) = some (cs, rest) := by
  have printable (plain : cs.any isControl = false) (c : Char) (member : c ∈ cs) :
      isPrintable c = true ∨ c = '\n' :=
    or_iff_not_imp_right.mpr (isPrintable_of_not_isControl
      (by simpa using List.any_eq_false.mp plain c member))
  unfold writeText
  simp only
  split
  · exact readText?_writeBasic cs ended
  split
  · rename_i literal
    simp only [Bool.and_eq_true, Bool.not_eq_true', decide_eq_true_eq, decide_eq_false_iff_not]
      at literal
    obtain ⟨⟨plain, unquoted⟩, oneLine⟩ := literal
    refine readText?_writeLiteral (fun c member => ⟨?_, ?_⟩) ended'
    · rintro rfl
      exact notMem_of_longestRun unquoted member
    · refine (printable plain c member).resolve_right ?_
      rintro rfl
      exact oneLine member
  split
  · exact readText?_writeLongBasic cs ended
  split
  · rename_i literal
    simp only [Bool.and_eq_true, Bool.not_eq_true', decide_eq_true_eq] at literal
    exact readText?_writeLongLiteral (printable literal.1) literal.2 ended'
  split
  · exact readText?_writeLongBasic cs ended
  · exact readText?_writeBasic cs ended

/-! ## Line ends -/

theorem notMem_escape (c : Char) : '\r' ∉ escape c := by
  cases letter : escapeLetter? c with
  | some letter' =>
    have plain : letter' ≠ '\r' := by
      rintro rfl
      exact absurd (shortEscape?_of_escapeLetter? letter).1 (by simp [shortEscape?])
    simpa [escape, letter] using plain.symm
  | none =>
    have digits := Hex.forall_mem_fixedUpper (p := (· ≠ '\r')) (by decide) 4 c.toNat
    simp only [escape, letter, List.mem_cons, not_or]
    exact ⟨by decide, by decide, fun member => digits _ member rfl⟩

theorem notMem_escaped (long : Bool) (run : ℕ) (cs : List Char) : '\r' ∉ escaped long run cs := by
  induction cs generalizing run with
  | nil => exact List.not_mem_nil
  | cons c cs ih =>
    by_cases quote : c = '"'
    · subst quote
      rw [escaped_quote]
      split
      · exact List.not_mem_cons_of_ne_of_not_mem (by decide) (ih _)
      · exact fun member => (List.mem_append.mp member).elim (notMem_escape _) (ih _)
    · by_cases needs : NeedsEscape long c
      · rw [escaped_of_needsEscape quote needs]
        exact fun member => (List.mem_append.mp member).elim (notMem_escape _) (ih _)
      · rw [escaped_of_not_needsEscape quote needs]
        refine List.not_mem_cons_of_ne_of_not_mem ?_ (ih _)
        rintro rfl
        exact needs (.inr (.inr (.inl (by decide))))

/-- No carriage return is written as it is, so that no line end changes when the text is read. -/
theorem notMem_writeText (cs : List Char) : '\r' ∉ writeText cs := by
  have plain (h : cs.any isControl = false) : '\r' ∉ cs := fun member =>
    absurd (List.any_eq_false.mp h _ member) (by decide)
  have basic : '\r' ∉ writeBasic cs := by
    simp [writeBasic, notMem_escaped]
  have longBasic : '\r' ∉ writeLongBasic cs := by
    unfold writeLongBasic writeLong
    split <;> simp [notMem_escaped]
  unfold writeText
  simp only
  split
  · exact basic
  split
  · rename_i literal
    simp only [Bool.and_eq_true, Bool.not_eq_true'] at literal
    simp [writeLiteral, plain literal.1.1]
  split
  · exact longBasic
  split
  · rename_i literal
    simp only [Bool.and_eq_true, Bool.not_eq_true'] at literal
    unfold writeLongLiteral writeLong
    split <;> simp [plain literal.1]
  split
  · exact longBasic
  · exact basic

end DesignMatrix.Toml
