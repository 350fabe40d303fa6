import DesignMatrix.Proofs.TextFronts
import DesignMatrix.Proofs.YamlQuoted
import DesignMatrix.Yaml.Plain

/-!
# Texts written without quotes in YAML

A text that can be written without quotes is one line of words. It is read back word by word up to
the end of the line, if the next line is not indented. A key is read up to its colon.
-/

namespace DesignMatrix.Yaml

open Fronts

/-- The text, or the rest of one behind some of its words, has nothing inside that ends a plain
scalar. -/
structure IsPlainText (cs : List Char) : Prop where
  inLine : ∀ c ∈ cs, isPrintable c = true ∧ isBreak c = false
  last : cs.getLast? ≠ some ' '
  inner : hasInnerIndicator cs = false

theorem hasInnerIndicator_of_append {front back : List Char}
    (h : hasInnerIndicator (front ++ back) = false) : hasInnerIndicator back = false := by
  induction front with
  | nil => exact h
  | cons c front ih =>
    rw [List.cons_append, hasInnerIndicator, Bool.or_eq_false_iff] at h
    exact ih h.2

theorem IsPlainText.of_append {front back : List Char} (h : IsPlainText (front ++ back)) :
    IsPlainText back where
  inLine c member := h.inLine c (List.mem_append_right front member)
  last same := h.last (by simp [List.getLast?_append, same])
  inner := hasInnerIndicator_of_append h.inner

/-- The words of a plain text are divided by spaces only. -/
theorem IsPlainText.isGap_eq {cs : List Char} (h : IsPlainText cs) :
    ∀ c ∈ cs, isGap c = (c == ' ') := by
  intro c member
  obtain ⟨printable, inLine⟩ := h.inLine c member
  by_cases space : c = ' '
  · subst space
    rfl
  · rw [beq_eq_false_iff_ne.mpr space]
    by_contra gap
    exact space (eq_space_of_isGap printable inLine (by simpa using gap))

theorem plainWord?_append {cs : List Char} (plain : IsPlainText cs) (rest : List Char) :
    plainWord? false (cs ++ '\n' :: rest) = some (cs.takeWhile (· != ' ')) := by
  induction cs with
  | nil => simp [plainWord?, isGap, isBreak]
  | cons c cs ih =>
    have gap := plain.isGap_eq c List.mem_cons_self
    have inner := plain.inner
    rw [hasInnerIndicator, Bool.or_eq_false_iff, Bool.or_eq_false_iff] at inner
    have noColon : ¬(c == ':' && atGap (cs ++ '\n' :: rest)) = true := by
      cases cs with
      | nil =>
        have notColon : c ≠ ':' := by simpa [atGap] using inner.1.1
        simp [notColon]
      | cons d cs => simpa [atGap] using inner.1.1
    by_cases space : c = ' '
    · subst space
      simp [plainWord?, isGap, isBlank]
    · have word : isGap c = false := by simp [gap, space]
      have tail : IsPlainText cs := (show IsPlainText ([c] ++ cs) from plain).of_append
      simp [plainWord?, word, noColon, ih tail, space]

theorem columnAfter_inLine {cs : List Char} (inLine : ∀ c ∈ cs, isBreak c = false) (column : ℕ) :
    columnAfter column cs = column + cs.length := by
  unfold columnAfter
  induction cs generalizing column with
  | nil => rfl
  | cons c cs ih =>
    obtain ⟨head, tail⟩ := List.forall_mem_cons.mp inLine
    rw [List.foldl_cons, head, ih tail, List.length_cons]
    simp only [Bool.false_eq_true, if_false]
    omega

section Spaces

variable {cs : List Char} (spaces : ∀ c ∈ cs, c = ' ')

include spaces

theorem ofList_spaces : Gap.ofList cs = .blanks cs := by
  have behind (front : List Char) : cs.foldl Gap.push (.blanks front) = .blanks (front ++ cs) := by
    induction cs generalizing front with
    | nil => simp
    | cons c cs ih =>
      obtain ⟨rfl, tail⟩ := List.forall_mem_cons.mp spaces
      simp [Gap.push, isBreak, ih tail]
  exact behind []

theorem tabInIndent_spaces (indent : ℕ) (below : Bool) (column : ℕ) :
    tabInIndent indent below column cs = false := by
  induction cs generalizing column with
  | nil => rfl
  | cons c cs ih =>
    obtain ⟨rfl, tail⟩ := List.forall_mem_cons.mp spaces
    simp [tabInIndent, isBreak, ih tail]

end Spaces

/-- A text with a word in it starts with some spaces, of which the first word is free. -/
theorem IsPlainText.exists_word {cs : List Char} (plain : IsPlainText cs) (nonempty : cs ≠ []) :
    ∃ spaces word more, cs = spaces ++ (word ++ more) ∧ (∀ c ∈ spaces, c = ' ') ∧ word ≠ [] ∧
      (∀ c ∈ word, c ≠ ' ') ∧ ∀ c ∈ more.head?, c = ' ' := by
  obtain ⟨spaces, words, rfl, areSpaces, starts⟩ := exists_front (· == ' ') cs
  obtain ⟨word, more, rfl, isWord, further⟩ := exists_front (· != ' ') words
  simp only [beq_iff_eq, bne_iff_ne, bne_eq_false_iff_eq, beq_eq_false_iff_ne]
    at areSpaces starts isWord further
  refine ⟨spaces, word, more, rfl, areSpaces, ?_, isWord, further⟩
  rintro rfl
  have noMore : more = [] := by
    cases more with
    | nil => rfl
    | cons c more => exact absurd (further c rfl) (starts c rfl)
  subst noMore
  simp only [List.append_nil] at nonempty plain
  have last := areSpaces _ (List.getLast_mem nonempty)
  exact plain.last (by rw [List.getLast?_eq_some_getLast nonempty, last])

/-- No comment starts behind the spaces in front of a word. -/
theorem IsPlainText.head?_ne {spaces cs : List Char} (plain : IsPlainText (spaces ++ cs))
    (areSpaces : ∀ c ∈ spaces, c = ' ') (spaced : spaces ≠ []) : cs.head? ≠ some '#' := by
  rw [← List.dropLast_append_getLast spaced, areSpaces _ (List.getLast_mem spaced),
    List.append_assoc] at plain
  have inner := plain.of_append.inner
  rw [List.singleton_append, hasInnerIndicator, Bool.or_eq_false_iff, Bool.or_eq_false_iff] at inner
  simpa [isGap, isBlank] using inner.1.2

/-- The scalar ends with its line. -/
theorem plainRest?_newline {indent : ℕ} {rest : List Char} (below : 0 < indent)
    (ended : ∀ c ∈ rest.head?, isGap c = false) (fuel column : ℕ) :
    plainRest? false indent (fuel + 1) column ('\n' :: rest) = some ⟨[], true, rest⟩ := by
  have newline : ∀ c ∈ ['\n'], isGap c = true := List.forall_mem_singleton.mpr rfl
  obtain ⟨blanks, behind⟩ := takeWhile_append_of_head? newline ended
  rw [List.singleton_append] at blanks behind
  have column' : columnAfter column ['\n'] = 0 := rfl
  have gap : Gap.ofList ['\n'] = .breaks (some '\n') [] := rfl
  simp [plainRest?, blanks, behind, column', below, gap, Gap.isBroken, tabInIndent, isBreak]

/-- The scalar goes on with the next word of its line. -/
theorem plainRest?_word {indent column : ℕ} {spaces word more : List Char}
    (plain : IsPlainText (spaces ++ (word ++ more))) (areSpaces : ∀ c ∈ spaces, c = ' ')
    (spaced : spaces ≠ []) (isWord : ∀ c ∈ word, c ≠ ' ') (inhabited : word ≠ [])
    (further : ∀ c ∈ more.head?, c = ' ') (indented : indent ≤ column) (fuel : ℕ)
    (rest : List Char) :
    plainRest? false indent (fuel + 1) column (spaces ++ (word ++ (more ++ '\n' :: rest))) =
      (plainRest? false indent fuel (column + spaces.length + word.length)
        (more ++ '\n' :: rest)).map fun scalar =>
          { scalar with text := spaces ++ word ++ scalar.text } := by
  have words : IsPlainText (word ++ more) := plain.of_append
  have noGap : ∀ c ∈ word, isGap c = false := fun c member => by
    rw [words.isGap_eq c (List.mem_append_left more member)]
    exact beq_eq_false_iff_ne.mpr (isWord c member)
  have areGaps : ∀ c ∈ spaces, isGap c = true := fun c member => by
    rw [areSpaces c member]
    rfl
  have ends : ∀ c ∈ (word ++ (more ++ '\n' :: rest)).head?, isGap c = false :=
    head?_append_of_forall noGap inhabited
  obtain ⟨blanks, behind⟩ := takeWhile_append_of_head? areGaps ends
  have read := plainWord?_append words rest
  have first : (word ++ more).takeWhile (· != ' ') = word :=
    (takeWhile_append_of_head? (by simpa using isWord) (by simpa using further)).1
  rw [first, List.append_assoc] at read
  have noComment : (word ++ (more ++ '\n' :: rest)).head? ≠ some '#' := by
    have head := plain.head?_ne areSpaces spaced
    rwa [List.head?_append_of_ne_nil _ inhabited] at head ⊢
  have column' : columnAfter column spaces = column + spaces.length :=
    columnAfter_inLine (fun c member => by rw [areSpaces c member]; rfl) column
  have spaces' : 0 < spaces.length := List.length_pos_iff.mpr spaced
  have indented' : ¬column + spaces.length < indent := by omega
  simp [-List.head?_append, plainRest?, blanks, behind, column', ofList_spaces areSpaces,
    tabInIndent_spaces areSpaces, spaced, read, noComment, indented', inhabited, Gap.text,
    Option.map_eq_bind]

theorem plainRest?_append {indent fuel column : ℕ} {cs rest : List Char} (plain : IsPlainText cs)
    (starts : ∀ c ∈ cs.head?, c = ' ') (enough : cs.length < fuel) (indented : indent ≤ column)
    (below : 0 < indent) (ended : ∀ c ∈ rest.head?, isGap c = false) :
    plainRest? false indent fuel column (cs ++ '\n' :: rest) = some ⟨cs, true, rest⟩ := by
  induction fuel generalizing cs column with
  | zero => omega
  | succ fuel ih =>
    by_cases nonempty : cs = []
    · subst nonempty
      exact plainRest?_newline below ended fuel column
    · obtain ⟨spaces, word, more, rfl, areSpaces, inhabited, isWord, further⟩ :=
        plain.exists_word nonempty
      have spaced : spaces ≠ [] := by
        rintro rfl
        obtain ⟨c, word, rfl⟩ := List.exists_cons_of_ne_nil inhabited
        exact isWord c List.mem_cons_self (starts c rfl)
      have spaces' : 0 < spaces.length := List.length_pos_iff.mpr spaced
      simp only [List.length_append] at enough
      have shorter : more.length < fuel := by omega
      have further' : indent ≤ column + spaces.length + word.length := by omega
      have read := ih plain.of_append.of_append further shorter further'
      rw [List.append_assoc, List.append_assoc, plainRest?_word plain areSpaces spaced isWord
        inhabited further indented, read]
      simp

/-- A plain text is read up to the end of its line if the next line starts with a word further to
the left. -/
theorem readPlain?_append {indent column : ℕ} {cs rest : List Char} (plain : IsPlainText cs)
    (indented : indent ≤ column) (below : 0 < indent) (ended : ∀ c ∈ rest.head?, isGap c = false) :
    readPlain? false indent column (cs ++ '\n' :: rest) = some ⟨cs, true, rest⟩ := by
  obtain ⟨word, more, rfl, isWord, starts⟩ := exists_front (· != ' ') cs
  have read := plainWord?_append plain rest
  rw [(takeWhile_append_of_head? isWord starts).1, List.append_assoc] at read
  simp only [bne_eq_false_iff_eq] at starts
  have enough : more.length < (word ++ (more ++ '\n' :: rest)).length := by
    simp only [List.length_append, List.length_cons]
    omega
  have further : indent ≤ column + word.length := by omega
  have read' := plainRest?_append plain.of_append starts enough further below ended
  rw [List.append_assoc, readPlain?, read]
  simp only [Option.bind_eq_bind, Option.bind_some, List.drop_left, read']

/-- A key is read up to its colon. -/
theorem readPlain?_key {key : List Char} (isWord : ∀ c ∈ key, isGap c = false ∧ c ≠ ':')
    (indent column : ℕ) (rest : List Char) :
    readPlain? false indent column (key ++ ':' :: ' ' :: rest) =
      some ⟨key, false, ':' :: ' ' :: rest⟩ := by
  have read : plainWord? false (key ++ ':' :: ' ' :: rest) = some key := by
    induction key with
    | nil => simp [plainWord?, isGap, isBlank, atGap]
    | cons c key ih =>
      obtain ⟨⟨noGap, noColon⟩, tail⟩ := List.forall_mem_cons.mp isWord
      simp [plainWord?, noGap, noColon, ih tail]
  have read' : plainRest? false indent (key ++ ':' :: ' ' :: rest).length (column + key.length)
      (':' :: ' ' :: rest) = some ⟨[], false, ':' :: ' ' :: rest⟩ := by
    simp [plainRest?, isGap, isBlank, isBreak]
  rw [readPlain?, read]
  simp only [Option.bind_eq_bind, Option.bind_some, List.drop_left, read', List.append_nil]

/-! ## Which texts are written so -/

theorem isPlainText_of_allowsPlain {cs : List Char} (h : allowsPlain cs = true) :
    IsPlainText cs := by
  simp only [allowsPlain, Bool.and_eq_true, Bool.not_eq_true', List.all_eq_true] at h
  obtain ⟨⟨⟨⟨inLine, -⟩, last⟩, -⟩, inner⟩ := h
  refine ⟨inLine, ?_, inner⟩
  intro same
  rw [same] at last
  cases last

theorem atGap_append (cs rest : List Char) : atGap (cs ++ '\n' :: rest) = atGap cs := by
  cases cs <;> rfl

theorem startsMarker_append {cs : List Char} (h : startsMarker cs = false)
    (nonempty : cs ≠ []) (rest : List Char) :
    startsMarker (cs ++ '\n' :: rest) = false := by
  rcases cs with _ | ⟨c, _ | ⟨d, _ | ⟨e, cs⟩⟩⟩
  · exact absurd rfl nonempty
  · unfold startsMarker
    split
    · rename_i same
      cases same
    · rename_i same
      cases same
    · rfl
  · unfold startsMarker
    split
    · rename_i same
      cases same
    · rename_i same
      cases same
    · rfl
  · unfold startsMarker at h ⊢
    split
    · rename_i same
      cases same
      simpa [atGap_append] using h
    · rename_i same
      cases same
      simpa [atGap_append] using h
    · rfl

/-- A plain scalar can start with the character if the rest follows it. -/
structure StartsPlain (c : Char) (rest : List Char) : Prop where
  unmarked : startsMarker (c :: rest) = false
  noIndicator : isIndicator c = false
  noEntry : ((c == '?' || c == ':' || c == '-') && atGap rest) = false

theorem startsPlain_of_startsWithIndicator {c : Char} {rest : List Char}
    (h : startsWithIndicator (c :: rest) = false) : StartsPlain c rest := by
  unfold startsWithIndicator at h
  split at h
  · cases h
  · cases h
  · rename_i noDashes noDots same
    cases same
    rw [Bool.or_eq_false_iff] at h
    refine ⟨?_, ?_, h.2⟩
    · unfold startsMarker
      split
      · rename_i same
        cases same
        exact (noDashes _ rfl rfl).elim
      · rename_i same
        cases same
        exact (noDots _ rfl rfl).elim
      · rfl
    · simpa [isLeadingIndicator, isIndicator, isFlowIndicator, and_assoc, and_left_comm] using h.1
  · rename_i same
    cases same
theorem StartsPlain.append {c : Char} {cs : List Char} (h : StartsPlain c cs) (rest : List Char) :
    StartsPlain c (cs ++ '\n' :: rest) where
  unmarked := startsMarker_append h.unmarked (List.cons_ne_nil c cs) rest
  noIndicator := h.noIndicator
  noEntry := by rw [atGap_append]; exact h.noEntry

end DesignMatrix.Yaml
