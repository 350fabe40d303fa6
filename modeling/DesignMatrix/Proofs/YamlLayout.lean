import DesignMatrix.Proofs.YamlBlocks
import DesignMatrix.Proofs.YamlPlain
import DesignMatrix.Yaml.Layout

/-!
# Members read as tokens

The lines of a block mapping without indentation are read member by member: a key, its colon, and a
value in the style in which it is written. The first key opens the mapping, which the end of the
text closes.
-/

namespace DesignMatrix.Yaml

/-! ## Places in a text -/

theorem Cursor.upTo_append (cs rest : List Char) (line column : ℕ) :
    (⟨cs ++ rest, line, column⟩ : Cursor).upTo rest =
      ⟨rest, line + cs.countP isBreak, columnAfter column cs⟩ := by
  have length : (cs ++ rest).length - rest.length = cs.length := by
    rw [List.length_append, Nat.add_sub_cancel]
  simp only [Cursor.upTo, length]
  induction cs generalizing line column with
  | nil => rfl
  | cons c cs ih =>
    have further := ih
    simp only [List.length_append, Nat.add_sub_cancel, forall_const] at further
    rw [List.length_cons, Cursor.advance, List.cons_append, Cursor.next]
    split
    · rename_i ends
      rw [further, List.countP_cons_of_pos ends]
      simp [columnAfter, ends]
      omega
    · rename_i inLine
      rw [further, List.countP_cons_of_neg inLine]
      simp [columnAfter, inLine]

theorem columnAfter_eq_zero {cs : List Char} (ends : cs.getLast?.any isBreak = true) (column : ℕ) :
    columnAfter column cs = 0 := by
  rcases cs.eq_nil_or_concat with rfl | ⟨front, last, rfl⟩
  · cases ends
  · have isLast : isBreak last = true := by simpa using ends
    simp [columnAfter, isLast]

/-- No blanks or comments stand in front of a word. -/
theorem spacing_of_head? {keyAllowed lineStart : Bool} {cs : List Char}
    (h : ∀ c ∈ cs.head?, isGap c = false ∧ c ≠ '#' ∧ (lineStart = true → c ≠ byteOrderMark)) :
    spacing false keyAllowed lineStart false cs = (0, keyAllowed) := by
  cases cs with
  | nil => rfl
  | cons c cs =>
    obtain ⟨noGap, noComment, noMark⟩ := h c rfl
    simp only [isGap, isBlank, Bool.or_eq_false_iff, beq_eq_false_iff_ne] at noGap
    obtain ⟨⟨noSpace, noTab⟩, inLine⟩ := noGap
    cases lineStart <;> simp_all [spacing]

namespace Layout

/-! ## Runs -/

/-- From a place in front of a token all tokens can be read with some fuel. -/
def Reads (fuel : ℕ) (layout : Layout) (tokens : List Token) : Prop :=
  ∀ before : Layout, before.approach? = some layout → before.run? fuel = some tokens

theorem Reads.step {fuel : ℕ} {layout after next : Layout} {tokens : List Token}
    (notEnd : layout.cursor.rest ≠ []) (step : layout.step? = some after)
    (approach : after.approach? = some next) (reads : Reads fuel next tokens) :
    Reads (fuel + 1) layout tokens := by
  intro before found
  simp [run?, found, notEnd, step, reads after approach]

/-- A place at the start of a line where a key may start. -/
def atKey (rest : List Char) (line : ℕ) (tokens : List Token) (columns : List ℕ) : Layout :=
  ⟨⟨rest, line, 0⟩, tokens, columns, none, [], true⟩

/-- A place behind the colon of a key that starts a line. -/
def atValue (rest : List Char) (line column : ℕ) (tokens : List Token) : Layout :=
  ⟨⟨rest, line, column⟩, tokens, [0], none, [], false⟩

theorem Reads.end (fuel line : ℕ) (tokens : List Token) :
    Reads (fuel + 1) (atKey [] line tokens [0]) (tokens.reverse ++ [.blockEnd]) := by
  intro before found
  simp [run?, found, atKey, closeAll, inFlow, dropCandidate?]

theorem step?_eq_plain? {layout : Layout} {c : Char} {rest : List Char} (block : layout.outer = [])
    (text : layout.cursor.rest = c :: rest) (starts : StartsPlain c rest) (word : isGap c = false) :
    layout.step? = layout.plain? := by
  obtain ⟨unmarked, noIndicator, noEntry⟩ := starts
  have indicators := noIndicator
  simp only [isIndicator, isFlowIndicator, Bool.or_eq_false_iff, beq_eq_false_iff_ne] at indicators
  rw [Bool.and_or_distrib_right, Bool.and_or_distrib_right, Bool.or_eq_false_iff,
    Bool.or_eq_false_iff] at noEntry
  obtain ⟨⟨mark, colon⟩, dash⟩ := noEntry
  simp [step?, text, unmarked, inFlow, block, word, noIndicator, indicators, colon, dash, mark]

/-! ## Keys -/

/-- A text that is read as a key at the start of a line. -/
structure IsKey (key : List Char) : Prop where
  starts : ∀ c ∈ key.head?, c.isAlpha = true
  word : ∀ c ∈ key, isWord c = true
  nonempty : key ≠ []
  short : key.length ≤ longestKey

theorem ne_of_isWord {c : Char} (word : isWord c = true) :
    isGap c = false ∧ c ≠ ':' ∧ c ≠ '#' ∧ c ≠ byteOrderMark := by
  refine ⟨?_, ?_, ?_, ?_⟩
  · by_contra gap
    simp only [Bool.not_eq_false, isGap, isBlank, isBreak, Bool.or_eq_true, beq_iff_eq] at gap
    rcases gap with (rfl | rfl) | (rfl | rfl) | rfl <;> cases word
  all_goals
    rintro rfl
    cases word

theorem startsPlain_of_isAlpha {c : Char} (letter : c.isAlpha = true) (rest : List Char) :
    StartsPlain c rest := by
  have ne (d : Char) (h : d.isAlpha = false) : c ≠ d := by
    rintro rfl
    cases h.symm.trans letter
  refine ⟨?_, ?_, ?_⟩
  · unfold startsMarker
    split
    · rename_i same
      cases same
      cases letter
    · rename_i same
      cases same
      cases letter
    · rfl
  · simp [isIndicator, isFlowIndicator, ne]
  · simp [ne]

/-- The tokens so far, with the start of the mapping if no mapping is open. -/
def opened (columns : List ℕ) (tokens : List Token) : List Token :=
  if columns = [] then .blockMapping :: tokens else tokens

/-- A key that has been read and whose colon comes next. -/
def atColon (key text : List Char) (line : ℕ) (tokens : List Token) (columns : List ℕ) : Layout :=
  ⟨⟨':' :: ' ' :: text, line, key.length⟩, .scalar .plain (String.ofList key) :: tokens, columns,
    some ⟨columns.head? == some 0, tokens.length, line, 0⟩, [], false⟩

section Key

variable {key text : List Char} {line : ℕ} {tokens : List Token} {columns : List ℕ}
  (isKey : IsKey key) (atLeft : columns = [] ∨ columns = [0])

include isKey

theorem step?_atKey : (atKey (key ++ ':' :: ' ' :: text) line tokens columns).step? =
    some (atColon key text line tokens columns) := by
  have noGap : ∀ c ∈ key, isGap c = false ∧ c ≠ ':' := fun c member =>
    ⟨(ne_of_isWord (isKey.word c member)).1, (ne_of_isWord (isKey.word c member)).2.1⟩
  have inLine : ∀ c ∈ key, isBreak c = false := fun c member =>
    (Bool.or_eq_false_iff.mp (noGap c member).1).2
  have read := readPlain?_key noGap ((columns.head?.map (· + 1)).getD 0) 0 text
  have noBreak : key.countP isBreak = 0 := List.countP_eq_zero.mpr (by simpa using inLine)
  have place := Cursor.upTo_append key (':' :: ' ' :: text) line 0
  rw [noBreak, columnAfter_inLine inLine, Nat.add_zero, Nat.zero_add] at place
  obtain ⟨c, more, rfl⟩ := List.exists_cons_of_ne_nil isKey.nonempty
  rw [step?_eq_plain? rfl rfl (startsPlain_of_isAlpha (isKey.starts c rfl) _)
    (noGap c List.mem_cons_self).1]
  simp only [List.cons_append] at read place
  simp [plain?, noteCandidate?, dropCandidate?, atKey, inFlow, contentColumn, read, place, push,
    atColon]

include atLeft

theorem approach?_atColon : (atColon key text line tokens columns).approach? =
    some (atColon key text line tokens columns) := by
  have near : ¬longestKey < key.length := Nat.not_lt.mpr isKey.short
  rcases atLeft with rfl | rfl <;>
    simp [approach?, atColon, spacing, isBreak, Cursor.advance, KeyCandidate.at?, near, closeBlocks,
      inFlow, byteOrderMark]

omit isKey in
theorem step?_atColon : (atColon key text line tokens columns).step? =
    some (atValue (' ' :: text) line (key.length + 1)
      (.value :: .scalar .plain (String.ofList key) :: .key :: opened columns tokens)) := by
  have unmarked : startsMarker (':' :: ' ' :: text) = false := rfl
  have value : (atColon key text line tokens columns).step? =
      (atColon key text line tokens columns).value? := by
    simp [step?, atColon, unmarked, inFlow, atGap, isGap, isBlank]
  have later : tokens.length + 1 + 1 - tokens.length = 2 := by omega
  rw [value]
  rcases atLeft with rfl | rfl <;>
    simp [value?, atColon, insert, openBlock, inFlow, push, Cursor.next, isBreak, atValue, opened,
      later]

end Key

/-! ## Values -/

theorem approach?_atValue {text : List Char} (starts : ∀ c ∈ text.head?, isGap c = false ∧ c ≠ '#')
    (line column : ℕ) (tokens : List Token) :
    (atValue (' ' :: text) line column tokens).approach? =
      some (atValue text line (column + 1) tokens) := by
  have none : spacing false false false false text = (0, false) :=
    spacing_of_head? fun c first => ⟨(starts c first).1, (starts c first).2, nofun⟩
  simp [approach?, atValue, spacing, spacing.more, isBreak, none, Cursor.advance, Cursor.next,
    KeyCandidate.at?, closeBlocks, inFlow]

/-- A text that is read as a value behind a key, up to the start of the next line. -/
structure IsValue (text : List Char) (token : Token) : Prop where
  starts : ∃ c ∈ text.head?, isGap c = false ∧ c ≠ '#'
  ends {more : List Char} (next : ∀ c ∈ more.head?, isWord c = true) {column : ℕ}
    (inLine : 0 < column) (line : ℕ) (tokens : List Token) :
    ∃ after line', (atValue (text ++ more) line column tokens).step? = some after ∧
      after.approach? = some (atKey more line' (token :: tokens) [0])

section Next

variable {more : List Char} (next : ∀ c ∈ more.head?, isWord c = true)

include next

theorem spacing_next : spacing false true true false more = (0, true) :=
  spacing_of_head? fun c first =>
    let ⟨noGap, _, noComment, noMark⟩ := ne_of_isWord (next c first)
    ⟨noGap, noComment, fun _ => noMark⟩

theorem approach?_atKey {columns : List ℕ} (atLeft : columns = [] ∨ columns = [0]) (line : ℕ)
    (tokens : List Token) :
    (atKey more line tokens columns).approach? = some (atKey more line tokens columns) := by
  rcases atLeft with rfl | rfl <;>
    simp [approach?, atKey, spacing_next next, Cursor.advance, KeyCandidate.at?, closeBlocks,
      inFlow]

theorem approach?_atBreak (line column : ℕ) (tokens : List Token) :
    (atValue ('\n' :: more) line column tokens).approach? =
      some (atKey more (line + 1) tokens [0]) := by
  simp [approach?, atValue, atKey, spacing, spacing.more, isBreak, spacing_next next,
    Cursor.advance, Cursor.next, KeyCandidate.at?, closeBlocks, inFlow]

end Next

theorem isValue_plain {c : Char} {cs : List Char} (plain : IsPlainText (c :: cs))
    (starts : StartsPlain c cs) (noGap : isGap c = false) :
    IsValue (c :: cs ++ ['\n']) (.scalar .plain (String.ofList (c :: cs))) := by
  have noComment : c ≠ '#' := by
    rintro rfl
    cases starts.noIndicator
  refine ⟨⟨c, rfl, noGap, noComment⟩, fun {more} next {column} inLine line tokens => ?_⟩
  have read := readPlain?_append plain (Nat.succ_le_of_lt inLine) Nat.one_pos
    (fun d first => (ne_of_isWord (next d first)).1)
  have place := Cursor.upTo_append (c :: cs ++ ['\n']) more line column
  rw [columnAfter_eq_zero (by rw [List.getLast?_concat]; rfl) column] at place
  refine ⟨_, line + (c :: cs ++ ['\n']).countP isBreak, ?_, approach?_atKey next (.inr rfl) _ _⟩
  rw [List.append_assoc, List.singleton_append] at place ⊢
  rw [step?_eq_plain? rfl rfl (starts.append more) noGap]
  simp only [List.cons_append] at read place
  simp [plain?, noteCandidate?, atValue, atKey, inFlow, contentColumn, read, place, push]

/-- The line on which a quoted scalar ends is left behind with the next approach. -/
theorem isValue_quoted {c : Char} {text : List Char} {token : Token} (noGap : isGap c = false)
    (noComment : c ≠ '#') (step : ∀ {rest : List Char}, rest.head? ≠ some '\'' →
      ∀ line column tokens, (atValue (c :: text ++ rest) line column tokens).step? =
        (atValue (c :: text ++ rest) line column tokens).node? token rest) :
    IsValue (c :: text ++ ['\n']) token := by
  refine ⟨⟨c, rfl, noGap, noComment⟩, fun {more} next {column} _ line tokens => ?_⟩
  have place := Cursor.upTo_append (c :: text) ('\n' :: more) line column
  refine ⟨_, line + (c :: text).countP isBreak + 1, ?_,
    approach?_atBreak next _ (columnAfter column (c :: text)) _⟩
  rw [List.append_assoc, List.singleton_append, step (by simp)]
  simp only [List.cons_append] at place
  simp [node?, noteCandidate?, atValue, push, place]

theorem isValue_double (cs : List Char) :
    IsValue (writeDouble cs ++ ['\n']) (.scalar .double (String.ofList cs)) := by
  refine isValue_quoted (c := '"') rfl (by decide) fun {rest} _ line column tokens => ?_
  have read : readDouble? .empty (cs.flatMap escape ++ '"' :: rest) = some (cs, rest) :=
    readDouble?_flatMap_escape [] cs rest
  have unmarked : startsMarker ('"' :: (cs.flatMap escape ++ '"' :: rest)) = false := rfl
  change (atValue (writeDouble cs ++ rest) line column tokens).step? =
    (atValue (writeDouble cs ++ rest) line column tokens).node? _ rest
  rw [writeDouble_append]
  simp [step?, atValue, inFlow, unmarked, read]

theorem isValue_single {cs : List Char} (foldable : IsFoldable cs) :
    IsValue (writeSingle cs ++ ['\n']) (.scalar .single (String.ofList cs)) := by
  refine isValue_quoted (c := '\'') rfl (by decide) fun {rest} ended line column tokens => ?_
  have precedes : Gap.empty.Precedes cs := .inl rfl
  have read : readSingle? .empty (singleLines false cs rest) = some (cs, rest) :=
    readSingle?_singleLines foldable precedes ended
  have unmarked : startsMarker ('\'' :: singleLines false cs rest) = false := rfl
  change (atValue (writeSingle cs ++ rest) line column tokens).step? =
    (atValue (writeSingle cs ++ rest) line column tokens).node? _ rest
  rw [writeSingle_append]
  simp [step?, atValue, inFlow, unmarked, read]

/-- A block ends with its last line, so a key comes next. -/
theorem isValue_literal {cs : List Char} (printable : ∀ c ∈ cs, isPrintable c = true)
    (nonempty : cs ≠ []) :
    IsValue (writeLiteral cs ++ lineEnding (writeLiteral cs))
      (.scalar .literal (String.ofList cs)) := by
  rw [writeLiteral_append nonempty]
  refine ⟨⟨'|', rfl, rfl, by decide⟩, fun {more} next {column} _ line tokens => ?_⟩
  have read := readBlock?_append printable nonempty
    (fun c first => (ne_of_isWord (next c first)).1)
  obtain ⟨block, isBlock⟩ : ∃ block, incrementMark cs ++ (chompingMark cs ++
    '\n' :: indentLines true (cs ++ lineEnding cs)) = block := ⟨_, rfl⟩
  have ends : ('|' :: block).getLast?.any isBreak = true := by
    obtain ⟨last, same, isLast⟩ := Option.any_eq_true _ _ |>.mp (getLast?_append_lineEnding cs)
    simp only [← isBlock, List.getLast?_cons, List.getLast?_append, getLast?_indentLines, same,
      Option.some_or, Option.getD_some, Option.any_some, isLast]
  have place := Cursor.upTo_append ('|' :: block) more line column
  rw [columnAfter_eq_zero ends] at place
  refine ⟨_, line + ('|' :: block).countP isBreak, ?_, approach?_atKey next (.inr rfl) _ _⟩
  have block' : incrementMark cs ++ (chompingMark cs ++
      '\n' :: (indentLines true (cs ++ lineEnding cs) ++ more)) = block ++ more := by
    simp [← isBlock]
  rw [block'] at read
  have unmarked : startsMarker ('|' :: (block ++ more)) = false := rfl
  have notFolded : (Style.literal == Style.folded) = false := rfl
  rw [isBlock]
  simp only [List.cons_append] at place ⊢
  simp [step?, atValue, atKey, inFlow, unmarked, block?, dropCandidate?, notFolded, read, place,
    push]

/-! ## Texts in all styles -/

/-- The style in which a text is written. -/
def writtenStyle (cs : List Char) : Style :=
  if '\n' ∈ cs then (if allowsLiteral cs then .literal else .double)
  else if cs.isEmpty || isAmbiguous cs || !allowsPlain cs then
    (if allowsSingle cs then .single else .double)
  else .plain

/-- A text in a style, with what the style asks for. -/
inductive IsWritten (cs : List Char) : Style → List Char → Prop where
  | plain (nonempty : cs ≠ []) (allowed : allowsPlain cs = true) : IsWritten cs .plain cs
  | single (foldable : IsFoldable cs) : IsWritten cs .single (writeSingle cs)
  | double : IsWritten cs .double (writeDouble cs)
  | literal (nonempty : cs ≠ []) (printable : ∀ c ∈ cs, isPrintable c = true) :
    IsWritten cs .literal (writeLiteral cs)

theorem isFoldable_of_allowsSingle {cs : List Char} (allowed : allowsSingle cs = true)
    (newline : '\n' ∉ cs) : IsFoldable cs := by
  simp only [allowsSingle, mixesSpacing, Bool.and_eq_true, Bool.not_eq_true', Bool.or_eq_false_iff,
    List.all_eq_true] at allowed
  exact ⟨allowed.1, newline, allowed.2.1, allowed.2.2⟩

theorem isWritten_writeText (cs : List Char) : IsWritten cs (writtenStyle cs) (writeText cs) := by
  unfold writtenStyle writeText writeQuoted
  split
  · rename_i newline
    split
    · rename_i allowed
      simp only [allowsLiteral, Bool.and_eq_true, List.all_eq_true] at allowed
      exact .literal (List.ne_nil_of_mem newline) allowed.1.1
    · exact .double
  · rename_i newline
    split
    · split
      · rename_i allowed
        exact .single (isFoldable_of_allowsSingle allowed newline)
      · exact .double
    · rename_i allowed
      simp only [Bool.or_eq_true, not_or, Bool.not_eq_true, Bool.not_eq_false'] at allowed
      exact .plain (by simpa using allowed.1.1) allowed.2

/-- A text is read back as the value of a key, whatever style it is written in. -/
theorem IsWritten.isValue {cs text : List Char} {style : Style}
    (written : IsWritten cs style text) :
    IsValue (text ++ lineEnding text) (.scalar style (String.ofList cs)) := by
  cases written with
  | plain nonempty allowed =>
    have plain := isPlainText_of_allowsPlain allowed
    obtain ⟨c, cs, rfl⟩ := List.exists_cons_of_ne_nil nonempty
    simp only [allowsPlain, Bool.and_eq_true, Bool.not_eq_true'] at allowed
    obtain ⟨⟨⟨⟨-, first⟩, -⟩, starts⟩, -⟩ := allowed
    have noGap : isGap c = false := by
      rw [plain.isGap_eq c List.mem_cons_self]
      exact (Bool.or_eq_false_iff.mp first).1
    rw [lineEnding_of_inLine fun d member => (plain.inLine d member).2]
    exact isValue_plain plain (startsPlain_of_startsWithIndicator starts) noGap
  | single foldable =>
    have ending : lineEnding (writeSingle cs) = ['\n'] := by
      rw [lineEnding, writeSingle, List.getLast?_concat]
      rfl
    rw [ending]
    exact isValue_single foldable
  | double =>
    have ending : lineEnding (writeDouble cs) = ['\n'] := by
      rw [lineEnding, writeDouble, List.getLast?_concat]
      rfl
    rw [ending]
    exact isValue_double cs
  | literal nonempty printable => exact isValue_literal printable nonempty

theorem IsWritten.isPrintable {cs text : List Char} {style : Style}
    (written : IsWritten cs style text) : ∀ d ∈ text, isPrintable d = true := by
  cases written with
  | plain nonempty allowed =>
    exact fun d member => ((isPlainText_of_allowsPlain allowed).inLine d member).1
  | single foldable => exact isPrintable_writeSingle foldable.printable
  | double => exact isPrintable_writeDouble cs
  | literal nonempty printable => exact isPrintable_writeLiteral printable nonempty

/-! ## Members -/

/-- A member takes three tokens to the start of the next one. -/
theorem Reads.member {fuel line : ℕ} {key text more : List Char} {token : Token}
    {tokens read : List Token} {columns : List ℕ} (isKey : IsKey key) (value : IsValue text token)
    (atLeft : columns = [] ∨ columns = [0]) (next : ∀ c ∈ more.head?, isWord c = true)
    (reads : ∀ line', Reads fuel (atKey more line' (token :: .value ::
      .scalar .plain (String.ofList key) :: .key :: opened columns tokens) [0]) read) :
    Reads (fuel + 3) (atKey (key ++ ':' :: ' ' :: (text ++ more)) line tokens columns) read := by
  obtain ⟨c, first, starts⟩ := value.starts
  obtain ⟨text, rfl⟩ := List.head?_eq_some_iff.mp (Option.mem_def.mp first)
  obtain ⟨after, line', step, approach⟩ := value.ends next (Nat.succ_pos (key.length + 1)) line
    (.value :: .scalar .plain (String.ofList key) :: .key :: opened columns tokens)
  have starts' : ∀ d ∈ (c :: text ++ more).head?, isGap d = false ∧ d ≠ '#' := by
    simpa using starts
  have atText := approach?_atValue starts' line
    (key.length + 1) (.value :: .scalar .plain (String.ofList key) :: .key :: opened columns tokens)
  refine .step (by simp [atKey]) (step?_atKey isKey) (approach?_atColon isKey atLeft) ?_
  refine .step (by simp [atColon]) (step?_atColon atLeft) atText ?_
  exact .step (by simp [atValue]) step approach (reads line')

end Layout

end DesignMatrix.Yaml
