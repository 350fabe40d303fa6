import DesignMatrix.Proofs.TextFronts
import DesignMatrix.Proofs.YamlQuoted
import DesignMatrix.Yaml.Block

/-!
# Texts written as blocks in YAML

The lines of a block are read one by one, with the empty lines above each. The mark of its header
chomps just the break that was added to end the last line, so the text is read back.
-/

namespace DesignMatrix.Yaml

open Fronts

/-! ## Indented lines -/

theorem indentLines_breaks {breaks : List Char} (ends : ∀ c ∈ breaks, isBreak c = true)
    (rest : List Char) : indentLines true (breaks ++ rest) = breaks ++ indentLines true rest := by
  induction breaks with
  | nil => rfl
  | cons c breaks ih =>
    obtain ⟨head, tail⟩ := List.forall_mem_cons.mp ends
    rw [List.cons_append, indentLines, if_pos head, ih tail, List.cons_append]

/-- A line is indented as a whole. -/
theorem indentLines_line {line : List Char} {last : Char} (inLine : ∀ c ∈ line, isBreak c = false)
    (nonempty : line ≠ []) (ends : isBreak last = true) (rest : List Char) :
    indentLines true (line ++ last :: rest) =
      indentation ++ (line ++ last :: indentLines true rest) := by
  have further (line : List Char) (inLine : ∀ c ∈ line, isBreak c = false) :
      indentLines false (line ++ last :: rest) = line ++ last :: indentLines true rest := by
    induction line with
    | nil => simp [indentLines, ends]
    | cons c line ih =>
      obtain ⟨head, tail⟩ := List.forall_mem_cons.mp inLine
      simp [indentLines, head, ih tail]
  obtain ⟨c, line, rfl⟩ := List.exists_cons_of_ne_nil nonempty
  obtain ⟨head, tail⟩ := List.forall_mem_cons.mp inLine
  simp [indentLines, head, further line tail]

theorem length_le_length_indentLines (below : Bool) (cs : List Char) :
    cs.length ≤ (indentLines below cs).length := by
  induction cs generalizing below with
  | nil => exact Nat.zero_le _
  | cons c cs ih =>
    rw [indentLines]
    have behind := ih true
    have within := ih false
    split <;> simp <;> omega

theorem indentLines_append_break (below : Bool) (cs : List Char) :
    indentLines below (cs ++ ['\n']) = indentLines below cs ++ ['\n'] := by
  induction cs generalizing below with
  | nil => rfl
  | cons c cs ih =>
    rw [List.cons_append, indentLines, indentLines, ih, ih]
    split <;> simp

theorem getLast?_indentLines (below : Bool) (cs : List Char) :
    (indentLines below cs).getLast? = cs.getLast? := by
  induction cs generalizing below with
  | nil => rfl
  | cons c cs ih =>
    rw [indentLines]
    split
    · rw [List.getLast?_cons, List.getLast?_cons, ih]
    · rw [List.getLast?_append, List.getLast?_cons, List.getLast?_cons, ih, Option.some_or]

/-! ## The front of a line -/

theorem lineStart?_breaks {breaks : List Char} (ends : ∀ c ∈ breaks, isBreak c = true)
    (indent? : Option ℕ) (widest : ℕ) (rest : List Char) :
    lineStart? indent? 0 widest (breaks ++ rest) =
      (lineStart? indent? 0 widest rest).map fun start =>
        { start with breaks := breaks ++ start.breaks } := by
  induction breaks with
  | nil => simp
  | cons c breaks ih =>
    obtain ⟨head, tail⟩ := List.forall_mem_cons.mp ends
    have further := ih tail
    rcases isBreak_iff.mp head with rfl | rfl | rfl <;>
      simp [lineStart?, isBreak, further, Function.comp_def]

/-- A line that is indented by as much as is known, or that does not start with a space. -/
theorem lineStart?_indentation {c : Char} (inLine : isBreak c = false) (noTab : c ≠ '\t')
    {indent? : Option ℕ} (known : indent? = some 2 ∨ indent? = none ∧ c ≠ ' ') (rest : List Char) :
    lineStart? indent? 0 0 (indentation ++ c :: rest) = some ⟨[], 2, 2, c :: rest⟩ := by
  have atWord : lineStart? indent? 2 0 (c :: rest) = some ⟨[], 2, 2, c :: rest⟩ := by
    rcases known with rfl | ⟨rfl, noSpace⟩
    · by_cases space : c = ' '
      · subst space
        simp [lineStart?]
      · simp [lineStart?, inLine]
    · simp [lineStart?, inLine]
  rcases known with rfl | ⟨rfl, -⟩ <;> simpa [indentation, lineStart?] using atWord

theorem lineStart?_ended {rest : List Char} (ended : ∀ c ∈ rest.head?, isGap c = false)
    (indent? : Option ℕ) : lineStart? indent? 0 0 rest = some ⟨[], 0, 0, rest⟩ := by
  cases rest with
  | nil => rfl
  | cons c rest =>
    have noGap := ended c rfl
    have noSpace : c ≠ ' ' := by
      rintro rfl
      cases noGap
    have noTab : c ≠ '\t' := by
      rintro rfl
      cases noGap
    have inLine : isBreak c = false := (Bool.or_eq_false_iff.mp noGap).2
    simp [lineStart?, inLine]

/-! ## Lines -/

/-- The lines are complete, and chomped they lose no more than the last break. -/
def EndsAs (chomping : Chomping) (lines : List Char) : Prop :=
  lines = [] ∨ ∃ front last, lines = front ++ [last] ∧ isBreak last = true ∧
    (chomping ≠ .keep → ∃ c ∈ front.getLast?, isBreak c = false)

/-- The lines as they are read. -/
def chomped (chomping : Chomping) (lines : List Char) : List Char :=
  if chomping = .strip then lines.dropLast else lines

theorem chomped_append (chomping : Chomping) (front : List Char) {back : List Char}
    (nonempty : back ≠ []) : chomped chomping (front ++ back) = front ++ chomped chomping back := by
  unfold chomped
  split
  · exact List.dropLast_append_of_ne_nil nonempty
  · rfl

theorem EndsAs.isBreak_of_getLast? {chomping : Chomping} {lines : List Char}
    (ends : EndsAs chomping lines) : ∀ c ∈ lines.getLast?, isBreak c = true := by
  rcases ends with rfl | ⟨front, last, rfl, isLast, -⟩
  · exact nofun
  · simpa using isLast

/-- Complete lines are left below a line. -/
theorem EndsAs.of_append {chomping : Chomping} {front more : List Char} {last : Char}
    (ends : EndsAs chomping (front ++ last :: more)) (isLast : isBreak last = true) :
    EndsAs chomping more := by
  rcases more.eq_nil_or_concat with rfl | ⟨more, final, rfl⟩
  · exact .inl rfl
  · rcases ends with none | ⟨lines, final', same, isFinal, lasting⟩
    · simp at none
    · rw [List.concat_eq_append, ← List.cons_append, ← List.append_assoc] at same
      obtain ⟨rfl, ⟨⟩⟩ := List.append_inj' same rfl
      refine .inr ⟨more, final, List.concat_eq_append, isFinal, fun notKept => ?_⟩
      obtain ⟨c, isEnd, inLine⟩ := lasting notKept
      cases more with
      | nil =>
        obtain rfl : last = c := by simpa using isEnd
        cases isLast.symm.trans inLine
      | cons d more => exact ⟨c, by simpa using isEnd, inLine⟩

/-- Lines are empty, or have a first line with a word below some empty ones. -/
theorem exists_line {chomping : Chomping} {lines : List Char} (ends : EndsAs chomping lines) :
    (∀ c ∈ lines, isBreak c = true) ∨
      ∃ breaks line last more, lines = breaks ++ (line ++ last :: more) ∧
        (∀ c ∈ breaks, isBreak c = true) ∧ (∀ c ∈ line, isBreak c = false) ∧ line ≠ [] ∧
        isBreak last = true ∧ EndsAs chomping more := by
  obtain ⟨breaks, words, rfl, areBreaks, starts⟩ := exists_front isBreak lines
  obtain ⟨line, below, rfl, inLine, further⟩ := exists_front (!isBreak ·) words
  simp only [Bool.not_eq_true', Bool.not_eq_false'] at inLine further
  cases below with
  | nil =>
    left
    rcases line.eq_nil_or_concat with rfl | ⟨line, c, rfl⟩
    · simpa using areBreaks
    · have isLast := ends.isBreak_of_getLast? c (by simp)
      cases isLast.symm.trans (inLine c (by simp))
  | cons last more =>
    right
    have isLast := further last rfl
    refine ⟨breaks, line, last, more, rfl, areBreaks, inLine, ?_, isLast, ?_⟩
    · rintro rfl
      cases (starts last rfl).symm.trans isLast
    · rw [← List.append_assoc] at ends
      exact ends.of_append isLast

/-- What is left of the empty lines at the end. -/
theorem tail_eq {chomping : Chomping} {ending lines : List Char} (ends : EndsAs chomping lines)
    (areBreaks : ∀ c ∈ lines, isBreak c = true) (single : ending.length ≤ 1) (column widest : ℕ)
    (rest : List Char) :
    blockText?.tail chomping ending ⟨lines, column, widest, rest⟩ =
      chomped chomping (ending ++ lines) := by
  have kept : lines = [] ∨ chomping = .keep := by
    rcases ends with rfl | ⟨front, last, rfl, -, lasting⟩
    · exact .inl rfl
    · right
      by_contra notKept
      obtain ⟨c, isEnd, inLine⟩ := lasting notKept
      have ends := areBreaks c (List.mem_append_left _ (List.mem_of_getLast? isEnd))
      cases ends.symm.trans inLine
  rcases kept with rfl | rfl
  · cases chomping
    · have none : ending.dropLast = [] := List.length_eq_zero_iff.mp (by simp; omega)
      simp [blockText?.tail, chomped, none]
    · simp [blockText?.tail, chomped]
    · simp [blockText?.tail, chomped]
  · simp [blockText?.tail, chomped]

/-- Only breaks are left, so the block ends. -/
theorem blockText?_breaks {chomping : Chomping} {ending lines rest : List Char}
    (ends : EndsAs chomping lines) (areBreaks : ∀ c ∈ lines, isBreak c = true)
    (single : ending.length ≤ 1) (ended : ∀ c ∈ rest.head?, isGap c = false) (fuel : ℕ)
    (loose : Bool) :
    (lineStart? (some 2) 0 0 (lines ++ rest)).bind
      (blockText? false chomping 2 (fuel + 1) ending loose) =
        some (chomped chomping (ending ++ lines), rest) := by
  rw [lineStart?_breaks areBreaks, lineStart?_ended ended]
  cases rest with
  | nil => simp [blockText?, tail_eq ends areBreaks single]
  | cons c rest => simp [blockText?, tail_eq ends areBreaks single]

/-- A line is read whole. Its break goes to what is read from the next line on. -/
theorem blockText?_line {breaks line : List Char} {last c : Char}
    (areBreaks : ∀ c ∈ breaks, isBreak c = true) (inLine : ∀ d ∈ c :: line, isBreak d = false)
    (noTab : c ≠ '\t') (isLast : isBreak last = true) (chomping : Chomping) (fuel : ℕ)
    (ending : List Char) (loose : Bool) (more : List Char) :
    (lineStart? (some 2) 0 0 (breaks ++ (indentation ++ (c :: line ++ last :: more)))).bind
      (blockText? false chomping 2 (fuel + 1) ending loose) =
        ((lineStart? (some 2) 0 0 more).bind
          (blockText? false chomping 2 fuel [last] (isBlank c))).map
            (.prepend (ending ++ breaks ++ c :: line)) := by
  have inLine' : ∀ d ∈ c :: line, (!isBreak d) = true := fun d member => by
    rw [inLine d member]
    rfl
  have atEnd : ∀ d ∈ (last :: more).head?, (!isBreak d) = false := by
    simpa using isLast
  obtain ⟨isLine, below⟩ := takeWhile_append_of_head? inLine' atEnd
  simp only [List.cons_append] at isLine below ⊢
  rw [lineStart?_breaks areBreaks,
    lineStart?_indentation (inLine c List.mem_cons_self) noTab (.inl rfl)]
  simp [blockText?, isLine, below, Option.map_eq_bind, Option.bind_assoc, Reading.prepend]

/-- The text of complete lines in a block that is indented by two columns. -/
theorem blockText?_indentLines {chomping : Chomping} {fuel : ℕ} {ending lines rest : List Char}
    (noTab : '\t' ∉ lines) (ends : EndsAs chomping lines) (single : ending.length ≤ 1)
    (enough : lines.length < fuel) (ended : ∀ c ∈ rest.head?, isGap c = false) (loose : Bool) :
    (lineStart? (some 2) 0 0 (indentLines true lines ++ rest)).bind
      (blockText? false chomping 2 fuel ending loose) =
        some (chomped chomping (ending ++ lines), rest) := by
  induction fuel generalizing ending lines loose with
  | zero => omega
  | succ fuel ih =>
    rcases exists_line ends with areBreaks | ⟨breaks, line, last, more, rfl, areBreaks, inLine,
      nonempty, isLast, ends'⟩
    · have written := indentLines_breaks areBreaks []
      rw [List.append_nil, indentLines, List.append_nil] at written
      rw [written]
      exact blockText?_breaks ends areBreaks single ended fuel loose
    · obtain ⟨c, line, rfl⟩ := List.exists_cons_of_ne_nil nonempty
      simp only [List.mem_append, List.mem_cons, not_or] at noTab
      obtain ⟨-, ⟨noTab, -⟩, -, noTabs⟩ := noTab
      simp only [List.length_append, List.length_cons] at enough
      have single' : [last].length ≤ 1 := le_rfl
      have read := ih noTabs ends' single' (by omega) (isBlank c)
      have text : chomped chomping (ending ++ (breaks ++ ((c :: line) ++ last :: more))) =
          ending ++ breaks ++ (c :: line) ++ chomped chomping ([last] ++ more) := by
        rw [← List.append_assoc, ← List.append_assoc,
          chomped_append chomping _ (List.cons_ne_nil last more)]
        rfl
      have written : indentLines true (breaks ++ (c :: line ++ last :: more)) ++ rest =
          breaks ++ (indentation ++ (c :: line ++ last :: (indentLines true more ++ rest))) := by
        rw [indentLines_breaks areBreaks, indentLines_line inLine nonempty isLast]
        simp only [List.append_assoc, List.cons_append]
      rw [written, blockText?_line areBreaks inLine (Ne.symm noTab) isLast, read, text]
      rfl

/-! ## Whole blocks -/

/-- The mark that is written for a chomping. -/
def Chomping.mark : Chomping → List Char
  | .strip => ['-']
  | .clip => []
  | .keep => ['+']

/-- The break behind the last line of a member, unless its value ends in one. -/
def lineEnding (cs : List Char) : List Char := if cs.getLast?.any isBreak then [] else ['\n']

theorem lineEnding_of_inLine {cs : List Char} (inLine : ∀ c ∈ cs, isBreak c = false) :
    lineEnding cs = ['\n'] := by
  unfold lineEnding
  cases last : cs.getLast? with
  | none => rfl
  | some c => simp [inLine c (List.mem_of_getLast? last)]

theorem getLast?_append_lineEnding (cs : List Char) :
    (cs ++ lineEnding cs).getLast?.any isBreak = true := by
  unfold lineEnding
  split
  · simpa
  · simp [isBreak]

theorem writeLiteral_append {cs : List Char} (nonempty : cs ≠ []) :
    writeLiteral cs ++ lineEnding (writeLiteral cs) =
      '|' :: (incrementMark cs ++ (chompingMark cs ++
        '\n' :: indentLines true (cs ++ lineEnding cs))) := by
  have last : (writeLiteral cs).getLast? = cs.getLast? := by
    simp only [writeLiteral, List.getLast?_append, List.getLast?_cons, getLast?_indentLines,
      List.getLast?_eq_some_getLast nonempty, Option.getD_some, Option.some_or]
  have ending : lineEnding (writeLiteral cs) = lineEnding cs := by
    rw [lineEnding, lineEnding, last]
  have lines : indentLines true (cs ++ lineEnding cs) = indentLines true cs ++ lineEnding cs := by
    unfold lineEnding
    split
    · simp
    · exact indentLines_append_break true cs
  rw [ending, lines]
  simp [writeLiteral]

/-- The mark at the front of a block fits to how its text ends. -/
theorem exists_chomping {cs : List Char} (nonempty : cs ≠ []) :
    ∃ chomping : Chomping, chompingMark cs = chomping.mark ∧
      EndsAs chomping (cs ++ lineEnding cs) ∧ chomped chomping (cs ++ lineEnding cs) = cs := by
  obtain ⟨front, last, rfl⟩ := cs.eq_nil_or_concat.resolve_left nonempty
  rw [List.concat_eq_append]
  cases isLast : isBreak last with
  | false =>
    refine ⟨.strip, ?_, .inr ⟨front ++ [last], '\n', ?_, rfl, fun _ => ⟨last, ?_, isLast⟩⟩, ?_⟩
    · cases written : front.reverse <;> simp [chompingMark, written, isLast, Chomping.mark]
    · simp [lineEnding, isLast]
    · simp
    · simp [chomped, lineEnding, isLast]
  | true =>
    have noEnding : lineEnding (front ++ [last]) = [] := by simp [lineEnding, isLast]
    rw [noEnding, List.append_nil]
    rcases front.eq_nil_or_concat with rfl | ⟨front, before, rfl⟩
    · refine ⟨.keep, ?_, .inr ⟨[], last, rfl, isLast, fun h => absurd rfl h⟩, rfl⟩
      simp [chompingMark, isLast, Chomping.mark]
    · rw [List.concat_eq_append]
      cases isBefore : isBreak before with
      | true =>
        refine ⟨.keep, ?_, .inr ⟨front ++ [before], last, rfl, isLast, fun h => absurd rfl h⟩, rfl⟩
        simp [chompingMark, isLast, isBefore, Chomping.mark]
      | false =>
        refine ⟨.clip, ?_, .inr ⟨front ++ [before], last, rfl, isLast, fun _ => ⟨before, ?_,
          isBefore⟩⟩, rfl⟩
        · simp [chompingMark, isLast, isBefore, Chomping.mark]
        · simp

theorem readHeader?_marks (cs : List Char) (chomping : Chomping) (lines : List Char) :
    readHeader? (incrementMark cs ++ (chomping.mark ++ '\n' :: lines)) =
      some (⟨chomping, if cs.head?.any isSpacing then some 2 else none⟩, lines) := by
  unfold incrementMark
  split <;> cases chomping <;> rfl

theorem isPrintable_writeLiteral {cs : List Char} (printable : ∀ c ∈ cs, isPrintable c = true)
    (nonempty : cs ≠ []) : ∀ d ∈ writeLiteral cs, isPrintable d = true := by
  obtain ⟨chomping, mark, -⟩ := exists_chomping nonempty
  have increment : ∀ d ∈ incrementMark cs, isPrintable d = true := by
    unfold incrementMark
    split <;> exact forall_mem_of_all (by decide)
  have chomped : ∀ d ∈ chomping.mark, isPrintable d = true :=
    forall_mem_of_all (by cases chomping <;> decide)
  intro d member
  simp only [writeLiteral, mark, List.cons_append, List.mem_cons, List.mem_append] at member
  rcases member with rfl | (marked | marked) | rfl | text
  · rfl
  · exact increment d marked
  · exact chomped d marked
  · rfl
  · rcases mem_indentLines text with rfl | source
    · rfl
    · exact printable d source

/-- A block that is the value of a key is read back. -/
theorem readBlock?_append {cs rest : List Char} (printable : ∀ c ∈ cs, isPrintable c = true)
    (nonempty : cs ≠ []) (ended : ∀ c ∈ rest.head?, isGap c = false) :
    readBlock? false (some 0) (incrementMark cs ++ (chompingMark cs ++
      '\n' :: (indentLines true (cs ++ lineEnding cs) ++ rest))) = some (cs, rest) := by
  obtain ⟨chomping, mark, ends, read⟩ := exists_chomping nonempty
  have noTab : '\t' ∉ cs ++ lineEnding cs := by
    rw [List.mem_append, not_or]
    constructor
    · intro member
      cases printable _ member
    · unfold lineEnding
      split <;> decide
  have enough : (cs ++ lineEnding cs).length <
      (indentLines true (cs ++ lineEnding cs) ++ rest).length + 1 := by
    have := length_le_length_indentLines true (cs ++ lineEnding cs)
    simp only [List.length_append] at *
    omega
  have noEnding : ([] : List Char).length ≤ 1 := Nat.zero_le 1
  have lines := blockText?_indentLines noTab ends noEnding enough ended false
  rw [List.nil_append, read] at lines
  rw [readBlock?, mark, readHeader?_marks]
  by_cases spacing : cs.head?.any isSpacing
  · simpa [spacing] using lines
  · -- The first line shows how far the block is indented.
    obtain ⟨c, more, rfl⟩ := List.exists_cons_of_ne_nil nonempty
    have first : isSpacing c = false := by simpa using spacing
    obtain ⟨noSpace, inLine⟩ := Bool.or_eq_false_iff.mp first
    have noTab' : c ≠ '\t' := fun same => noTab (by simp [same])
    have front : indentLines true (c :: more ++ lineEnding (c :: more)) ++ rest =
        indentation ++ c :: (indentLines false (more ++ lineEnding (c :: more)) ++ rest) := by
      simp [indentLines, inLine]
    rw [front] at lines ⊢
    rw [lineStart?_indentation inLine noTab' (.inl rfl)] at lines
    have start := lineStart?_indentation inLine noTab' (.inr ⟨rfl, by simpa using noSpace⟩)
      (indentLines false (more ++ lineEnding (c :: more)) ++ rest)
    simpa [first, start] using lines

end DesignMatrix.Yaml
