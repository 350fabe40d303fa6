import Mathlib.Data.List.TakeWhile
import DesignMatrix.Design.CleanName

/-!
# The words of a name

The words of a text are its longest runs of letters and digits. The cleaner walks through a name
once, with two flags for what it has seen; what it makes of the name is its words in lower case with
one underscore between two of them.
-/

namespace DesignMatrix

namespace Text

/-- The longest runs of letters and digits, in their order. -/
def words (cs : List Char) : List (List Char) :=
  (cs.splitOnP fun c => !isAlphanumeric c).filter fun word => !word.isEmpty

/-- Letters and digits, at least one. -/
def IsWord (cs : List Char) : Prop := cs ≠ [] ∧ ∀ c ∈ cs, isAlphanumeric c = true

/-- A text in lower case, character by character. -/
def lowercased (cs : List Char) : List Char := cs.flatMap lowercase

@[simp] theorem words_nil : words [] = [] := by simp [words]

/-- No word goes past a character that is no letter or digit. -/
theorem words_append_cons {c : Char} (other : isAlphanumeric c = false) (front back : List Char) :
    words (front ++ c :: back) = words front ++ words back := by
  rw [words, List.splitOnP_append_cons front back (by simp [other]), List.filter_append, words,
    words]

theorem words_cons_of_other {c : Char} (other : isAlphanumeric c = false) (cs : List Char) :
    words (c :: cs) = words cs := by
  simpa using words_append_cons other [] cs

/-- The letters and digits at the front are no part of the words behind them. -/
theorem words_eq_append (cs : List Char) : words cs =
    words (cs.takeWhile isAlphanumeric) ++ words (cs.dropWhile isAlphanumeric) := by
  have parts := List.takeWhile_append_dropWhile (p := isAlphanumeric) (l := cs)
  cases behind : cs.dropWhile isAlphanumeric with
  | nil =>
    rw [behind, List.append_nil] at parts
    rw [parts, words_nil, List.append_nil]
  | cons c rest =>
    have ends : isAlphanumeric c = false := by
      simpa [behind] using List.head?_dropWhile_not isAlphanumeric cs
    rw [behind] at parts
    rw [words_cons_of_other ends, ← words_append_cons ends, parts]

theorem words_of_isWord {word : List Char} (h : IsWord word) : words word = [word] := by
  rw [words, List.splitOnP_eq_singleton fun c member => by simp [h.2 c member]]
  simp [h.1]

theorem isWord_cons_takeWhile {c : Char} (alphanumeric : isAlphanumeric c = true)
    (cs : List Char) : IsWord (c :: cs.takeWhile isAlphanumeric) :=
  ⟨List.cons_ne_nil _ _, List.forall_mem_cons.mpr
    ⟨alphanumeric, fun _ member => List.mem_takeWhile_imp member⟩⟩

/-- A letter or digit begins a word that goes on up to the next other character. -/
theorem words_cons_of_alphanumeric {c : Char} (alphanumeric : isAlphanumeric c = true)
    (cs : List Char) : words (c :: cs) =
      (c :: cs.takeWhile isAlphanumeric) :: words (cs.dropWhile isAlphanumeric) := by
  rw [words_eq_append, List.takeWhile_cons_of_pos alphanumeric,
    List.dropWhile_cons_of_pos alphanumeric,
    words_of_isWord (isWord_cons_takeWhile alphanumeric cs), List.singleton_append]

theorem words_eq_nil_iff {cs : List Char} :
    words cs = [] ↔ ∀ c ∈ cs, isAlphanumeric c = false := by
  induction cs with
  | nil => simp
  | cons c cs ih =>
    by_cases alphanumeric : isAlphanumeric c = true
    · simp [words_cons_of_alphanumeric alphanumeric, alphanumeric]
    · rw [Bool.not_eq_true] at alphanumeric
      simp [words_cons_of_other alphanumeric, ih, alphanumeric]

theorem isWord_of_mem {cs word : List Char} (member : word ∈ words cs) : IsWord word := by
  induction cs with
  | nil => simp at member
  | cons c cs ih =>
    by_cases alphanumeric : isAlphanumeric c = true
    · rw [words_cons_of_alphanumeric alphanumeric] at member
      rcases List.mem_cons.mp member with rfl | later
      · exact isWord_cons_takeWhile alphanumeric cs
      · exact ih (words_eq_append cs ▸ List.mem_append_right _ later)
    · rw [words_cons_of_other (by simpa using alphanumeric)] at member
      exact ih member

/-- Together the words hold all the letters and digits. -/
theorem flatten_words (cs : List Char) : (words cs).flatten = cs.filter isAlphanumeric := by
  induction cs with
  | nil => simp
  | cons c cs ih =>
    by_cases alphanumeric : isAlphanumeric c = true
    · have front : (words (cs.takeWhile isAlphanumeric)).flatten = cs.takeWhile isAlphanumeric := by
        by_cases empty : cs.takeWhile isAlphanumeric = []
        · simp [empty]
        · rw [words_of_isWord ⟨empty, fun _ member => List.mem_takeWhile_imp member⟩,
            List.flatten_singleton]
      rw [words_eq_append, List.flatten_append, front] at ih
      rw [words_cons_of_alphanumeric alphanumeric, List.filter_cons_of_pos alphanumeric, ← ih,
        List.flatten_cons, List.cons_append]
    · rw [List.filter_cons_of_neg alphanumeric, ← ih,
        words_cons_of_other (by simpa using alphanumeric)]

theorem lowercase_ne_nil (c : Char) : lowercase c ≠ [] := by
  unfold lowercase
  split
  · exact List.cons_ne_nil _ _
  · split <;> exact List.cons_ne_nil _ _

theorem lowercased_ne_nil {cs : List Char} (nonempty : cs ≠ []) : lowercased cs ≠ [] := by
  obtain ⟨c, rest, rfl⟩ := List.exists_cons_of_ne_nil nonempty
  simp [lowercased, lowercase_ne_nil]

end Text

namespace CleanName

open Text

/-- Words behind another one, each with an underscore in front. -/
def continued (words : List (List Char)) : List Char := words.flatMap fun word => '_' :: word

theorem intercalate_cons (word : List Char) (words : List (List Char)) :
    ['_'].intercalate (word :: words) = word ++ continued words := by
  induction words generalizing word with
  | nil => simp [continued]
  | cons next words ih =>
    rw [List.intercalate_cons_cons, ih, List.append_assoc]
    rfl

/-- Behind a kept character comes the rest of its word at once; behind a dropped one, the next word
has an underscore in front. -/
theorem chars_started (cs : List Char) :
    chars cs true false = lowercased (cs.takeWhile isAlphanumeric) ++
        continued ((words (cs.dropWhile isAlphanumeric)).map lowercased) ∧
      chars cs true true = continued ((words cs).map lowercased) := by
  induction cs with
  | nil => simp [chars, lowercased, continued]
  | cons c cs ih =>
    obtain ⟨inside, between⟩ := ih
    by_cases alphanumeric : isAlphanumeric c = true
    · constructor
      · simp [chars, alphanumeric, inside, lowercased]
      · simp [chars, alphanumeric, inside, words_cons_of_alphanumeric, lowercased, continued]
    · rw [Bool.not_eq_true] at alphanumeric
      constructor
      · simp [chars, alphanumeric, between, words_cons_of_other, lowercased]
      · simp [chars, alphanumeric, between, words_cons_of_other]

theorem chars_eq_intercalate (cs : List Char) (pending : Bool) :
    chars cs false pending = ['_'].intercalate ((words cs).map lowercased) := by
  induction cs generalizing pending with
  | nil => simp [chars]
  | cons c cs ih =>
    by_cases alphanumeric : isAlphanumeric c = true
    · have inside := (chars_started cs).1
      simp [chars, alphanumeric, inside, words_cons_of_alphanumeric, intercalate_cons, lowercased]
    · rw [Bool.not_eq_true] at alphanumeric
      simp [chars, alphanumeric, ih, words_cons_of_other]

theorem isEmpty_chars (cs : List Char) :
    (chars cs false false).isEmpty = !cs.any isAlphanumeric := by
  rw [chars_eq_intercalate]
  cases listed : words cs with
  | nil => simpa using words_eq_nil_iff.mp listed
  | cons word rest =>
    have nonempty : lowercased word ≠ [] :=
      lowercased_ne_nil (isWord_of_mem (listed ▸ List.mem_cons_self)).1
    have kept : cs.any isAlphanumeric = true := by
      by_contra bare
      have empty : words cs = [] := words_eq_nil_iff.mpr (by simpa using bare)
      exact List.cons_ne_nil word rest (listed.symm.trans empty)
    simp [intercalate_cons, nonempty, kept]

end CleanName

open Text in
/-- A clean name joins the words of the name, in lower case, by single underscores. A name without
words has the name `column`. -/
theorem cleanName_eq_intercalate (name : String) : cleanName name =
    if name.toList.any isAlphanumeric then
      String.intercalate "_" ((words name.toList).map fun word => String.ofList (lowercased word))
    else "column" := by
  simp only [cleanName, CleanName.isEmpty_chars]
  by_cases named : name.toList.any isAlphanumeric = true
  · simp only [named, Bool.not_true, Bool.false_eq_true, if_false, if_true]
    rw [← String.toList_inj, String.toList_ofList, String.toList_intercalate, List.map_map,
      CleanName.chars_eq_intercalate]
    simp [Function.comp_def]
  · simp [named, CleanName.placeholder]

end DesignMatrix
