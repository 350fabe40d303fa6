import Mathlib.Data.List.Basic
import DesignMatrix.Proofs.LowercaseLetters
import DesignMatrix.Proofs.NameWords

/-!
# Clean names are clean

A clean name is made of words with one underscore between two of them, and cleaning it again changes
nothing. For both the name must not have the capital I with a dot above. In lower case this one
letter brings a combining dot, which is no letter or digit, into the clean name; a second cleaning
takes it for a gap.
-/

namespace DesignMatrix

namespace Text

theorem isAlphanumeric_underscore : isAlphanumeric '_' = false := by decide +kernel

theorem isAlphanumeric_combiningDot : isAlphanumeric '\u0307' = false := by decide +kernel

/-- What a letter or digit is in lower case: a letter or digit, or the dot from above the I. -/
theorem of_mem_lowercase {c d : Char} (alphanumeric : isAlphanumeric c = true)
    (member : d ∈ lowercase c) :
    (isAlphanumeric d = true ∧ d ≠ 'İ') ∨ (d = '\u0307' ∧ c = 'İ') := by
  by_cases dotted : c = 'İ'
  · rw [dotted, lowercase_dotted] at member
    rcases List.mem_cons.mp member with rfl | behind
    · exact .inl (by decide +kernel)
    · exact .inr ⟨List.mem_singleton.mp behind, dotted⟩
  · obtain ⟨e, same, letter, -, undotted⟩ := exists_lowercase_eq alphanumeric dotted
    rw [same, List.mem_singleton] at member
    exact .inl (member ▸ ⟨letter, undotted⟩)

/-- A word in lower case stays as it is in lower case. -/
theorem lowercased_lowercased {word : List Char} (isWord : IsWord word) (undotted : 'İ' ∉ word) :
    lowercased (lowercased word) = lowercased word := by
  have settled : ∀ c ∈ word, (lowercase c).flatMap lowercase = lowercase c := by
    intro c member
    have differs : c ≠ 'İ' := fun same => undotted (same ▸ member)
    obtain ⟨d, same, -, settled, -⟩ := exists_lowercase_eq (isWord.2 c member) differs
    rw [same, List.flatMap_singleton, settled]
  rw [lowercased, lowercased, List.flatMap_assoc, List.flatMap_congr settled]

/-- Words joined by underscores can be told apart. -/
theorem words_intercalate {parts : List (List Char)} (areWords : ∀ part ∈ parts, IsWord part) :
    words (['_'].intercalate parts) = parts := by
  induction parts with
  | nil => simp
  | cons part parts ih =>
    obtain ⟨first, later⟩ := List.forall_mem_cons.mp areWords
    cases parts with
    | nil => rw [List.intercalate_singleton, words_of_isWord first]
    | cons next parts =>
      rw [List.intercalate_cons_cons, List.append_assoc, List.singleton_append,
        words_append_cons isAlphanumeric_underscore, words_of_isWord first, ih later,
        List.singleton_append]

end Text

namespace CleanName

open Text

/-- No underscore stands at either end, and no two of them side by side. -/
structure Separated (cs : List Char) : Prop where
  nonempty : cs ≠ []
  first : cs.head? ≠ some '_'
  last : cs.getLast? ≠ some '_'
  single : ¬ ['_', '_'] <:+: cs

theorem separated_of_splitOn {cs : List Char} (h : [] ∉ cs.splitOn '_') : Separated cs where
  nonempty := by
    rintro rfl
    simp at h
  first := by
    intro starts
    obtain ⟨rest, rfl⟩ := List.head?_eq_some_iff.mp starts
    rw [← List.nil_append ('_' :: rest), List.splitOn_append_cons_self] at h
    simp at h
  last := by
    intro ends
    obtain ⟨front, rfl⟩ := List.getLast?_eq_some_iff.mp ends
    rw [List.splitOn_append_cons_self] at h
    simp at h
  single := by
    rintro ⟨front, back, rfl⟩
    have parts : front ++ ['_', '_'] ++ back = front ++ '_' :: ([] ++ '_' :: back) := by simp
    rw [parts, List.splitOn_append_cons_self, List.splitOn_append_cons_self] at h
    simp at h

/-- What stands between the underscores of a clean name. -/
def parts (name : String) : List (List Char) :=
  if words name.toList = [] then [placeholder.toList] else (words name.toList).map lowercased

theorem toList_cleanName (name : String) :
    (cleanName name).toList = ['_'].intercalate (parts name) := by
  have wordless : name.toList.any isAlphanumeric = false ↔ words name.toList = [] := by
    rw [words_eq_nil_iff, List.any_eq_false]
    simp
  simp only [cleanName, isEmpty_chars, parts, Bool.not_eq_true', wordless]
  split
  · rw [List.intercalate_singleton]
  · rw [String.toList_ofList, chars_eq_intercalate]

variable {name : String} {part : List Char} {c : Char}

theorem parts_ne_nil (name : String) : parts name ≠ [] := by
  unfold parts
  split
  · exact List.cons_ne_nil _ _
  · simpa

theorem ne_nil_of_mem_parts (member : part ∈ parts name) : part ≠ [] := by
  unfold parts at member
  split at member
  · rw [List.mem_singleton.mp member]
    decide
  · obtain ⟨word, listed, rfl⟩ := List.mem_map.mp member
    exact lowercased_ne_nil (isWord_of_mem listed).1

theorem mem_of_mem_words {word : List Char} (listed : word ∈ words name.toList)
    (member : c ∈ word) : c ∈ name.toList := by
  have held := List.mem_flatten.mpr ⟨word, listed, member⟩
  rw [flatten_words] at held
  exact (List.mem_filter.mp held).1

theorem of_mem_part (listed : part ∈ parts name) (member : c ∈ part) :
    (isAlphanumeric c = true ∧ c ≠ 'İ') ∨ (c = '\u0307' ∧ 'İ' ∈ name.toList) := by
  unfold parts at listed
  split at listed
  · rw [List.mem_singleton.mp listed] at member
    have plain : placeholder.toList.all (fun c => isAlphanumeric c && c != 'İ') = true := by
      decide +kernel
    exact .inl (by simpa using List.all_eq_true.mp plain c member)
  · obtain ⟨word, inWords, rfl⟩ := List.mem_map.mp listed
    obtain ⟨source, inWord, cased⟩ := List.mem_flatMap.mp member
    refine (of_mem_lowercase ((isWord_of_mem inWords).2 source inWord) cased).imp_right ?_
    rintro ⟨dot, rfl⟩
    exact ⟨dot, mem_of_mem_words inWords inWord⟩

theorem mem_intercalate {parts : List (List Char)} (nonempty : parts ≠ []) :
    c ∈ ['_'].intercalate parts ↔
      (c = '_' ∧ 2 ≤ parts.length) ∨ ∃ part ∈ parts, c ∈ part := by
  induction parts with
  | nil => exact absurd rfl nonempty
  | cons part parts ih =>
    cases parts with
    | nil => simp
    | cons next parts =>
      rw [List.intercalate_cons_cons, List.mem_append, ih (List.cons_ne_nil _ _)]
      grind

theorem of_mem_cleanName (member : c ∈ (cleanName name).toList) :
    c = '_' ∨ (isAlphanumeric c = true ∧ c ≠ 'İ') ∨ (c = '\u0307' ∧ 'İ' ∈ name.toList) := by
  rw [toList_cleanName, mem_intercalate (parts_ne_nil name)] at member
  exact member.imp And.left fun ⟨_, listed, inside⟩ => of_mem_part listed inside

theorem dotted_notMem_cleanName (name : String) : 'İ' ∉ (cleanName name).toList := by
  intro member
  rcases of_mem_cleanName member with same | ⟨-, differs⟩ | ⟨same, -⟩
  · exact absurd same (by decide)
  · exact differs rfl
  · exact absurd same (by decide)

theorem separated_cleanName (name : String) : Separated (cleanName name).toList := by
  have plain : ∀ part ∈ parts name, '_' ∉ part := by
    intro part listed member
    rcases of_mem_part listed member with ⟨alphanumeric, -⟩ | ⟨same, -⟩
    · rw [isAlphanumeric_underscore] at alphanumeric
      cases alphanumeric
    · exact absurd same (by decide)
  apply separated_of_splitOn
  rw [toList_cleanName, List.splitOn_intercalate '_' plain (parts_ne_nil name)]
  exact fun listed => ne_nil_of_mem_parts listed rfl

/-- Without the dotted capital the parts of a clean name are its words. -/
theorem words_cleanName (undotted : 'İ' ∉ name.toList) :
    words (cleanName name).toList = parts name := by
  rw [toList_cleanName]
  refine words_intercalate fun part listed => ⟨ne_nil_of_mem_parts listed, fun c member => ?_⟩
  rcases of_mem_part listed member with ⟨alphanumeric, -⟩ | ⟨-, dotted⟩
  · exact alphanumeric
  · exact absurd dotted undotted

theorem lowercased_part (undotted : 'İ' ∉ name.toList) (listed : part ∈ parts name) :
    lowercased part = part := by
  unfold parts at listed
  split at listed
  · rw [List.mem_singleton.mp listed]
    decide +kernel
  · obtain ⟨word, inWords, rfl⟩ := List.mem_map.mp listed
    exact lowercased_lowercased (isWord_of_mem inWords) fun dotted =>
      undotted (mem_of_mem_words inWords dotted)

theorem cleanName_cleanName (undotted : 'İ' ∉ name.toList) :
    cleanName (cleanName name) = cleanName name := by
  have kept : parts (cleanName name) = parts name := by
    rw [parts, words_cleanName undotted, if_neg (parts_ne_nil name)]
    have settled : ∀ part ∈ parts name, lowercased part = id part := fun _ listed =>
      lowercased_part undotted listed
    rw [List.map_congr_left settled, List.map_id]
  rw [← String.toList_inj, toList_cleanName, kept, toList_cleanName]

/-- The dotted capital leaves its dot in the clean name. -/
theorem combiningDot_mem_cleanName (dotted : 'İ' ∈ name.toList) :
    '\u0307' ∈ (cleanName name).toList := by
  have letter : isAlphanumeric 'İ' = true := by decide +kernel
  have held : 'İ' ∈ (words name.toList).flatten := by
    rw [flatten_words]
    exact List.mem_filter.mpr ⟨dotted, letter⟩
  obtain ⟨word, listed, inWord⟩ := List.mem_flatten.mp held
  have part : lowercased word ∈ parts name := by
    rw [parts, if_neg (List.ne_nil_of_mem listed)]
    exact List.mem_map_of_mem listed
  rw [toList_cleanName, mem_intercalate (parts_ne_nil name)]
  exact .inr ⟨_, part, List.mem_flatMap.mpr ⟨'İ', inWord, by simp [lowercase_dotted]⟩⟩

theorem combiningDot_notMem_cleanName (undotted : 'İ' ∉ name.toList) :
    '\u0307' ∉ (cleanName name).toList := by
  intro member
  rcases of_mem_cleanName member with same | ⟨alphanumeric, -⟩ | ⟨-, dotted⟩
  · exact absurd same (by decide)
  · rw [isAlphanumeric_combiningDot] at alphanumeric
    cases alphanumeric
  · exact undotted dotted

end CleanName

open CleanName Text in
/-- A clean name has no underscore at an end or beside another one. It consists of letters, digits
and underscores, and cleaning leaves it as it is, unless the name has a capital I with a dot above.
Then it has the combining dot too, until it is cleaned once more. -/
theorem separated_and_settled_iff (name : String) :
    Separated (cleanName name).toList ∧
      (∀ c ∈ (cleanName name).toList, isAlphanumeric c = true ∨ c = '_' ∨ c = '\u0307') ∧
      ((∀ c ∈ (cleanName name).toList, isAlphanumeric c = true ∨ c = '_') ↔
        'İ' ∉ name.toList) ∧
      (cleanName (cleanName name) = cleanName name ↔ 'İ' ∉ name.toList) ∧
      cleanName (cleanName (cleanName name)) = cleanName (cleanName name) := by
  refine ⟨separated_cleanName name, fun c member => ?_, ⟨fun clean dotted => ?_, ?_⟩,
    ⟨fun settled dotted => ?_, cleanName_cleanName⟩,
    cleanName_cleanName (dotted_notMem_cleanName name)⟩
  · rcases of_mem_cleanName member with underscore | ⟨alphanumeric, -⟩ | ⟨dot, -⟩
    · exact .inr (.inl underscore)
    · exact .inl alphanumeric
    · exact .inr (.inr dot)
  · rcases clean _ (combiningDot_mem_cleanName dotted) with alphanumeric | same
    · rw [isAlphanumeric_combiningDot] at alphanumeric
      cases alphanumeric
    · exact absurd same (by decide)
  · intro undotted c member
    rcases of_mem_cleanName member with underscore | ⟨alphanumeric, -⟩ | ⟨-, dotted⟩
    · exact .inr underscore
    · exact .inl alphanumeric
    · exact absurd dotted undotted
  · have gone := combiningDot_notMem_cleanName (dotted_notMem_cleanName name)
    rw [settled] at gone
    exact gone (combiningDot_mem_cleanName dotted)

/-- The combining dot is no letter, digit or underscore, but a clean name can have it. -/
theorem cleanName_of_dottedCapital :
    cleanName "İd" = "i\u0307d" ∧ Text.isAlphanumeric '\u0307' = false ∧
      cleanName (cleanName "İd") = "i_d" := by
  decide +kernel

end DesignMatrix
