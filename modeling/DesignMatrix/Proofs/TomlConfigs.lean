import DesignMatrix.Config.Toml
import DesignMatrix.Proofs.TextFronts
import DesignMatrix.Proofs.TomlTexts
import DesignMatrix.Proofs.WrittenSettings

/-!
# Configurations written in TOML

A document with a line for each key is read line by line, so that a configuration in TOML is read
back as it was written.
-/

namespace DesignMatrix

open Fronts

namespace Toml

/-! ## Lines -/

theorem skipBlanks_of_head? {cs : List Char} (h : ∀ c ∈ cs.head?, isBlank c = false) :
    skipBlanks cs = cs :=
  (takeWhile_append_of_head? (List.forall_mem_nil _) h).2

theorem readKey?_append {key rest : List Char} (plain : ∀ c ∈ key, isKeyCharacter c = true)
    (nonempty : key ≠ []) (ended : ∀ c ∈ rest.head?, isKeyCharacter c = false) :
    readKey? (key ++ rest) = some (String.ofList key, rest) := by
  obtain ⟨word, behind⟩ := takeWhile_append_of_head? plain ended
  have notQuote (quote : Char) (notKey : isKeyCharacter quote = false) (cs : List Char) :
      key ++ rest ≠ quote :: cs := by
    intro same
    obtain ⟨first, more, rfl⟩ := List.exists_cons_of_ne_nil nonempty
    obtain rfl : first = quote := (List.cons.inj same).1
    cases notKey.symm.trans (plain first List.mem_cons_self)
  rw [readKey?.eq_3, word, behind]
  · simp [nonempty]
  · exact fun cs => notQuote '"' (by decide) cs
  · exact fun cs => notQuote '\'' (by decide) cs

theorem isBlank_of_isKeyCharacter {c : Char} (h : isKeyCharacter c = true) :
    isBlank c = false := by
  by_contra blank
  rw [Bool.not_eq_false, isBlank, Bool.or_eq_true, beq_iff_eq, beq_iff_eq] at blank
  rcases blank with rfl | rfl <;> cases h

theorem readPath?_append {key rest : List Char} (plain : ∀ c ∈ key, isKeyCharacter c = true)
    (nonempty : key ≠ []) :
    readPath? (key ++ ' ' :: '=' :: rest) = some ([], String.ofList key, '=' :: rest) := by
  have start : skipBlanks (key ++ ' ' :: '=' :: rest) = key ++ ' ' :: '=' :: rest :=
    skipBlanks_of_head? fun c same =>
      isBlank_of_isKeyCharacter (head?_append_of_forall plain nonempty c same)
  have read : readKey? (key ++ ' ' :: '=' :: rest) =
      some (String.ofList key, ' ' :: '=' :: rest) := by
    refine readKey?_append plain nonempty fun c same => ?_
    obtain rfl := Option.some.inj same
    decide
  have behind : skipBlanks (' ' :: '=' :: rest) = '=' :: rest := rfl
  show readKeys? (78 + 1) _ = _
  rw [readKeys?]
  simp only [start, read, Option.bind_eq_bind, Option.bind_some, behind]
  rfl

theorem readValue?_of_head? {cs : List Char} (h : ∀ c ∈ cs.head?, c ≠ '[' ∧ c ≠ '{')
    (fuel depth : ℕ) : readValue? (fuel + 1) depth cs =
      if cs.head? = some '"' || cs.head? = some '\'' then
        (readText? cs).map fun (text, rest) => (.text (String.ofList text), rest)
      else readBare? cs := by
  have ne (c : Char) (opening : c = '[' ∨ c = '{') (rest : List Char) : cs ≠ c :: rest := by
    rintro rfl
    obtain ⟨notBracket, notBrace⟩ := h c rfl
    exact opening.elim notBracket notBrace
  rw [readValue?.eq_6]
  · exact fun rest _ => ne '[' (.inl rfl) rest
  · exact fun rest _ => ne '{' (.inr rfl) rest
  · exact fun _ rest _ => ne '[' (.inl rfl) rest
  · exact fun _ rest _ => ne '{' (.inr rfl) rest

theorem head?_writeText (cs rest : List Char) :
    (writeText cs ++ rest).head? = some '"' ∨ (writeText cs ++ rest).head? = some '\'' := by
  unfold writeText writeBasic writeLiteral writeLongBasic writeLongLiteral writeLong
  simp only
  split_ifs <;> simp

theorem readValue?_writeText (fuel depth : ℕ) (cs rest : List Char) :
    readValue? (fuel + 1) depth (writeText cs ++ '\n' :: rest) =
      some (.text (String.ofList cs), '\n' :: rest) := by
  have quoted := head?_writeText cs ('\n' :: rest)
  have read : readText? (writeText cs ++ '\n' :: rest) = some (cs, '\n' :: rest) :=
    readText?_writeText cs (by simp) (by simp)
  rw [readValue?_of_head?, if_pos (by simpa using quoted), read]
  · rfl
  · intro c same
    rcases quoted with double | single
    · obtain rfl := Option.some.inj (double.symm.trans same)
      decide
    · obtain rfl := Option.some.inj (single.symm.trans same)
      decide

theorem readValue?_truth (fuel depth : ℕ) (value : Bool) (rest : List Char) :
    readValue? (fuel + 1) depth ((toString value).toList ++ '\n' :: rest) =
      some (.truth value, '\n' :: rest) := by
  have word : ∀ c ∈ (toString value).toList, isBare c = true ∧
      c ≠ '"' ∧ c ≠ '\'' ∧ c ≠ '[' ∧ c ≠ '{' :=
    forall_mem_of_all (by cases value <;> decide +kernel)
  have ended : ∀ c ∈ ('\n' :: rest).head?, isBare c = false := by
    intro c same
    obtain rfl := Option.some.inj same
    decide
  obtain ⟨bare, behind⟩ := takeWhile_append_of_head? (fun c member => (word c member).1) ended
  have nonempty : (toString value).toList ≠ [] := by cases value <;> decide +kernel
  have start : ∀ c ∈ ((toString value).toList ++ '\n' :: rest).head?, isBare c = true ∧
      c ≠ '"' ∧ c ≠ '\'' ∧ c ≠ '[' ∧ c ≠ '{' := head?_append_of_forall word nonempty
  have unquoted : ¬(((toString value).toList ++ '\n' :: rest).head? = some '"' ||
      ((toString value).toList ++ '\n' :: rest).head? = some '\'') := by
    rw [Bool.or_eq_true, decide_eq_true_eq, decide_eq_true_eq]
    rintro (double | single)
    · exact (start _ double).2.1 rfl
    · exact (start _ single).2.2.1 rfl
  rw [readValue?_of_head? fun c same => (start c same).2.2.2, if_neg unquoted]
  simp only [readBare?, bare, behind]
  cases value with
  | true => exact if_pos rfl
  | false =>
    rw [if_neg (by decide +kernel)]
    exact if_pos rfl

theorem Document.add?_new {key : String} {members : Members} (new : members.lookup key = none)
    (value : Value) :
    Document.add? ⟨members, []⟩ [] key value = some ⟨members ++ [(key, .value value)], []⟩ := by
  have own : (Origin.header == Origin.dotted) = false := by decide
  simp [Document.add?, Members.modifyAt?, Members.addDotted?, Members.add?, new, own]

/-- A line that sets a new key adds the key and its value. -/
theorem readLine?_setting {key value : List Char} {entry : Value} {members : Members}
    (plain : ∀ c ∈ key, isKeyCharacter c = true) (nonempty : key ≠ [])
    (new : members.lookup (String.ofList key) = none) {rest : List Char}
    (read : ∀ fuel, readValue? (fuel + 1) depthLimit (value ++ '\n' :: rest) =
      some (entry, '\n' :: rest))
    (start : ∀ c ∈ (value ++ '\n' :: rest).head?, isBlank c = false) :
    readLine? ⟨members, []⟩ (key ++ ' ' :: '=' :: ' ' :: (value ++ '\n' :: rest)) =
      some (⟨members ++ [(String.ofList key, .value entry)], []⟩, '\n' :: rest) := by
  have path : readPath? (key ++ ' ' :: '=' :: ' ' :: (value ++ '\n' :: rest)) = _ :=
    readPath?_append plain nonempty
  obtain ⟨first, more, rfl⟩ := List.exists_cons_of_ne_nil nonempty
  have isKey := plain first List.mem_cons_self
  have notBracket : first ≠ '[' := by
    rintro rfl
    cases isKey
  have inLine : ¬(first == '\n' || first == '#') = true := by
    rw [Bool.or_eq_true, beq_iff_eq, beq_iff_eq]
    rintro (rfl | rfl) <;> cases isKey
  rw [List.cons_append] at path ⊢
  rw [readLine?.eq_4]
  · rw [if_neg inLine, path]
    have equals (cs : List Char) : after? '=' ('=' :: cs) = some cs := rfl
    have blank (cs : List Char) : skipBlanks (' ' :: cs) = skipBlanks cs := rfl
    simp only [Option.bind_eq_bind, Option.bind_some, equals, blank, skipBlanks_of_head? start,
      read, Document.add?_new new]
  · exact fun _ same => absurd same notBracket
  · exact notBracket

end Toml

namespace Config

open Toml

/-- The value that a setting is written as. -/
def Setting.toml : Setting → Toml.Value
  | .text value => .text value
  | .flag value => .truth value

/-- The member that stands for a setting. -/
def tomlMember (entry : ConfigKey × Setting) : String × Toml.Entry :=
  (entry.1.text, .value (Setting.toml entry.2))

/-- The line of a setting. -/
def tomlLine (entry : ConfigKey × Setting) : List Char :=
  entry.1.text.toList ++ " = ".toList ++ tomlOfSetting entry.2 ++ ['\n']

theorem isKeyCharacter_of_mem_text (key : ConfigKey) :
    ∀ c ∈ key.text.toList, isKeyCharacter c = true :=
  forall_mem_of_all (by cases key <;> decide +kernel)

theorem toList_text_ne_nil (key : ConfigKey) : key.text.toList ≠ [] := by
  cases key <;> decide +kernel

theorem readValue?_tomlOfSetting (setting : Setting) (fuel depth : ℕ) (rest : List Char) :
    readValue? (fuel + 1) depth (tomlOfSetting setting ++ '\n' :: rest) =
      some (Setting.toml setting, '\n' :: rest) := by
  cases setting with
  | text value =>
    have read := readValue?_writeText fuel depth value.toList rest
    rwa [String.ofList_toList] at read
  | flag value => exact readValue?_truth fuel depth value rest

theorem isBlank_of_mem_head?_tomlOfSetting (setting : Setting) (rest : List Char) :
    ∀ c ∈ (tomlOfSetting setting ++ rest).head?, isBlank c = false := by
  intro c same
  cases setting with
  | text value =>
    rcases head?_writeText value.toList rest with double | single
    · obtain rfl := Option.some.inj (double.symm.trans same)
      decide
    · obtain rfl := Option.some.inj (single.symm.trans same)
      decide
  | flag value =>
    have word : ∀ c ∈ (toString value).toList, isBlank c = false :=
      forall_mem_of_all (by cases value <;> decide +kernel)
    exact head?_append_of_forall word (by cases value <;> decide +kernel) c same

theorem tomlLine_append (entry : ConfigKey × Setting) (rest : List Char) :
    tomlLine entry ++ rest =
      entry.1.text.toList ++ ' ' :: '=' :: ' ' :: (tomlOfSetting entry.2 ++ '\n' :: rest) := by
  have equals : " = ".toList = [' ', '=', ' '] := by decide
  simp [tomlLine, equals]

theorem readLine?_tomlLine {entry : ConfigKey × Setting} {members : Members}
    (new : entry.1.text ∉ members.map Prod.fst) (rest : List Char) :
    readLine? ⟨members, []⟩ (skipBlanks (tomlLine entry ++ rest)) =
      some (⟨members ++ [tomlMember entry], []⟩, '\n' :: rest) := by
  have plain := isKeyCharacter_of_mem_text entry.1
  have nonempty := toList_text_ne_nil entry.1
  have absent : members.lookup (String.ofList entry.1.text.toList) = none := by
    rw [String.ofList_toList, List.lookup_eq_none_iff]
    intro member inside
    rw [bne_iff_ne]
    exact fun same => new (same ▸ List.mem_map_of_mem inside)
  have line := readLine?_setting plain nonempty absent
    (fun fuel => readValue?_tomlOfSetting entry.2 fuel depthLimit rest)
    (isBlank_of_mem_head?_tomlOfSetting entry.2 ('\n' :: rest))
  rw [tomlLine_append, skipBlanks_of_head? fun c same =>
    isBlank_of_isKeyCharacter (head?_append_of_forall plain nonempty c same), line,
    String.ofList_toList]
  rfl

/-- Lines with keys of their own are read as they were written. -/
theorem readLines?_flatMap {entries : List (ConfigKey × Setting)} {members : Members} {fuel : ℕ}
    (enough : entries.length < fuel)
    (distinct : (members.map Prod.fst ++ entries.map fun entry => entry.1.text).Nodup) :
    readLines? fuel ⟨members, []⟩ (entries.flatMap tomlLine) =
      some ⟨members ++ entries.map tomlMember, []⟩ := by
  induction entries generalizing members fuel with
  | nil =>
    obtain ⟨fuel, rfl⟩ : ∃ less, fuel = less + 1 := ⟨fuel - 1, by omega⟩
    simp [readLines?, skipBlanks, readLine?, skipComment?]
  | cons entry entries ih =>
    obtain ⟨fuel, rfl⟩ : ∃ less, fuel = less + 1 := ⟨fuel - 1, by omega⟩
    have new : entry.1.text ∉ members.map Prod.fst := by
      intro inside
      exact (List.nodup_append.mp distinct).2.2 _ inside _ List.mem_cons_self rfl
    have distinct' : ((members ++ [tomlMember entry]).map Prod.fst ++
        entries.map fun entry => entry.1.text).Nodup := by
      simpa [tomlMember] using distinct
    have blanks (rest : List Char) : skipBlanks ('\n' :: rest) = '\n' :: rest := rfl
    have comment (rest : List Char) : skipComment? ('\n' :: rest) = some ('\n' :: rest) :=
      if_neg (by simp)
    rw [List.flatMap_cons, readLines?, readLine?_tomlLine new]
    simp only [Option.bind_eq_bind, Option.bind_some, blanks, comment]
    rw [ih (Nat.lt_of_succ_lt_succ enough) distinct']
    simp

theorem length_le_length_flatMap_tomlLine (entries : List (ConfigKey × Setting)) :
    entries.length ≤ (entries.flatMap tomlLine).length := by
  induction entries with
  | nil => exact le_rfl
  | cons entry entries ih =>
    simp only [List.flatMap_cons, List.length_append, List.length_cons, tomlLine]
    omega

theorem notMem_tomlLine (entry : ConfigKey × Setting) : '\r' ∉ tomlLine entry := by
  have key : '\r' ∉ entry.1.text.toList := fun member =>
    absurd (isKeyCharacter_of_mem_text entry.1 _ member) (by decide)
  have setting : '\r' ∉ tomlOfSetting entry.2 := by
    cases entry.2 with
    | text value => exact notMem_writeText value.toList
    | flag value => cases value <;> decide +kernel
  simp [tomlLine, key, setting]

theorem unifyNewlines_of_notMem {cs : List Char} (h : '\r' ∉ cs) : unifyNewlines cs = cs := by
  induction cs with
  | nil => rfl
  | cons c cs ih =>
    rw [List.mem_cons, not_or] at h
    rw [unifyNewlines.eq_2 c cs fun _ same => absurd same.symm h.1, ih h.2]

theorem parse?_writeToml (config : Config) :
    Toml.parse? config.writeToml = some (config.settings.map tomlMember) := by
  have written : config.writeToml.toList = config.settings.flatMap tomlLine := by
    rw [writeToml, String.toList_ofList]
    rfl
  have unified : unifyNewlines config.writeToml.toList = config.writeToml.toList := by
    refine unifyNewlines_of_notMem ?_
    rw [written, List.mem_flatMap]
    rintro ⟨entry, -, member⟩
    exact notMem_tomlLine entry member
  have noMark : config.writeToml.toList.head? ≠ some '\ufeff' := by
    rw [written, settings, ConfigKey.all, List.map_cons, List.flatMap_cons, tomlLine_append]
    intro same
    have isKey := head?_append_of_forall (isKeyCharacter_of_mem_text .interceptName)
      (toList_text_ne_nil .interceptName) _ same
    cases isKey
  have distinct : (([] : Members).map Prod.fst ++
      config.settings.map fun entry => entry.1.text).Nodup := by
    have keys : (config.settings.map fun entry => entry.1.text) =
        ConfigKey.all.map ConfigKey.text := rfl
    rw [keys]
    decide +kernel
  have read := readLines?_flatMap (Nat.lt_succ_of_le
    (length_le_length_flatMap_tomlLine config.settings)) distinct
  simp only [Toml.parse?, unified, if_neg noMark]
  rw [written, read]
  rfl

theorem readToml?_writeToml (config : Config) : readToml? config.writeToml = some config := by
  rw [readToml?, parse?_writeToml, Option.bind_some, ofToml?]
  refine ofMembers?_map fun entry _ => ?_
  obtain ⟨key, setting⟩ := entry
  cases setting <;> simp [settingOfTomlMember?, tomlMember, Setting.toml, settingOfToml?]

end Config

end DesignMatrix
