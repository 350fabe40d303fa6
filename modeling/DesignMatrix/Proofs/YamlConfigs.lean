import DesignMatrix.Proofs.WrittenSettings
import DesignMatrix.Proofs.YamlLayout
import DesignMatrix.Config.Yaml

/-!
# Configurations in YAML read back

The lines of a configuration are read as the tokens of a mapping, these as its members, and these as
the settings of the configuration.
-/

namespace DesignMatrix

namespace Yaml

theorem isAllowed_of_isPrintable {c : Char} (printable : isPrintable c = true) :
    isAllowed c = true := by
  simp only [isPrintable, isAllowed, Bool.or_eq_true, Bool.and_eq_true] at *
  tauto

theorem unifyBreaks_of_isPrintable {cs : List Char} (h : ∀ c ∈ cs, isPrintable c = true) :
    unifyBreaks cs = cs := by
  induction cs with
  | nil => rfl
  | cons c cs ih =>
    obtain ⟨head, tail⟩ := List.forall_mem_cons.mp h
    rw [unifyBreaks.eq_4, ih tail]
    · rintro rest rfl rfl
      cases head
    · rintro rfl
      cases head
    · rintro rfl
      cases head

end Yaml

namespace Config

open Fronts Yaml Yaml.Layout

theorem isKey_text (key : ConfigKey) : IsKey key.text.toList where
  starts := by
    have letter : key.text.toList.head?.all Char.isAlpha = true := by cases key <;> decide +kernel
    intro c first
    rw [Option.mem_def] at first
    simpa [first] using letter
  word := forall_mem_of_all (by cases key <;> decide +kernel)
  nonempty := by cases key <;> decide +kernel
  short := by cases key <;> decide +kernel

/-! ## Lines -/

/-- A key and its setting on lines of their own. -/
def yamlLine (entry : ConfigKey × Setting) : List Char :=
  writeMember entry.1.text.toList (yamlOfSetting entry.2)

/-- The scalar that a setting is written as. -/
def yamlStyle : Setting → Style × String
  | .text value => (writtenStyle value.toList, value)
  | .flag value => (.plain, toString value)

/-- The tokens of a line. -/
def yamlTokens (entry : ConfigKey × Setting) : List Yaml.Token :=
  [.key, .scalar .plain entry.1.text, .value, .scalar (yamlStyle entry.2).1 (yamlStyle entry.2).2]

theorem isValue_yamlOfSetting (setting : Setting) :
    IsValue (yamlOfSetting setting ++ lineEnding (yamlOfSetting setting))
      (.scalar (yamlStyle setting).1 (yamlStyle setting).2) := by
  cases setting with
  | text value => simpa [yamlStyle, yamlOfSetting] using (isWritten_writeText value.toList).isValue
  | flag value =>
    have inLine : ∀ c ∈ (toString value).toList, isBreak c = false :=
      forall_mem_of_all (by cases value <;> decide +kernel)
    rw [yamlOfSetting, lineEnding_of_inLine inLine]
    cases value with
    | true =>
      have plain : IsPlainText ['t', 'r', 'u', 'e'] :=
        ⟨forall_mem_of_all (by decide), by decide, by decide⟩
      exact isValue_plain plain (startsPlain_of_isAlpha rfl _) rfl
    | false =>
      have plain : IsPlainText ['f', 'a', 'l', 's', 'e'] :=
        ⟨forall_mem_of_all (by decide), by decide, by decide⟩
      exact isValue_plain plain (startsPlain_of_isAlpha rfl _) rfl

theorem yamlLine_append (entry : ConfigKey × Setting) (more : List Char) :
    yamlLine entry ++ more = entry.1.text.toList ++ ':' :: ' ' ::
      (yamlOfSetting entry.2 ++ lineEnding (yamlOfSetting entry.2) ++ more) := by
  simp [yamlLine, writeMember, lineEnding]

theorem isPrintable_yamlLine (entry : ConfigKey × Setting) :
    ∀ d ∈ yamlLine entry, isPrintable d = true := by
  have key : ∀ d ∈ entry.1.text.toList, isPrintable d = true :=
    forall_mem_of_all (by cases entry.1 <;> decide +kernel)
  have setting : ∀ d ∈ yamlOfSetting entry.2, isPrintable d = true := by
    cases entry.2 with
    | text value => exact (isWritten_writeText value.toList).isPrintable
    | flag value => exact forall_mem_of_all (by cases value <;> decide +kernel)
  have ending : ∀ d ∈ lineEnding (yamlOfSetting entry.2), isPrintable d = true := by
    unfold lineEnding
    split <;> exact forall_mem_of_all (by decide)
  intro d member
  rw [← List.append_nil (yamlLine entry), yamlLine_append] at member
  simp only [List.append_nil, List.mem_append, List.mem_cons] at member
  rcases member with member | rfl | rfl | member | member
  · exact key d member
  · rfl
  · rfl
  · exact setting d member
  · exact ending d member

theorem head?_flatMap_yamlLine (entries : List (ConfigKey × Setting)) :
    ∀ c ∈ (entries.flatMap yamlLine).head?, isWord c = true := by
  cases entries with
  | nil => simp
  | cons entry entries =>
    rw [List.flatMap_cons, yamlLine_append]
    exact head?_append_of_forall (isKey_text entry.1).word (isKey_text entry.1).nonempty

/-- Each line takes three tokens to read, and the mapping ends behind the last one. -/
theorem reads_flatMap_yamlLine (entries : List (ConfigKey × Setting)) (fuel line : ℕ)
    (tokens : List Yaml.Token) :
    Reads (3 * entries.length + fuel + 1) (atKey (entries.flatMap yamlLine) line tokens [0])
      (tokens.reverse ++ entries.flatMap yamlTokens ++ [.blockEnd]) := by
  induction entries generalizing line tokens with
  | nil => simpa using Reads.end fuel line tokens
  | cons entry entries ih =>
    have count : 3 * (entry :: entries).length + fuel + 1 = 3 * entries.length + fuel + 1 + 3 := by
      rw [List.length_cons]
      omega
    rw [List.flatMap_cons, yamlLine_append, count]
    refine .member (isKey_text entry.1) (isValue_yamlOfSetting entry.2) (.inr rfl)
      (head?_flatMap_yamlLine entries) fun line' => ?_
    have read := ih line' (.scalar (yamlStyle entry.2).1 (yamlStyle entry.2).2 :: .value ::
      .scalar .plain (String.ofList entry.1.text.toList) :: .key :: opened [0] tokens)
    simpa [opened, yamlTokens] using read

/-! ## The document -/

/-- The nodes of a line. -/
def yamlMember (entry : ConfigKey × Setting) : Node × Node :=
  (.scalar .plain none entry.1.text, .scalar (yamlStyle entry.2).1 none (yamlStyle entry.2).2)

theorem readMembers?_flatMap {entries : List (ConfigKey × Setting)} {fuel : ℕ}
    (enough : entries.length + 3 < fuel) (handles : List (String × String)) (anchors : Anchors) :
    readMembers? fuel ⟨entries.flatMap yamlTokens ++ [.blockEnd], handles, anchors⟩ =
      some (entries.map yamlMember, ⟨[], handles, anchors⟩) := by
  have scalar (fuel : ℕ) (style : Style) (text : String) (tokens : List Yaml.Token) :
      readMemberNode? (fuel + 3) ⟨.scalar style text :: tokens, handles, anchors⟩ =
        some (.scalar style none text, ⟨tokens, handles, anchors⟩) := rfl
  induction entries generalizing fuel with
  | nil =>
    obtain ⟨fuel, rfl⟩ := Nat.exists_eq_succ_of_ne_zero (n := fuel) (by omega)
    rfl
  | cons entry entries ih =>
    rw [List.length_cons] at enough
    obtain ⟨fuel, rfl⟩ : ∃ less, fuel = less + 4 := ⟨fuel - 4, by omega⟩
    have left : entries.length + 3 < fuel + 3 := by omega
    have others := ih left
    simp only [List.flatMap_cons, yamlTokens, List.cons_append, List.nil_append]
    rw [readMembers?]
    simp [Feed.head?, Feed.tail, scalar, others, yamlMember]

theorem document?_flatMap (entries : List (ConfigKey × Setting)) :
    document? (.blockMapping :: entries.flatMap yamlTokens ++ [.blockEnd]) =
      some (some ⟨.mapping (entries.map yamlMember), .empty⟩) := by
  obtain ⟨tokens, isTokens⟩ : ∃ tokens, entries.flatMap yamlTokens ++ [.blockEnd] = tokens :=
    ⟨_, rfl⟩
  have count : tokens.length = 4 * entries.length + 1 := by
    rw [← isTokens, List.length_append, List.length_flatMap]
    simp [yamlTokens, Nat.mul_comm]
  have enough : entries.length + 3 < 8 * (tokens.length + 1) + 6 := by omega
  have members := readMembers?_flatMap enough standardHandles .empty
  rw [isTokens] at members
  have root : readRoot? false ⟨.blockMapping :: tokens, standardHandles, .empty⟩ =
      some (.mapping (entries.map yamlMember), ⟨[], standardHandles, .empty⟩) := by
    simp [readRoot?, readNode?, readContent?, readProperties?, Feed.head?, Feed.tail,
      Feed.open?, Feed.close?, members]
  have directives : readDirectives? false [] (.blockMapping :: tokens) =
      some ([], .blockMapping :: tokens) := rfl
  rw [List.cons_append, isTokens]
  simp [document?, directives, opensDocument, root]

theorem length_le_length_flatMap_yamlLine (entries : List (ConfigKey × Setting)) :
    3 * entries.length ≤ (entries.flatMap yamlLine).length := by
  induction entries with
  | nil => exact Nat.zero_le _
  | cons entry entries ih =>
    have key := List.length_pos_iff.mpr (isKey_text entry.1).nonempty
    rw [List.flatMap_cons, yamlLine_append]
    simp only [List.length_append, List.length_cons]
    omega

/-- The first key starts the mapping. -/
theorem tokens?_flatMap_yamlLine {entries : List (ConfigKey × Setting)} (nonempty : entries ≠ []) :
    tokens? (entries.flatMap yamlLine) =
      some (.blockMapping :: entries.flatMap yamlTokens ++ [.blockEnd]) := by
  have enough := length_le_length_flatMap_yamlLine entries
  have start := approach?_atKey (head?_flatMap_yamlLine entries) (.inl rfl) 0 []
  obtain ⟨entry, entries, rfl⟩ := List.exists_cons_of_ne_nil nonempty
  obtain ⟨fuel, count⟩ : ∃ fuel, ((entry :: entries).flatMap yamlLine).length + 1 =
      3 * entries.length + fuel + 1 + 3 := by
    rw [List.length_cons] at enough
    exact ⟨((entry :: entries).flatMap yamlLine).length - 3 * entries.length - 3, by omega⟩
  have reads : Reads (3 * entries.length + fuel + 1 + 3)
      (atKey ((entry :: entries).flatMap yamlLine) 0 [] [])
      (.blockMapping :: (entry :: entries).flatMap yamlTokens ++ [.blockEnd]) := by
    rw [List.flatMap_cons, yamlLine_append]
    refine .member (isKey_text entry.1) (isValue_yamlOfSetting entry.2) (.inl rfl)
      (head?_flatMap_yamlLine entries) fun line' => ?_
    have read := reads_flatMap_yamlLine entries fuel line'
      (.scalar (yamlStyle entry.2).1 (yamlStyle entry.2).2 :: .value ::
        .scalar .plain (String.ofList entry.1.text.toList) :: .key :: opened [] [])
    simpa [opened, yamlTokens] using read
  rw [tokens?, count]
  exact reads _ start

theorem parse?_writeYaml (config : Config) : Yaml.parse? config.writeYaml =
    some (some ⟨.mapping (config.settings.map yamlMember), .empty⟩) := by
  have written : config.writeYaml.toList = config.settings.flatMap yamlLine := by
    rw [writeYaml, String.toList_ofList]
    rfl
  have printable : ∀ c ∈ config.writeYaml.toList, isPrintable c = true := by
    intro c member
    rw [written] at member
    obtain ⟨entry, -, member⟩ := List.mem_flatMap.mp member
    exact isPrintable_yamlLine entry c member
  have allowed : config.writeYaml.toList.all isAllowed = true :=
    List.all_eq_true.mpr fun c member => isAllowed_of_isPrintable (printable c member)
  have nonempty : config.settings ≠ [] := by simp [settings, ConfigKey.all]
  rw [Yaml.parse?, allowed, unifyBreaks_of_isPrintable printable, written,
    tokens?_flatMap_yamlLine nonempty]
  simp only [Bool.not_true, Bool.false_eq_true, if_false, Option.bind_eq_bind,
    Option.bind_some, document?_flatMap]

theorem readYaml?_writeYaml (config : Config) : readYaml? config.writeYaml = some config := by
  rw [readYaml?, parse?_writeYaml, Option.bind_some, ofYaml?, Option.elim_some, ofYamlDocument?]
  refine ofMembers?_map fun entry member => ?_
  obtain ⟨key, -, rfl⟩ := List.mem_map.mp member
  have truth (value : Bool) : Yaml.truth? (toString value) = some value := by
    cases value <;> decide +kernel
  cases key <;>
    simp [settingOfYamlMember?, yamlMember, Document.resolve?, Node.text?, settingOfYaml?,
      ConfigKey.isFlag, Node.truth?, yamlStyle, get, truth]

end Config

end DesignMatrix
