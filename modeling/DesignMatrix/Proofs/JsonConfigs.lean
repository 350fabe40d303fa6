import Mathlib.Data.List.Basic
import DesignMatrix.Config.Json
import DesignMatrix.Proofs.HexCodes
import DesignMatrix.Proofs.WrittenSettings

/-!
# Configurations written in JSON

A string in JSON holds the text it was written for, whatever follows it. So a configuration in JSON
is read back as it was written.
-/

namespace DesignMatrix

namespace Json

private theorem readCharacters?_of_no_code {a b c d : Char} (rest : List Char)
    (value : Hex.value? [a, b, c, d] = none) :
    readCharacters? ('\\' :: 'u' :: a :: b :: c :: d :: rest) = none := by
  rw [readCharacters?.eq_def]
  split <;> grind

/-- An escape by a code that is no half of a pair stands for the character of the code, also if
another escape follows. -/
theorem readCharacters?_code {a b c d : Char} {code : ℕ} {rest : List Char}
    {read : Option (List Char) × List Char} (value : Hex.value? [a, b, c, d] = some code)
    (single : isHighSurrogate code = false) (found : readCharacters? rest = some read) :
    readCharacters? ('\\' :: 'u' :: a :: b :: c :: d :: rest) =
      some (prependCharacter (Hex.character? code) read) := by
  by_cases follows : ∃ a' b' c' d' more, rest = '\\' :: 'u' :: a' :: b' :: c' :: d' :: more
  · obtain ⟨a', b', c', d', more, rfl⟩ := follows
    cases low : Hex.value? [a', b', c', d'] with
    | none => cases (readCharacters?_of_no_code more low).symm.trans found
    | some low' => simp [readCharacters?.eq_3, value, low, single, found]
  · rw [readCharacters?.eq_4]
    · simp [value, found]
    · rintro a' b' c' d' more rfl
      exact follows ⟨a', b', c', d', more, rfl⟩

theorem shortEscape?_of_escapeLetter? {c letter : Char} (h : escapeLetter? c = some letter) :
    shortEscape? letter = some c ∧ letter ≠ 'u' := by
  unfold escapeLetter? at h
  split at h <;> cases h <;> decide

/-- A character that is written without an escape is neither a quote nor a backslash. -/
theorem ne_of_escapeLetter?_eq_none {c : Char} (h : escapeLetter? c = none) :
    c ≠ '"' ∧ c ≠ '\\' := by
  constructor
  · rintro rfl
    cases h
  · rintro rfl
    cases h

theorem readCharacters?_escape (c : Char) {rest : List Char}
    {read : Option (List Char) × List Char} (found : readCharacters? rest = some read) :
    readCharacters? (escape c ++ rest) = some (prependCharacter (some c) read) := by
  cases letter : escapeLetter? c with
  | some letter' =>
    obtain ⟨meant, notCode⟩ := shortEscape?_of_escapeLetter? letter
    simp only [escape, letter, List.cons_append, List.nil_append]
    rw [readCharacters?.eq_5]
    · simp [meant, found]
    · exact fun _ _ _ _ _ _ _ _ _ code => absurd code notCode
    · exact fun _ _ _ _ _ code => absurd code notCode
  | none =>
    simp only [escape, letter]
    split
    · rename_i control
      have value : Hex.value? (Hex.fixed 4 c.toNat) = some c.toNat :=
        Hex.value?_fixed (by norm_num; omega)
      have single : isHighSurrogate c.toNat = false := by
        simp only [isHighSurrogate, Bool.and_eq_false_imp, decide_eq_true_eq]
        omega
      have written := readCharacters?_code value single found
      rw [Hex.character?_toNat] at written
      exact written
    · rename_i printable
      obtain ⟨notQuote, notBackslash⟩ := ne_of_escapeLetter?_eq_none letter
      rw [List.singleton_append, readCharacters?.eq_6]
      · simp [printable, found]
      · exact notQuote
      · exact fun _ _ _ _ _ _ _ _ _ code => absurd code notBackslash
      · exact fun _ _ _ _ _ code => absurd code notBackslash
      · exact fun _ _ code => absurd code notBackslash

/-- What is written between quotes is read up to the closing quote. -/
theorem readCharacters?_flatMap_escape (cs rest : List Char) :
    readCharacters? (cs.flatMap escape ++ '"' :: rest) = some (some cs, rest) := by
  induction cs with
  | nil => rfl
  | cons c cs ih =>
    rw [List.flatMap_cons, List.append_assoc]
    exact readCharacters?_escape c ih

end Json

namespace Config

open Json

/-- The value that a setting is written as. -/
def Setting.json : Setting → Json
  | .text value => .string (some value)
  | .flag value => .boolean value

theorem readValue?_jsonOfSetting (fuel : ℕ) (setting : Setting) (rest : List Char) :
    readValue? (fuel + 1) ((jsonOfSetting setting).toList ++ rest) =
      some (Setting.json setting, rest) := by
  cases setting with
  | text value =>
    have written : (jsonOfSetting (.text value)).toList ++ rest =
        '"' :: (value.toList.flatMap escape ++ '"' :: rest) := by
      simp [jsonOfSetting, quote]
    rw [written, readValue?]
    simp [readString?, readCharacters?_flatMap_escape, Setting.json]
  | flag value => cases value <;> rfl

/-- A member of an object as it is written, without the comma behind it. -/
def memberText (entry : ConfigKey × Setting) : String :=
  "  " ++ quote entry.1.text ++ ": " ++ jsonOfSetting entry.2

/-- The member that stands for a setting. -/
def jsonMember (entry : ConfigKey × Setting) : Option String × Json :=
  (some entry.1.text, Setting.json entry.2)

theorem toList_memberText (entry : ConfigKey × Setting) (rest : List Char) :
    (memberText entry).toList ++ rest = ' ' :: ' ' :: '"' ::
      (entry.1.text.toList.flatMap escape ++ '"' :: ':' :: ' ' ::
        ((jsonOfSetting entry.2).toList ++ rest)) := by
  simp [memberText, quote]

theorem skipBlanks_jsonOfSetting (setting : Setting) (rest : List Char) :
    skipBlanks ((jsonOfSetting setting).toList ++ rest) =
      (jsonOfSetting setting).toList ++ rest := by
  cases setting with
  | text value => simp [jsonOfSetting, quote, skipBlanks, isBlank]
  | flag value => cases value <;> rfl

/-- A member is read up to what follows its value: another member or the end of the object. -/
theorem readMembers?_memberText (fuel : ℕ) (entry : ConfigKey × Setting) (rest : List Char) :
    readMembers? (fuel + 2) (skipBlanks ((memberText entry).toList ++ rest)) =
      match skipBlanks rest with
      | '}' :: rest => some ([jsonMember entry], rest)
      | ',' :: rest => do
        let (members, rest) ← readMembers? (fuel + 1) (skipBlanks rest)
        some (jsonMember entry :: members, rest)
      | _ => none := by
  have start : skipBlanks ((memberText entry).toList ++ rest) = '"' ::
      (entry.1.text.toList.flatMap escape ++ '"' :: ':' :: ' ' ::
        ((jsonOfSetting entry.2).toList ++ rest)) := by
    rw [toList_memberText]
    rfl
  have key (behind : List Char) :
      readString? (entry.1.text.toList.flatMap escape ++ '"' :: behind) =
        some (some entry.1.text, behind) := by
    simp [readString?, readCharacters?_flatMap_escape]
  have colon (behind : List Char) : skipBlanks (':' :: behind) = ':' :: behind := rfl
  have space (behind : List Char) : skipBlanks (' ' :: behind) = skipBlanks behind := rfl
  rw [start, readMembers?, key]
  simp only [Option.bind_eq_bind, Option.bind_some, colon, space, skipBlanks_jsonOfSetting,
    readValue?_jsonOfSetting]
  rfl

/-- The members of an object are read as they were written, one to a line. -/
theorem readMembers?_intercalate {entries : List (ConfigKey × Setting)} (nonempty : entries ≠ [])
    {fuel : ℕ} (enough : entries.length < fuel) (rest : List Char) :
    readMembers? fuel (skipBlanks ([',', '\n'].intercalate
      (entries.map fun entry => (memberText entry).toList) ++ '\n' :: '}' :: rest)) =
      some (entries.map jsonMember, rest) := by
  induction entries generalizing fuel with
  | nil => exact absurd rfl nonempty
  | cons entry entries ih =>
    obtain ⟨fuel, rfl⟩ : ∃ less, fuel = less + 2 :=
      ⟨fuel - 2, by simp only [List.length_cons] at enough; omega⟩
    cases entries with
    | nil =>
      rw [List.map_singleton, List.intercalate_singleton, readMembers?_memberText]
      rfl
    | cons next entries =>
      have enough' : (next :: entries).length < fuel + 1 := by simpa using enough
      have read := ih (List.cons_ne_nil next entries) enough'
      rw [List.map_cons, List.map_cons, List.intercalate_cons_cons, List.append_assoc,
        List.append_assoc, readMembers?_memberText]
      have comma (behind : List Char) :
          skipBlanks ([',', '\n'] ++ behind) = ',' :: '\n' :: behind := rfl
      have newline (behind : List Char) : skipBlanks ('\n' :: behind) = skipBlanks behind := rfl
      rw [List.map_cons] at read
      simp only [comma, newline, read]
      rfl

/-- The text of an object with some members, one to a line. -/
theorem toList_writeJson (config : Config) :
    config.writeJson.toList = '{' :: '\n' :: ([',', '\n'].intercalate
      (config.settings.map fun entry => (memberText entry).toList) ++ ['\n', '}']) := by
  have opening : "\x7b\n".toList = ['{', '\n'] := by decide
  have separator : ",\n".toList = [',', '\n'] := by decide
  have closing : "\n\x7d".toList = ['\n', '}'] := by decide
  simp only [writeJson, memberText, String.toList_append, String.toList_intercalate, List.map_map,
    Function.comp_def, opening, separator, closing, List.cons_append, List.nil_append]

theorem readValue?_object {fuel : ℕ} {cs rest : List Char} {members : List (Option String × Json)}
    (h : readMembers? fuel (skipBlanks cs) = some (members, rest)) :
    readValue? (fuel + 1) ('{' :: cs) = some (.object members, rest) := by
  obtain ⟨inside, starts⟩ : ∃ inside, skipBlanks cs = '"' :: inside := by
    unfold readMembers? at h
    split at h
    · cases h
    · exact ⟨_, by assumption⟩
    · cases h
  rw [starts] at h
  rw [readValue?, starts]
  simp [h]

theorem length_le_length_intercalate (separator : List Char) {texts : List (List Char)}
    (h : ∀ text ∈ texts, text ≠ []) : texts.length ≤ (separator.intercalate texts).length := by
  induction texts with
  | nil => exact Nat.zero_le _
  | cons text texts ih =>
    obtain ⟨head, tail⟩ := List.forall_mem_cons.mp h
    have first : 0 < text.length := List.length_pos_iff.mpr head
    cases texts with
    | nil =>
      rw [List.intercalate_singleton]
      exact first
    | cons next texts =>
      have others := ih tail
      rw [List.intercalate_cons_cons]
      simp only [List.length_append, List.length_cons] at others ⊢
      omega

theorem parse?_writeJson (config : Config) :
    Json.parse? config.writeJson = some (.object (config.settings.map jsonMember)) := by
  have written := config.toList_writeJson
  have nonempty : config.settings ≠ [] := by simp [settings, ConfigKey.all]
  have enough : config.settings.length < config.writeJson.toList.length := by
    have inhabited : ∀ text ∈ config.settings.map fun entry => (memberText entry).toList,
        text ≠ [] := by
      intro text member
      obtain ⟨entry, -, rfl⟩ := List.mem_map.mp member
      simp [memberText]
    have members := length_le_length_intercalate [',', '\n'] inhabited
    rw [written]
    simp only [List.length_map, List.length_cons, List.length_append] at members ⊢
    omega
  have read := readMembers?_intercalate nonempty enough []
  have start : skipBlanks config.writeJson.toList = config.writeJson.toList := by
    rw [written]
    rfl
  have whole : readValue? (config.writeJson.toList.length + 1) config.writeJson.toList =
      some (.object (config.settings.map jsonMember), []) := by
    have newline (cs : List Char) : skipBlanks ('\n' :: cs) = skipBlanks cs := rfl
    generalize config.writeJson.toList.length = fuel at read
    rw [written]
    apply readValue?_object
    rw [newline]
    exact read
  simp only [Json.parse?, start, whole]
  rfl

theorem readJson?_writeJson (config : Config) : readJson? config.writeJson = some config := by
  rw [readJson?, parse?_writeJson, Option.bind_some, ofJson?]
  refine ofMembers?_map fun entry _ => ?_
  obtain ⟨key, setting⟩ := entry
  cases setting <;> simp [settingOfMember?, jsonMember, Setting.json, settingOfJson?]

end Config

end DesignMatrix
