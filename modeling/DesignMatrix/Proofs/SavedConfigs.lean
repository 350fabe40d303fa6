import Mathlib.Data.Option.Basic
import DesignMatrix.Proofs.JsonConfigs
import DesignMatrix.Proofs.TomlConfigs
import DesignMatrix.Proofs.YamlConfigs
import DesignMatrix.Config.Store

/-!
# Saved configurations

A valid configuration that is saved to a file is loaded from it again. What is written has content
in every format, so it does not stand for the standard configuration, and writing the file puts
nothing in the way of the walk that leads to it.
-/

namespace DesignMatrix

/-! ## Texts -/

namespace Config

theorem isBlankText_of_mem {text : String} {c : Char} (member : c ∈ text.toList)
    (notBlank : Text.isBlank c = false) : Text.isBlankText text = false :=
  List.all_eq_false.mpr ⟨c, member, by simp [notBlank]⟩

theorem isBlankText_write (format : Format) (config : Config) :
    Text.isBlankText (config.write format) = false := by
  have first : (.interceptName, config.get .interceptName) ∈ config.settings :=
    List.mem_map_of_mem (f := fun key => (key, config.get key)) (by decide)
  have letter : 'i' ∈ ConfigKey.interceptName.text.toList := by decide
  cases format with
  | yaml =>
    refine isBlankText_of_mem (c := 'i') ?_ (by decide)
    rw [write, writeYaml, String.toList_ofList, List.mem_flatMap]
    exact ⟨_, first, List.mem_append_left _ (List.mem_append_left _ letter)⟩
  | toml =>
    refine isBlankText_of_mem (c := 'i') ?_ (by decide)
    rw [write, writeToml, String.toList_ofList, List.mem_flatMap]
    exact ⟨_, first, by simp [letter]⟩
  | json =>
    refine isBlankText_of_mem (c := '{') ?_ (by decide)
    rw [write, toList_writeJson]
    exact List.mem_cons_self

theorem readContent_write (format : Format) (config : Config) :
    readContent format (config.write format) = .ok config := by
  cases format <;>
    simp [readContent, write, readYaml?_writeYaml, readToml?_writeToml, readJson?_writeJson]

theorem read_write (format : Format) {config : Config} (valid : config.validate = .ok ()) :
    read format (config.write format) = .ok config := by
  have checked : (do config.validate; .ok config : Except ConfigError Config) = .ok config := by
    rw [valid]
    rfl
  rw [read, isBlankText_write, readContent_write]
  exact checked

end Config

/-! ## Files -/

namespace Store

variable {store : Store} {path : StorePath} {place : Place}

/-- A walk goes through directories, so it does not meet a file that is put elsewhere. -/
theorem walk?_put (noDirectory : store.find? place ≠ some .directory) (text? : Option String)
    {start target : Place} {names : List String} (walked : store.walk? start names = some target) :
    (store.put place (.file text?)).walk? start names = some target := by
  induction names generalizing start with
  | nil => exact walked
  | cons name names ih =>
    simp only [walk?, Option.bind_eq_bind, Option.bind_eq_some_iff, Option.guard_eq_some']
      at walked ⊢
    obtain ⟨⟨⟩, isDirectory, next, step, walked⟩ := walked
    have elsewhere : start ≠ place := by
      rintro rfl
      exact noDirectory isDirectory
    refine ⟨(), ?_, next, step, ih walked⟩
    rw [find?_put, if_neg elsewhere]
    exact isDirectory

/-- Whether a file can be written does not depend on its text. -/
theorem exists_write_eq {text? : Option String} (written : (store.write path text?).2 = .ok ()) :
    ∃ (made : Store) (place : Place), made.reach? path = some place ∧
      made.find? place ≠ some .directory ∧
      ∀ text?, store.write path text? = (made.put place (.file text?), .ok ()) := by
  unfold write at written
  split at written
  · cases written
  · rename_i made _ isMade
    split at written
    · cases written
    · rename_i place reached
      split at written
      · rename_i file
        have isFree : path.endsInName = true ∧ made.find? place ≠ some .directory := by
          simpa using file
        refine ⟨made, place, reached, isFree.2, fun text? => ?_⟩
        simp only [write, isMade, reached, if_pos file]
      · cases written

/-- What has been written to a file is found at its path. -/
theorem entry?_write {text? : Option String} (written : (store.write path text?).2 = .ok ()) :
    entry? (store.write path text?).1 path = some (.file text?) := by
  obtain ⟨made, place, reached, noDirectory, same⟩ := exists_write_eq written
  have reached' : (made.put place (.file text?)).reach? path = some place := by
    unfold reach? at reached ⊢
    split at reached
    · rename_i walkable
      rw [if_pos walkable]
      exact walk?_put noDirectory text? reached
    · cases reached
  rw [same, entry?, reached', Option.bind_some, find?_put, if_pos rfl]

/-- A valid configuration can be saved wherever a file can be written, and is loaded again. -/
theorem load_save {config : Config} (valid : config.validate = .ok ())
    (writable : ∃ text?, (store.write path text?).2 = .ok ()) :
    (store.save path config).2 = .ok () ∧
      (store.save path config).1.load path = .ok config := by
  obtain ⟨text?, written⟩ := writable
  obtain ⟨made, place, -, -, same⟩ := exists_write_eq written
  have saved : (store.save path config).2 = .ok () := by
    rw [save, same]
  refine ⟨saved, ?_⟩
  have entry : entry? (store.save path config).1 path =
      some (.file (some (config.write (.ofName path.fileName)))) := entry?_write saved
  rw [load, entry]
  exact Config.read_write (.ofName path.fileName) valid

/-- A configuration whose names need escapes, or look like something else than texts. -/
def quotedConfig : Config where
  interceptName := "null"
  responseName := " # \"a: b\"\n"
  fallbackPrefix := "0x1F"
  cleanNames := true
  intercept := false

theorem load_save_quotedConfig :
    (empty.save ⟨false, ["runs", "Matrix.YML"]⟩ quotedConfig).2 = .ok () ∧
      (empty.save ⟨false, ["runs", "Matrix.YML"]⟩ quotedConfig).1.load
        ⟨false, ["runs", "Matrix.YML"]⟩ = .ok quotedConfig :=
  load_save (by decide +kernel) ⟨none, by decide +kernel⟩

end Store

end DesignMatrix
