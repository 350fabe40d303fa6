import DesignMatrix.Config.Settings
import DesignMatrix.Toml.Document
import DesignMatrix.Toml.Writer

/-!
# Configurations in TOML

A document with the keys of the configuration outside of all tables. Other keys have no meaning.
-/

namespace DesignMatrix

namespace Config

/-- The setting that an entry stands for. -/
def settingOfToml? : Toml.Entry → Option Setting
  | .value (.text text) => some (.text text)
  | .value (.truth value) => some (.flag value)
  | _ => none

/-- The setting of a member, `none` for a key without meaning. -/
def settingOfTomlMember? (member : String × Toml.Entry) :
    Option (Option (ConfigKey × Setting)) :=
  match ConfigKey.ofText? member.1 with
  | some key => (settingOfToml? member.2).map fun setting => some (key, setting)
  | none => some none

/-- The configuration that the members of a document stand for. -/
def ofToml? (members : Toml.Members) : Option Config := ofMembers? settingOfTomlMember? members

/-- Reads a configuration from TOML text. -/
def readToml? (text : String) : Option Config := (Toml.parse? text).bind ofToml?

/-- A setting in TOML. -/
def tomlOfSetting : Setting → List Char
  | .text value => Toml.writeText value.toList
  | .flag value => (toString value).toList

/-- A configuration in TOML. -/
def writeToml (config : Config) : String :=
  String.ofList (config.settings.flatMap fun (key, setting) =>
    key.text.toList ++ " = ".toList ++ tomlOfSetting setting ++ ['\n'])

end Config

end DesignMatrix
