import DesignMatrix.Config.Settings
import DesignMatrix.Json.Reader
import DesignMatrix.Json.Writer

/-!
# Configurations in JSON

An object with the keys of the configuration, or an array of their settings in the order of the
keys. Other keys have no meaning. A key that is known may stand in an object once.
-/

namespace DesignMatrix

namespace Config

/-- The setting that a JSON value stands for. -/
def settingOfJson? : Json → Option Setting
  | .string text => text.map .text
  | .boolean value => some (.flag value)
  | _ => none

/-- The setting of a member, `none` for a key without meaning. A key has to be a text. -/
def settingOfMember? (member : Option String × Json) : Option (Option (ConfigKey × Setting)) := do
  match ConfigKey.ofText? (← member.1) with
  | some key => some (some (key, ← settingOfJson? member.2))
  | none => some none

/-- The configuration that a JSON value stands for. -/
def ofJson? : Json → Option Config
  | .object members => ofMembers? settingOfMember? members
  | .array items =>
    if items.length ≤ ConfigKey.all.length then do
      ofSettings? (ConfigKey.all.zip (← items.mapM settingOfJson?))
    else none
  | _ => none

/-- Reads a configuration from JSON text. -/
def readJson? (text : String) : Option Config := (Json.parse? text).bind ofJson?

/-- A setting in JSON. -/
def jsonOfSetting : Setting → String
  | .text value => Json.quote value
  | .flag value => toString value

/-- A configuration in JSON, a line for each key. -/
def writeJson (config : Config) : String :=
  let members := config.settings.map fun (key, setting) =>
    "  " ++ Json.quote key.text ++ ": " ++ jsonOfSetting setting
  "\x7b\n" ++ ",\n".intercalate members ++ "\n\x7d"

end Config

end DesignMatrix
