import DesignMatrix.Config.Basic

/-!
# Settings

A configuration as a list of keys with their settings, which is what a file holds. Reading the
settings of a configuration gives it back.
-/

namespace DesignMatrix

/-- What a key can be set to. -/
inductive Setting where
  | text (value : String)
  | flag (value : Bool)
  deriving DecidableEq, Repr

namespace Config

/-- The configuration with a key set, if the key takes a setting of that kind. -/
def set? (config : Config) : ConfigKey → Setting → Option Config
  | .interceptName, .text name => some { config with interceptName := name }
  | .responseName, .text name => some { config with responseName := name }
  | .fallbackPrefix, .text name => some { config with fallbackPrefix := name }
  | .cleanNames, .flag value => some { config with cleanNames := value }
  | .intercept, .flag value => some { config with intercept := value }
  | _, _ => none

/-- The standard configuration with some keys set, none of them twice. -/
def ofSettings? (settings : List (ConfigKey × Setting)) : Option Config :=
  if (settings.map Prod.fst).Nodup then
    settings.foldlM (fun config (key, setting) => config.set? key setting) standard
  else none

/-- The configuration that the members of a file stand for; those without meaning have no setting. -/
def ofMembers? {α : Type} (setting? : α → Option (Option (ConfigKey × Setting)))
    (members : List α) : Option Config := do
  ofSettings? ((← members.mapM setting?).filterMap id)

/-- What a configuration sets a key to. -/
def get (config : Config) : ConfigKey → Setting
  | .interceptName => .text config.interceptName
  | .responseName => .text config.responseName
  | .fallbackPrefix => .text config.fallbackPrefix
  | .cleanNames => .flag config.cleanNames
  | .intercept => .flag config.intercept

/-- All keys with their settings, in the order of the keys. -/
def settings (config : Config) : List (ConfigKey × Setting) :=
  ConfigKey.all.map fun key => (key, config.get key)

theorem ofSettings?_settings (config : Config) : ofSettings? config.settings = some config := rfl

end Config

end DesignMatrix
