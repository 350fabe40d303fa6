import DesignMatrix.Text.Blank

/-!
# Configuration of a design matrix

How the columns of a design matrix are named, and whether it may have an intercept.
-/

namespace DesignMatrix

/-- The names and layout of the columns of a design matrix. -/
structure Config where
  /-- The name of the constant column. -/
  interceptName : String
  /-- The name of the response. -/
  responseName : String
  /-- What stands before the position of a predictor without a name of its own. -/
  fallbackPrefix : String
  /-- The names of all columns are turned into lower snake case. -/
  cleanNames : Bool
  /-- Whether there may be a constant column at all. -/
  intercept : Bool
  deriving DecidableEq, Repr

/-- The keys of a configuration, in their order. -/
inductive ConfigKey where
  | interceptName | responseName | fallbackPrefix | cleanNames | intercept
  deriving DecidableEq, Repr

namespace ConfigKey

def all : List ConfigKey :=
  [.interceptName, .responseName, .fallbackPrefix, .cleanNames, .intercept]

/-- The key as it is written in a file. -/
def text : ConfigKey → String
  | .interceptName => "intercept-name"
  | .responseName => "response-name"
  | .fallbackPrefix => "fallback-prefix"
  | .cleanNames => "clean-names"
  | .intercept => "intercept"

/-- The key that a text is. -/
def ofText? (key : String) : Option ConfigKey := all.find? (·.text == key)

/-- The key has a truth value; the others have a text. -/
def isFlag : ConfigKey → Bool
  | .cleanNames | .intercept => true
  | _ => false

end ConfigKey

/-- Why a configuration cannot be loaded, saved or used. -/
inductive ConfigError where
  /-- The file cannot be read or written. -/
  | storage
  | yaml
  | toml
  | json
  /-- A name has no character besides blanks. -/
  | blankName (key : ConfigKey)
  deriving DecidableEq, Repr

/-- The message about a name that is blank; other errors have none of their own. -/
def ConfigError.message? : ConfigError → Option String
  | .blankName key =>
    some ("invalid configuration value for key '" ++ key.text ++ "': must not be empty")
  | _ => none

namespace Config

/-- The configuration in use where none is given. -/
def standard : Config where
  interceptName := "Intercept"
  responseName := "__y__"
  fallbackPrefix := "x"
  cleanNames := false
  intercept := true

/-- The name of the predictor at a position, counted from 1, that has no name of its own. -/
def fallbackName (config : Config) (position : Nat) : String :=
  config.fallbackPrefix ++ toString position

/-- The names of a configuration with their keys. -/
def names (config : Config) : List (ConfigKey × String) :=
  [(.interceptName, config.interceptName), (.responseName, config.responseName),
    (.fallbackPrefix, config.fallbackPrefix)]

/-- Rejects the first name that is blank. -/
def validate (config : Config) : Except ConfigError Unit :=
  match config.names.find? fun entry => Text.isBlankText entry.2 with
  | some (key, _) => .error (.blankName key)
  | none => .ok ()

end Config

end DesignMatrix
