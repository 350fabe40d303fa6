import DesignMatrix.Config.Json
import DesignMatrix.Config.Toml
import DesignMatrix.Config.Yaml

/-!
# Formats of configuration files

The extension of a file's name tells its format. A text without content is the standard
configuration in every format; a configuration that is read has to be valid.
-/

namespace DesignMatrix

/-- A format of configuration files. -/
inductive Format where
  | yaml | toml | json
  deriving DecidableEq, Repr

namespace Format

/-- What follows the last dot of a name. A name has no extension if only that dot starts it. -/
def extension? (name : String) : Option String :=
  let cs := name.toList.reverse
  if name = ".." then none
  else match cs.dropWhile (· != '.') with
    | _ :: _ :: _ => some (String.ofList (cs.takeWhile (· != '.')).reverse)
    | _ => none

/-- The format of a file with this name. -/
def ofName (name : String) : Format :=
  match extension? name with
  | some "toml" => .toml
  | some "json" => .json
  | _ => .yaml

end Format

namespace Config

/-- The configuration that a text with content stands for. -/
def readContent (format : Format) (text : String) : Except ConfigError Config :=
  match format with
  | .yaml => (readYaml? text).elim (.error .yaml) .ok
  | .toml => (readToml? text).elim (.error .toml) .ok
  | .json => (readJson? text).elim (.error .json) .ok

/-- Reads a configuration. -/
def read (format : Format) (text : String) : Except ConfigError Config :=
  if Text.isBlankText text then .ok standard
  else do
    let config ← readContent format text
    config.validate
    .ok config

/-- Writes a configuration, valid or not. -/
def write (format : Format) (config : Config) : String :=
  match format with
  | .yaml => config.writeYaml
  | .toml => config.writeToml
  | .json => config.writeJson

end Config

end DesignMatrix
