import DesignMatrix.Config.Settings
import DesignMatrix.Yaml.Document
import DesignMatrix.Yaml.Writer

/-!
# Configurations in YAML

A mapping with the keys of the configuration, or no content. Other keys have no meaning. A key that
is known may stand in the mapping once. Every scalar is a text; a truth value has to be plain.
-/

namespace DesignMatrix

namespace Yaml

/-- The tag of truth values. -/
def truthTag : String := "tag:yaml.org,2002:bool"

/-- The truth value of a text. -/
def truth? (text : String) : Option Bool :=
  if text = "true" || text = "True" || text = "TRUE" then some true
  else if text = "false" || text = "False" || text = "FALSE" then some false
  else none

/-- The text of a scalar. -/
def Node.text? : Node → Option String
  | .scalar _ _ text => some text
  | _ => none

/-- The truth value of a node. -/
def Node.truth? : Node → Option Bool
  | .scalar .plain _ text => Yaml.truth? text
  | .scalar .literal (some tag) text => if tag = truthTag then Yaml.truth? text else none
  | _ => none

end Yaml

namespace Config

/-- The setting of a key that a node stands for. -/
def settingOfYaml? (key : ConfigKey) (node : Yaml.Node) : Option Setting :=
  if key.isFlag then node.truth?.map .flag else node.text?.map .text

/-- The setting of a member, `none` for a key without meaning. A key has to be a scalar. -/
def settingOfYamlMember? (document : Yaml.Document) (member : Yaml.Node × Yaml.Node) :
    Option (Option (ConfigKey × Setting)) := do
  match ConfigKey.ofText? (← (← document.resolve? member.1).text?) with
  | some key => some (some (key, ← settingOfYaml? key (← document.resolve? member.2)))
  | none => some none

/-- The configuration that a document stands for. -/
def ofYamlDocument? (document : Yaml.Document) : Option Config :=
  match document.root with
  | .scalar .plain _ text => if text.isEmpty then some standard else none
  | .mapping members => ofMembers? (settingOfYamlMember? document) members
  | _ => none

/-- The configuration that a text stands for, which may have no document. -/
def ofYaml? (document? : Option Yaml.Document) : Option Config :=
  document?.elim (some standard) ofYamlDocument?

/-- Reads a configuration from YAML text. -/
def readYaml? (text : String) : Option Config := (Yaml.parse? text).bind ofYaml?

/-- A setting in YAML. -/
def yamlOfSetting : Setting → List Char
  | .text value => Yaml.writeText value.toList
  | .flag value => (toString value).toList

/-- A configuration in YAML. -/
def writeYaml (config : Config) : String :=
  String.ofList (config.settings.flatMap fun (key, setting) =>
    Yaml.writeMember key.text.toList (yamlOfSetting setting))

end Config

end DesignMatrix
