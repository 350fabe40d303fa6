import DesignMatrix.Yaml.Character

/-!
# Tokens of YAML

The marks and scalars of a text in order. The indentation of the text shows as tokens that start and
end block collections, and every key of a mapping is preceded by a token that says so.
-/

namespace DesignMatrix.Yaml

/-- How a scalar is written. -/
inductive Style where
  | plain | single | double | literal | folded
  deriving DecidableEq, Repr

/-- A token of a text. -/
inductive Token where
  /-- The version of the format that the text asks for. -/
  | version (major minor : Nat)
  /-- A handle for tags and what it stands for. -/
  | tagHandle (handle text : String)
  | documentStart
  | documentEnd
  | blockSequence
  | blockMapping
  | blockEnd
  | flowSequence
  | flowSequenceEnd
  | flowMapping
  | flowMappingEnd
  /-- An item of a block sequence follows. -/
  | item
  /-- The comma of a flow collection. -/
  | comma
  /-- A key of a mapping follows. -/
  | key
  /-- The value of a key follows. -/
  | value
  | aliasOf (name : String)
  | anchor (name : String)
  | tag (handle suffix : String)
  | scalar (style : Style) (text : String)
  deriving DecidableEq, Repr

end DesignMatrix.Yaml
