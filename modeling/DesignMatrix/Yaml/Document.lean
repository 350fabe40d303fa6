import DesignMatrix.Yaml.Node

/-!
# Documents of YAML

A text holds one document, which may be empty.
-/

namespace DesignMatrix.Yaml

/-- The handles for tags that need no directive. -/
def standardHandles : List (String × String) := [("!", "!"), ("!!", "tag:yaml.org,2002:")]

/-- The handles that some directives add, and the tokens behind the directives. -/
def readDirectives? : (versioned : Bool) → (handles : List (String × String)) → List Token →
    Option (List (String × String) × List Token)
  | versioned, handles, .version major minor :: tokens =>
    if !versioned && major = 1 && (minor = 1 || minor = 2) then readDirectives? true handles tokens
    else none
  | versioned, handles, .tagHandle handle text :: tokens =>
    if (handles.lookup handle).isSome then none
    else readDirectives? versioned ((handle, text) :: handles) tokens
  | _, handles, tokens => some (handles, tokens)

/-- The token starts a document or stands in front of one that has a start. -/
def opensDocument : Option Token → Bool
  | some (.version ..) | some (.tagHandle ..) | some .documentStart => true
  | _ => false

/-- The node of a document, which may be absent behind the mark that starts the document. -/
def readRoot? (marked : Bool) (feed : Feed) : Option (Node × Feed) :=
  let token := feed.head?
  if marked && (token = none || token = some .documentEnd || opensDocument token) then
    some (Node.absent none, feed)
  else readNode? (8 * feed.tokens.length + 8) .block feed

/-- A document: its node, and the nodes that its aliases may stand for. -/
structure Document where
  root : Node
  anchors : Anchors

/-- The node itself, or the node that an alias stands for. -/
def Document.resolve? (document : Document) : Node → Option Node
  | .reference number => document.anchors.node? number
  | node => some node

/-- The document that some tokens make, `none` inside if there are no tokens. -/
def document? (tokens : List Token) : Option (Option Document) :=
  if tokens.isEmpty then some none
  else do
    let (handles, rest) ← readDirectives? false [] tokens
    let marked := opensDocument tokens.head?
    if marked && rest.head? != some .documentStart then none
    else
      let rest := if marked then rest.drop 1 else rest
      let (root, feed) ← readRoot? marked ⟨rest, handles ++ standardHandles, .empty⟩
      if feed.tokens.all (· == .documentEnd) then some (some ⟨root, feed.anchors⟩) else none

/-- Reads a text that is one document, `none` inside if it has no content at all. -/
def parse? (text : String) : Option (Option Document) := do
  if !text.toList.all isAllowed then none
  document? (← tokens? (unifyBreaks text.toList))

end DesignMatrix.Yaml
