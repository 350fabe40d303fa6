import DesignMatrix.Yaml.Layout

/-!
# Nodes of YAML

The tree of a document. An alias is kept as the number of an anchor; which node it stands for is known
when all of the document is read. The number of an anchor is how many names have been given before
it, where a name that is given again counts once; of several anchors with one number the last is
meant.
-/

namespace DesignMatrix.Yaml

/-- A node of a document. -/
inductive Node where
  | scalar (style : Style) (tag : Option String) (text : String)
  | sequence (items : List Node)
  | mapping (members : List (Node × Node))
  /-- The node with an anchor of this number. -/
  | reference (number : Nat)

/-- The node where none is written. -/
def Node.absent (tag : Option String) : Node := .scalar .plain tag ""

/-- The anchors of a document up to some place. -/
structure Anchors where
  /-- The names so far, each with the number that it was given last. -/
  names : List (String × Nat)
  /-- The numbers of all anchors so far, the last one first. -/
  numbers : List Nat
  /-- The nodes that have been read to their end, each with how many anchors came before its own. -/
  nodes : List (Nat × Node)

namespace Anchors

def empty : Anchors := ⟨[], [], []⟩

/-- How many anchors there are. -/
def count (anchors : Anchors) : Nat := anchors.numbers.length

/-- Adds an anchor. -/
def add (anchors : Anchors) (name : String) : Anchors :=
  let number := anchors.names.length
  { anchors with
    names := (name, number) :: anchors.names.filter (·.1 ≠ name)
    numbers := number :: anchors.numbers }

/-- Adds the node of the anchor in front of which there were `place` others. -/
def complete (anchors : Anchors) (place : Nat) (node : Node) : Anchors :=
  { anchors with nodes := (place, node) :: anchors.nodes }

/-- The node that the last anchor of a number stands for. -/
def node? (anchors : Anchors) (number : Nat) : Option Node := do
  let later ← anchors.numbers.idxOf? number
  anchors.nodes.lookup (anchors.count - 1 - later)

end Anchors

/-- Tokens that are left, with what the tokens in front of them define. -/
structure Feed where
  tokens : List Token
  /-- The handles of tags, and what they stand for. -/
  handles : List (String × String)
  anchors : Anchors

namespace Feed

/-- The next token. -/
def head? (feed : Feed) : Option Token := feed.tokens.head?

/-- The feed behind the next token. -/
def tail (feed : Feed) : Feed := { feed with tokens := feed.tokens.tail }

/-- Adds an anchor, if there is one. -/
def open? (feed : Feed) (anchor? : Option String) : Feed :=
  match anchor? with
  | some name => { feed with anchors := feed.anchors.add name }
  | none => feed

/-- Adds the node of an anchor, if there is one. -/
def close? (feed : Feed) (anchor? : Option String) (place : Nat) (node : Node) : Feed :=
  if anchor?.isSome then { feed with anchors := feed.anchors.complete place node } else feed

/-- The tag that a handle and a suffix stand for. -/
def resolveTag? (feed : Feed) (handle suffix : String) : Option String :=
  if handle.isEmpty then some suffix else (feed.handles.lookup handle).map (· ++ suffix)

end Feed

/-- What stands in front of a node. -/
structure Properties where
  anchor? : Option String
  tag? : Option String

/-- An anchor and a tag, each at most once and in either order. -/
def readProperties? (feed : Feed) : Option (Properties × Feed) :=
  match feed.tokens with
  | .anchor name :: .tag handle suffix :: tokens | .tag handle suffix :: .anchor name :: tokens => do
    some (⟨name, ← feed.resolveTag? handle suffix⟩, { feed with tokens })
  | .anchor name :: tokens => some (⟨name, none⟩, { feed with tokens })
  | .tag handle suffix :: tokens => do
    some (⟨none, ← feed.resolveTag? handle suffix⟩, { feed with tokens })
  | _ => some (⟨none, none⟩, feed)

/-- Where a node stands, which decides what it may be. -/
inductive Place where
  /-- Inside brackets, where indentation has no meaning. -/
  | flow
  /-- An item of a block sequence, or the whole document. -/
  | block
  /-- A key or a value of a block mapping. Items of a sequence need not be indented there. -/
  | member
  deriving DecidableEq, Repr

/-- No node comes in front of this token in a block collection. -/
def endsMember : Option Token → Bool
  | some .key | some .value | some .blockEnd => true
  | _ => false

/-- The key of a pair in a flow sequence is absent in front of this token, which is left out. -/
def replacesKey : Option Token → Bool
  | some .value | some .comma | some .flowSequenceEnd => true
  | _ => false

mutual

/-- The node at the front. -/
def readNode? : Nat → Place → Feed → Option (Node × Feed)
  | 0, _, _ => none
  | fuel + 1, place, feed =>
    match feed.head? with
    | some (.aliasOf name) => do some (.reference (← feed.anchors.names.lookup name), feed.tail)
    | _ => do
      let (properties, feed) ← readProperties? feed
      let before := feed.anchors.count
      let (node, feed) ← readContent? fuel place properties (feed.open? properties.anchor?)
      some (node, feed.close? properties.anchor? before node)

/-- What follows the properties of a node. -/
def readContent? : Nat → Place → Properties → Feed → Option (Node × Feed)
  | 0, _, _, _ => none
  | fuel + 1, place, properties, feed =>
    match feed.head? with
    | some (.scalar style text) => some (.scalar style properties.tag? text, feed.tail)
    | some .flowSequence => do
      let (items, feed) ← readFlowItems? fuel feed.tail
      some (.sequence items, feed)
    | some .flowMapping => do
      let (members, feed) ← readFlowMembers? fuel feed.tail
      some (.mapping members, feed)
    | token =>
      if token = some .blockSequence && place ≠ .flow then do
        let (items, feed) ← readItems? fuel feed.tail
        some (.sequence items, feed)
      else if token = some .blockMapping && place ≠ .flow then do
        let (members, feed) ← readMembers? fuel feed.tail
        some (.mapping members, feed)
      else if token = some .item && place = .member then do
        let (items, feed) ← readLooseItems? fuel feed
        some (.sequence items, feed)
      else if properties.anchor?.isSome || properties.tag?.isSome then
        some (Node.absent properties.tag?, feed)
      else none

/-- The items of a block sequence and its end. -/
def readItems? : Nat → Feed → Option (List Node × Feed)
  | 0, _ => none
  | fuel + 1, feed =>
    match feed.head? with
    | some .blockEnd => some ([], feed.tail)
    | some .item => do
      let (item, feed) ←
        if feed.tail.head? = some .item || feed.tail.head? = some .blockEnd then
          some (Node.absent none, feed.tail)
        else readNode? fuel .block feed.tail
      let (items, feed) ← readItems? fuel feed
      some (item :: items, feed)
    | _ => none

/-- The items of a block sequence that is not indented against its key. -/
def readLooseItems? : Nat → Feed → Option (List Node × Feed)
  | 0, _ => none
  | fuel + 1, feed =>
    match feed.head? with
    | some .item => do
      let (item, feed) ←
        if feed.tail.head? = some .item || endsMember feed.tail.head? then
          some (Node.absent none, feed.tail)
        else readNode? fuel .block feed.tail
      let (items, feed) ← readLooseItems? fuel feed
      some (item :: items, feed)
    | _ => some ([], feed)

/-- The members of a block mapping and its end. A key may lack its value. -/
def readMembers? : Nat → Feed → Option (List (Node × Node) × Feed)
  | 0, _ => none
  | fuel + 1, feed =>
    match feed.head? with
    | some .blockEnd => some ([], feed.tail)
    | some .key => do
      let (key, feed) ← readMemberNode? fuel feed.tail
      let (value, feed) ←
        if feed.head? = some .value then readMemberNode? fuel feed.tail
        else some (Node.absent none, feed)
      let (members, feed) ← readMembers? fuel feed
      some ((key, value) :: members, feed)
    | _ => none

/-- A key or a value of a block mapping, which may be absent. -/
def readMemberNode? : Nat → Feed → Option (Node × Feed)
  | 0, _ => none
  | fuel + 1, feed =>
    if endsMember feed.head? then some (Node.absent none, feed) else readNode? fuel .member feed

/-- The items of a flow sequence and its bracket. A pair among them is a mapping of its own. -/
def readFlowItems? : Nat → Feed → Option (List Node × Feed)
  | 0, _ => none
  | fuel + 1, feed =>
    match feed.head? with
    | some .flowSequenceEnd => some ([], feed.tail)
    | token => do
      let (item, feed) ←
        if token = some .key then do
          let (key, feed) ←
            if replacesKey feed.tail.head? then some (Node.absent none, feed.tail.tail)
            else readNode? fuel .flow feed.tail
          let (value, feed) ← readFlowValue? fuel feed
          some (Node.mapping [(key, value)], feed)
        else readNode? fuel .flow feed
      let (items, feed) ← match feed.head? with
        | some .comma => readFlowItems? fuel feed.tail
        | some .flowSequenceEnd => some ([], feed.tail)
        | _ => none
      some (item :: items, feed)

/-- The members of a flow mapping and its bracket. -/
def readFlowMembers? : Nat → Feed → Option (List (Node × Node) × Feed)
  | 0, _ => none
  | fuel + 1, feed =>
    match feed.head? with
    | some .flowMappingEnd => some ([], feed.tail)
    | token => do
      let (key, value, feed) ←
        if token = some .key then do
          let (key, feed) ← readFlowNode? fuel feed.tail
          let (value, feed) ← readFlowValue? fuel feed
          some (key, value, feed)
        else do
          let (key, feed) ← readNode? fuel .flow feed
          some (key, Node.absent none, feed)
      let (members, feed) ← match feed.head? with
        | some .comma => readFlowMembers? fuel feed.tail
        | some .flowMappingEnd => some ([], feed.tail)
        | _ => none
      some ((key, value) :: members, feed)

/-- The value behind a key inside brackets, if there is one. -/
def readFlowValue? : Nat → Feed → Option (Node × Feed)
  | 0, _ => none
  | fuel + 1, feed =>
    if feed.head? = some .value then readFlowNode? fuel feed.tail
    else some (Node.absent none, feed)

/-- A node inside brackets, which may be absent. -/
def readFlowNode? : Nat → Feed → Option (Node × Feed)
  | 0, _ => none
  | fuel + 1, feed =>
    match feed.head? with
    | some .value | some .comma | some .flowSequenceEnd | some .flowMappingEnd =>
      some (Node.absent none, feed)
    | _ => readNode? fuel .flow feed

end

end DesignMatrix.Yaml
