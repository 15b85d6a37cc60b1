import SchemaCompose.Registry
import SchemaCompose.Yaml.Layout

/-!
# Graphs of nodes

The tokens of a text are put together into nodes.  An alias is a second way to a
node that is there already, so that the nodes form a graph: a node can even hold
itself.
-/

namespace SchemaCompose.Yaml

/-- The number of a node in its graph. -/
abbrev NodeId := Nat

/-- What a node holds. -/
inductive Content where
  /-- A text, and whether its form alone decides what it stands for. -/
  | scalar (text : Text) (isPlain : Bool)
  | sequence (items : List NodeId)
  | mapping (pairs : List (NodeId × NodeId))
deriving DecidableEq, Repr, Inhabited

/-- A node and the tag that was given to it. -/
structure Node where
  tag : Option Text
  content : Content
deriving DecidableEq, Repr, Inhabited

/-- The nodes of a document in the order in which they begin. -/
abbrev Graph := Array Node

/-- The state of putting nodes together. -/
structure Composer where
  tokens : List Token
  graph : Graph := #[]
  anchors : Registry Text NodeId := []
  handles : Registry Text Text := []
deriving Repr, Inhabited

/-- A step of putting nodes together. -/
abbrev Compose := StateT Composer (Except Fault)

namespace Compose

/-- The next token. -/
def peek : Compose Token := do
  match (← get).tokens with
  | .broken fault :: _ => throw fault
  | token :: _ => return token
  | [] => throw .malformed

/-- Go past the next token. -/
def advance : Compose Unit :=
  modify fun composer => { composer with tokens := composer.tokens.drop 1 }

/-- Go past the next token if it is the given one. -/
def accept (token : Token) : Compose Bool := do
  if (← peek) = token then
    advance
    return true
  else return false

/-- Go past the next token, which has to be the given one. -/
def expect (token : Token) : Compose Unit := do
  unless ← accept token do throw .malformed

/-- The handles of tags that are known in every document. -/
def standardHandles : Registry Text Text :=
  [("!", "!"), ("!!", "tag:yaml.org,2002:")]

/-- The whole tag that a name writes. -/
def resolveTag (name : TagName) : Compose Text := do
  match name.handle with
  | none => return name.suffix
  | some handle =>
    match (← get).handles.find? handle with
    | some expansion => return expansion ++ name.suffix
    | none => throw .malformed

/-- The anchor and the tag in front of a node, in either order. -/
def properties : Compose (Option Text × Option Text) := do
  match ← peek with
  | .anchor anchor =>
    advance
    match ← peek with
    | .tag name =>
      advance
      return (some anchor, some (← resolveTag name))
    | _ => return (some anchor, none)
  | .tag name =>
    advance
    match ← peek with
    | .anchor anchor =>
      advance
      return (some anchor, some (← resolveTag name))
    | _ => return (none, some (← resolveTag name))
  | _ => return (none, none)

/-- Begin a node. Its anchor, which no other node may have, leads to it from here
on. -/
def begin (anchor tag : Option Text) (content : Content) : Compose NodeId := do
  let composer ← get
  let id := composer.graph.size
  match anchor with
  | none => pure ()
  | some name =>
    if (composer.anchors.find? name).isSome then throw .malformed
    modify fun composer => { composer with anchors := composer.anchors.put name id }
  modify fun composer =>
    { composer with graph := composer.graph.push { tag, content } }
  return id

/-- Give a node its content. -/
def complete (id : NodeId) (content : Content) : Compose NodeId := do
  modify fun composer =>
    { composer with
      graph := composer.graph.modify id fun node => { node with content } }
  return id

/-- A node that is not written: empty text. -/
def empty : Compose NodeId :=
  begin none none (.scalar [] true)

/-- A tag that leaves the choice to the form of the node. -/
def isOpen (tag : Option Text) : Bool :=
  tag = none || tag = some ['!']

mutual

/-- A node. Block collections may begin only where `block` holds, and a block
sequence without indentation of its own only where `indentless` holds. -/
def node : (fuel : Nat) → (block indentless : Bool) → Compose NodeId
  | 0, _, _ => throw .malformed
  | fuel + 1, block, indentless => do
    match ← peek with
    | .alias name =>
      advance
      match (← get).anchors.find? name with
      | some id => return id
      | none => throw .malformed
    | _ =>
      let (anchor, tag) ← properties
      match ← peek with
      | .scalar text isPlain =>
        advance
        begin anchor tag (.scalar text (isPlain && tag = none || tag = some ['!']))
      | .flowSequenceStart =>
        advance
        let id ← begin anchor tag (.sequence [])
        complete id (.sequence (← flowItems fuel true))
      | .flowMappingStart =>
        advance
        let id ← begin anchor tag (.mapping [])
        complete id (.mapping (← flowPairs fuel true))
      | token =>
        if token = .blockEntry && indentless then
          let id ← begin anchor tag (.sequence [])
          complete id (.sequence (← indentlessItems fuel))
        else if token = .blockSequenceStart && block then
          advance
          let id ← begin anchor tag (.sequence [])
          complete id (.sequence (← blockItems fuel))
        else if token = .blockMappingStart && block then
          advance
          let id ← begin anchor tag (.mapping [])
          complete id (.mapping (← blockPairs fuel))
        else if anchor.isSome || tag.isSome then
          begin anchor tag (.scalar [] (isOpen tag))
        else throw .malformed

/-- A node, or an empty one if the next token is one of those that end it. -/
def nodeUnless :
    (fuel : Nat) → (ends : List Token) → (block indentless : Bool) → Compose NodeId
  | 0, _, _, _ => throw .malformed
  | fuel + 1, ends, block, indentless => do
    if ends.contains (← peek) then empty else node fuel block indentless

/-- The entries of a block sequence. -/
def blockItems : (fuel : Nat) → Compose (List NodeId)
  | 0 => throw .malformed
  | fuel + 1 => do
    if ← accept .blockEntry then
      let item ← nodeUnless fuel [.blockEntry, .blockEnd] true false
      return item :: (← blockItems fuel)
    else
      expect .blockEnd
      return []

/-- The entries of a block sequence that has no indentation of its own. -/
def indentlessItems : (fuel : Nat) → Compose (List NodeId)
  | 0 => throw .malformed
  | fuel + 1 => do
    if ← accept .blockEntry then
      let item ← nodeUnless fuel [.blockEntry, .key, .value, .blockEnd] true false
      return item :: (← indentlessItems fuel)
    else return []

/-- The entries of a block mapping. -/
def blockPairs : (fuel : Nat) → Compose (List (NodeId × NodeId))
  | 0 => throw .malformed
  | fuel + 1 => do
    if ← accept .key then
      let key ← nodeUnless fuel [.key, .value, .blockEnd] true true
      let value ←
        if ← accept .value then nodeUnless fuel [.key, .value, .blockEnd] true true
        else empty
      return (key, value) :: (← blockPairs fuel)
    else
      expect .blockEnd
      return []

/-- The entries between square brackets. A key makes an entry a mapping of its
own. -/
def flowItems : (fuel : Nat) → (isFirst : Bool) → Compose (List NodeId)
  | 0, _ => throw .malformed
  | fuel + 1, isFirst => do
    if ← accept .flowSequenceEnd then return []
    unless isFirst do expect .flowEntry
    if ← accept .key then
      let id ← begin none none (.mapping [])
      let key ← nodeUnless fuel [.value, .flowEntry, .flowSequenceEnd] false false
      let value ←
        if ← accept .value then
          nodeUnless fuel [.flowEntry, .flowSequenceEnd] false false
        else empty
      let item ← complete id (.mapping [(key, value)])
      return item :: (← flowItems fuel false)
    else if ← accept .flowSequenceEnd then return []
    else
      let item ← node fuel false false
      return item :: (← flowItems fuel false)

/-- The entries between curly brackets. -/
def flowPairs : (fuel : Nat) → (isFirst : Bool) → Compose (List (NodeId × NodeId))
  | 0, _ => throw .malformed
  | fuel + 1, isFirst => do
    if ← accept .flowMappingEnd then return []
    unless isFirst do expect .flowEntry
    if ← accept .key then
      let key ← nodeUnless fuel [.value, .flowEntry, .flowMappingEnd] false false
      let value ←
        if ← accept .value then
          nodeUnless fuel [.flowEntry, .flowMappingEnd] false false
        else empty
      return (key, value) :: (← flowPairs fuel false)
    else if ← accept .flowMappingEnd then return []
    else
      let key ← node fuel false false
      return (key, ← empty) :: (← flowPairs fuel false)

end

/-- The directives in front of a document. The version is given at most once, and
is the first; every handle is given at most once. `fuel` bounds their number. -/
def directives : (fuel : Nat) → (hasVersion : Bool) → Compose Unit
  | 0, _ => throw .malformed
  | fuel + 1, hasVersion => do
    match ← peek with
    | .directive (.version major) =>
      advance
      if hasVersion || major ≠ 1 then throw .malformed
      directives fuel true
    | .directive (.handle name expansion) =>
      advance
      let composer ← get
      if (composer.handles.find? name).isSome then throw .malformed
      set { composer with handles := composer.handles.put name expansion }
      directives fuel hasVersion
    | .directive .unknown =>
      advance
      directives fuel hasVersion
    | _ => return ()

/-- Go past the marks that end a document; `fuel` bounds their number. -/
def documentEnds : (fuel : Nat) → Compose Unit
  | 0 => throw .malformed
  | fuel + 1 => do
    if ← accept .documentEnd then documentEnds fuel

/-- The standard handles, where a document gives them no other meaning. -/
def addStandardHandles : Compose Unit :=
  modify fun composer => { composer with
    handles := standardHandles.foldl (fun handles (name, expansion) =>
      if (handles.find? name).isSome then handles else handles.put name expansion)
      composer.handles }

/-- The mark that starts a document, behind its directives. -/
def documentStart (fuel : Nat) : Compose Unit := do
  modify fun composer => { composer with handles := [] }
  directives fuel false
  addStandardHandles
  expect .documentStart

/-- The root of the only document, if there is one. -/
def stream (fuel : Nat) : Compose (Option NodeId) := do
  match ← peek with
  | .streamEnd => return none
  | .directive _ | .documentStart =>
    documentStart fuel
    match ← peek with
    | .directive _ | .documentStart | .documentEnd | .streamEnd =>
      return some (← empty)
    | _ => return some (← node fuel true false)
  | _ =>
    addStandardHandles
    return some (← node fuel true false)

/-- Nothing but marks follows the only document. -/
def atEnd (fuel : Nat) : Compose Unit := do
  documentEnds fuel
  unless (← peek) = .streamEnd do
    documentStart fuel
    throw .malformed

/-- The graph of the only document and the root of it. -/
def document (fuel : Nat) : Compose (Option NodeId) := do
  let root ← stream fuel
  atEnd fuel
  return root

end Compose

/-- The graph that a text writes, and its root unless the text is empty. -/
def graphOf (text : Text) : Except Fault (Option NodeId × Graph) := do
  let found := tokens text
  let (root, composer) ← (Compose.document (3 * found.length + 3)).run
    { tokens := found }
  return (root, composer.graph)

end SchemaCompose.Yaml
