import SchemaCompose.Text.Base64
import SchemaCompose.Yaml.Kind

/-!
# Values of YAML

What a document stands for.  Every node that the root leads to is checked once, the
collections in the order in which they are reached; a node that does not fit its
kind makes the whole document faulty.  Since a node may hold itself, a value is a
node among all of them, and shows what it holds.
-/

namespace SchemaCompose.Yaml

/-- A node with its kind in the place of its tag. -/
structure Meaning where
  kind : Kind
  content : Content
deriving DecidableEq, Repr, Inhabited

/-- The meanings of the nodes of a graph. -/
abbrev Meanings := Array Meaning

namespace Meanings

/-- The meanings of the nodes of a graph. -/
def ofGraph (graph : Graph) : Meanings :=
  graph.map fun node => { kind := Kind.ofNode node, content := node.content }

/-- The kind of a node. -/
def kindOf (meanings : Meanings) (id : NodeId) : Kind :=
  (meanings.getD id default).kind

/-- The content of a node. -/
def contentOf (meanings : Meanings) (id : NodeId) : Content :=
  (meanings.getD id default).content

/-- The text of a node. A mapping has the text of its default value, if it has one;
`fuel` bounds the number of mappings on the way. -/
def textOf (meanings : Meanings) : (fuel : Nat) → NodeId → Except Fault Text
  | 0, _ => .error .malformed
  | fuel + 1, id =>
    match meanings.contentOf id with
    | .scalar text _ => .ok text
    | .sequence _ => .error .malformed
    | .mapping pairs =>
      match pairs.find? fun pair => meanings.kindOf pair.1 = .default with
      | some (_, value) => textOf meanings fuel value
      | none => .error .malformed

/-- The text of a node. -/
def text (meanings : Meanings) (id : NodeId) : Except Fault Text :=
  meanings.textOf (meanings.size + 1) id

/-- The octets of a text under the tag for octets. -/
def octets (text : Text) : Except Fault (List UInt8) :=
  if text.all fun c => c.toNat < 0x80 then
    match Text.base64? text with
    | some octets => .ok octets
    | none => .error .malformed
  else .error .malformed

/-- The truth value of a text under the tag for truth values. -/
def truth (text : Text) : Except Fault Bool :=
  match Kind.truthWords.lookup (text.map Char.toLower) with
  | some holds => .ok holds
  | none => .error .notTruth

/-- What a node that is no collection shows. -/
def scalarView (meanings : Meanings) (Value : Type) (id : NodeId) :
    Except Fault (View Char Value) := do
  let kind := meanings.kindOf id
  if kind = .merge || kind = .default || kind = .unknown then throw .malformed
  let text ← meanings.text id
  match kind with
  | .null => return .null
  | .truth => return .truth (← truth text)
  | .integer => return (fun _ => .number) (← checkInteger text)
  | .real => return (fun _ => .number) (← checkReal text)
  | .moment => return (fun _ => .moment) (← checkMoment text)
  | .octets => return .octets (← octets text)
  | _ => return .text text

/-- The one entry of each mapping of a sequence. -/
def entries (meanings : Meanings) (items : List NodeId) : List (NodeId × NodeId) :=
  items.flatMap fun id =>
    match meanings.contentOf id with
    | .mapping pairs => pairs
    | _ => []

end Meanings

/-- The state of checking a document: the meanings, the nodes that were reached,
and of these the collections that are still to be checked, in order. -/
structure Checking where
  meanings : Meanings
  reached : List NodeId := []
  waiting : List NodeId := []
deriving Repr, Inhabited

/-- A step of checking a document. -/
abbrev Check := StateT Checking (Except Fault)

namespace Check

/-- The entries of a mapping. -/
def pairsOf (id : NodeId) : Check (List (NodeId × NodeId)) := do
  match (← get).meanings.contentOf id with
  | .mapping pairs => return pairs
  | _ => throw .malformed

/-- Give a mapping other entries. -/
def setPairs (id : NodeId) (pairs : List (NodeId × NodeId)) : Check Unit :=
  modify fun checking => { checking with
    meanings := checking.meanings.modify id fun meaning =>
      { meaning with content := .mapping pairs } }

/-- The key of a default value is a text like others once its mapping is taken as a
mapping. -/
def settleKey (id : NodeId) : Check Unit :=
  modify fun checking => { checking with
    meanings := checking.meanings.modify id fun meaning =>
      if meaning.kind = .default then { meaning with kind := .text } else meaning }

/-- Put the entries of merged mappings in front of the own ones of a mapping. Of a
row of merged mappings an earlier one comes later, and so wins. `fuel` bounds the
depth of merges. -/
def mergeInto : (fuel : Nat) → NodeId → Check Unit
  | 0, _ => throw .malformed
  | fuel + 1, id => do
    let pairs ← pairsOf id
    let meanings := (← get).meanings
    let isMerge (pair : NodeId × NodeId) : Bool := meanings.kindOf pair.1 = .merge
    let own := pairs.filter (!isMerge ·)
    setPairs id own
    own.forM fun pair => settleKey pair.1
    let merged ← (pairs.filter isMerge).mapM fun (_, value) => do
      match (← get).meanings.contentOf value with
      | .mapping _ =>
        mergeInto fuel value
        pairsOf value
      | .sequence items =>
        let rows ← items.mapM fun item => do
          discard (pairsOf item)
          mergeInto fuel item
          pairsOf item
        return rows.reverse.flatten
      | .scalar .. => throw .malformed
    setPairs id (merged.flatten ++ own)

/-- Reach a node. What is no collection is checked at once. -/
def reach (id : NodeId) : Check Unit := do
  let checking ← get
  unless checking.reached.contains id do
    if (checking.meanings.kindOf id).isCollection then
      set { checking with
        reached := id :: checking.reached
        waiting := checking.waiting ++ [id] }
    else
      discard (checking.meanings.scalarView NodeId id)
      set { checking with reached := id :: checking.reached }

/-- Check a collection and reach what it holds. -/
def collection (id : NodeId) : Check Unit := do
  let meanings := (← get).meanings
  match meanings.kindOf id, meanings.contentOf id with
  | .sequence, .sequence items => items.forM reach
  | .pairs, .sequence items =>
    items.forM fun item => do
      match ← pairsOf item with
      | [(key, value)] =>
        reach key
        reach value
      | _ => throw .malformed
  | .mapping, .mapping _ | .set, .mapping _ =>
    mergeInto (meanings.size + 1) id
    (← pairsOf id).forM fun (key, value) => do
      reach key
      if ((← get).meanings.kindOf key).isCollection then throw .malformed
      reach value
  | _, _ => throw .malformed

/-- Check the waiting collections; `fuel` bounds their number. -/
def run : (fuel : Nat) → Check Unit
  | 0 => return ()
  | fuel + 1 => do
    let checking ← get
    match checking.waiting with
    | [] => return ()
    | id :: waiting =>
      set { checking with waiting }
      collection id
      run fuel

end Check

/-- What a document is made of. -/
inductive Part where
  /-- Nothing at all. -/
  | nothing
  /-- A node. -/
  | node (id : NodeId)
  /-- An entry of an ordered mapping. -/
  | entry (key value : NodeId)
deriving DecidableEq, Repr, Inhabited

/-- A part of a document, among the meanings of all its nodes. -/
structure Value where
  meanings : Meanings
  part : Part
deriving Inhabited

namespace Value

/-- A node among the same meanings. -/
def sibling (value : Value) (id : NodeId) : Value :=
  { value with part := .node id }

/-- What a node shows. -/
def viewNode (value : Value) (id : NodeId) : View Char Value :=
  let meanings := value.meanings
  match meanings.kindOf id, meanings.contentOf id with
  | .set, _ => .set
  | .mapping, .mapping pairs =>
    .mapping (pairs.map fun (key, held) => (value.sibling key, value.sibling held))
  | .mapping, _ => .mapping []
  | .sequence, .sequence items => .sequence (items.map value.sibling)
  | .pairs, .sequence items =>
    .sequence ((meanings.entries items).map fun (key, held) =>
      { value with part := .entry key held })
  | .sequence, _ | .pairs, _ => .sequence []
  | _, _ => (meanings.scalarView Value id).toOption.getD .null

instance : Shown Char Value where
  view value :=
    match value.part with
    | .nothing => .null
    | .node id => value.viewNode id
    | .entry key held => .sequence [value.sibling key, value.sibling held]

end Value

/-- The value that a text stands for. An empty text stands for nothing. -/
def load (text : Text) : Except Fault Value := do
  match ← graphOf text with
  | (none, _) => return { meanings := #[], part := .nothing }
  | (some root, graph) =>
    let check : Check Unit := do
      Check.reach root
      Check.run (graph.size + 1)
    let ((), checking) ← StateT.run check { meanings := Meanings.ofGraph graph }
    return { meanings := checking.meanings, part := .node root }

/-- The reader of YAML. -/
def reader : Reader Value :=
  fun text => (load text).mapError Fault.rejection

end SchemaCompose.Yaml
