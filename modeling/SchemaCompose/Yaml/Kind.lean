import SchemaCompose.Yaml.Graph
import SchemaCompose.Yaml.Moment
import SchemaCompose.Yaml.Number

/-!
# Kinds of YAML nodes

The tag of a node says what the node stands for.  A plain scalar without a tag has
a form instead: the forms of nothing, of truth values, of numbers and of moments
are told from all other text.
-/

namespace SchemaCompose.Yaml

/-- What a node asks to be read as. -/
inductive Kind where
  | null
  | truth
  | integer
  | real
  | moment
  | octets
  | text
  | sequence
  | pairs
  | set
  | mapping
  /-- The key whose mappings are merged into its own. -/
  | merge
  /-- The key of a default value. -/
  | default
  /-- A tag of no known meaning. -/
  | unknown
deriving DecidableEq, Repr, Inhabited

namespace Kind

/-- The names of the known tags. -/
def names : List (Text × Kind) :=
  [("null", .null), ("bool", .truth), ("int", .integer), ("float", .real),
   ("timestamp", .moment), ("binary", .octets), ("str", .text), ("seq", .sequence),
   ("omap", .pairs), ("pairs", .pairs), ("set", .set), ("map", .mapping)]

/-- The kind that a tag names. -/
def ofTag (tag : Text) : Kind :=
  match Text.after? "tag:yaml.org,2002:" tag with
  | some name => (names.lookup name).getD .unknown
  | none => .unknown

/-- The texts that stand for nothing. -/
def nullForms : List Text := ["~", "null", "Null", "NULL"]

/-- The words for truth values, in small letters. -/
def truthWords : List (Text × Bool) :=
  [("yes", true), ("no", false), ("true", true), ("false", false), ("on", true),
   ("off", false)]

/-- A word in small letters, with a capital, and in capitals. -/
def spellings (word : Text) : List Text :=
  let capitals := word.map Char.toUpper
  [word, capitals.take 1 ++ word.drop 1, capitals]

/-- The kind that the form of a plain text has. -/
def ofForm (form : Text) : Kind :=
  let line := if form.getLast? = some '\n' then form.dropLast else form
  if form = [] || nullForms.contains line then .null
  else if truthWords.any fun word => (spellings word.1).contains line then .truth
  else if isRealForm line then .real
  else if isIntegerForm line then .integer
  else if Moment.isForm line then .moment
  else if line = ("<<" : Text) then .merge
  else if line = ("=" : Text) then .default
  else .text

/-- The kind of a node without a tag. -/
def ofContent : Content → Kind
  | .scalar form isPlain => if isPlain then ofForm form else .text
  | .sequence _ => .sequence
  | .mapping _ => .mapping

/-- The kind of a node: what its tag names, or else what its content has. -/
def ofNode (node : Node) : Kind :=
  match node.tag with
  | some tag =>
    if tag = ['!'] then ofContent node.content
    else if tag = ("tag:yaml.org,2002:merge" : Text) then .merge
    else if tag = ("tag:yaml.org,2002:value" : Text) then .default
    else ofTag tag
  | none => ofContent node.content

/-- A kind of collections. No key is one of them. -/
def isCollection : Kind → Bool
  | .sequence | .pairs | .set | .mapping => true
  | _ => false

end Kind

end SchemaCompose.Yaml
