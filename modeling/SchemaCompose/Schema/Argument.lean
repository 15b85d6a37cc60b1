import SchemaCompose.Schema.Comment
import SchemaCompose.Schema.Fault

/-!
# Argument lists

The arguments of an attribute are separated by the commas that stand outside
brackets and strings.  An argument may carry a key before a colon, and a value may
be quoted or be a list between square brackets.  Inside an argument list a string
ends at a double quote that has no backslash right before it.
-/

namespace SchemaCompose.Text

/-- A text without its double quotes, if it stands between two; an escaped quote
inside loses its backslash. -/
def unquote (value : Text) : Text :=
  let trimmed := trim value
  match trimmed with
  | '"' :: rest =>
    if rest.getLast? = some '"' then unescapeQuotes rest.dropLast else trimmed
  | _ => trimmed
where
  /-- Each double quote behind a backslash takes the place of both. -/
  unescapeQuotes : Text → Text
    | [] => []
    | '\\' :: '"' :: rest => '"' :: unescapeQuotes rest
    | c :: rest => c :: unescapeQuotes rest

end SchemaCompose.Text

namespace SchemaCompose

namespace Arguments

/-- The argument read so far, with the last character first, and where its reader
stands. -/
structure Reading where
  current : Text := []
  depth : Int := 0
  inString : Bool := false
deriving DecidableEq, Repr

namespace Reading

/-- Take one more character into the current argument. -/
def take (reading : Reading) (c : Char) : Reading :=
  let current := c :: reading.current
  if reading.inString then
    { reading with
      current, inString := c ≠ '"' || reading.current.head? = some '\\' }
  else if c = '"' then { reading with current, inString := true }
  else if c = '(' || c = '[' then
    { reading with current, depth := reading.depth + 1 }
  else if c = ')' || c = ']' then
    { reading with current, depth := reading.depth - 1 }
  else { reading with current }

/-- The character stands between two arguments. -/
def separates (reading : Reading) (c : Char) : Bool :=
  !reading.inString && c = ',' && reading.depth = 0

end Reading

/-- The arguments from here on; none if the text ends inside a string or with
brackets open. -/
def splitFrom (reading : Reading) : Text → Option (List Text)
  | [] =>
    if reading.depth ≠ 0 || reading.inString then none
    else
      match Text.trim reading.current.reverse with
      | [] => some []
      | last => some [last]
  | c :: rest =>
    if reading.separates c then
      (splitFrom { reading with current := [] } rest).map
        (Text.trim reading.current.reverse :: ·)
    else splitFrom (reading.take c) rest

/-- The arguments of a list, each trimmed. An empty one behind the last comma does
not count. -/
def split (text : Text) : Except Fault (List Text) :=
  match splitFrom {} text with
  | some arguments => .ok arguments
  | none => .error .unbalancedArguments

/-- The value of the first argument with the given key. -/
def named? (key : Text) (arguments : List Text) : Option Text :=
  arguments.findSome? fun argument =>
    match Text.cutAt ':' argument with
    | (found, some value) =>
      if Text.trim found = key then some (Text.unquote value) else none
    | (_, none) => none

/-- The members of a list value. A member keeps its name and loses its modifiers. -/
def listOf (value : Text) : Except Fault (List Text) := do
  let trimmed := Text.trim value
  let inner :=
    match trimmed with
    | '[' :: rest => if rest.getLast? = some ']' then rest.dropLast else trimmed
    | _ => trimmed
  let members ← split inner
  return members.map fun member => Text.trim (Text.cutAt '(' member).1

end Arguments

end SchemaCompose
