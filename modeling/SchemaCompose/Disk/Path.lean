import SchemaCompose.Text.Basic

/-!
# Paths

A path is where it starts from and the names on the way.  Empty names and `.` are
dropped when a path is read, and `..` is kept: what it leads to is known only on a
disk.
-/

namespace SchemaCompose

/-- Where a path starts. -/
inductive Anchor where
  /-- The working directory. -/
  | here
  /-- The root. -/
  | root
  /-- The root, written with exactly two slashes. -/
  | doubleRoot
deriving DecidableEq, Repr, Inhabited

/-- The names from a start to a place. -/
structure Path where
  anchor : Anchor := .here
  parts : List Text := []
deriving DecidableEq, Repr, Inhabited

namespace Anchor

/-- How a start is written. -/
def text : Anchor → Text
  | .here => []
  | .root => ['/']
  | .doubleRoot => ['/', '/']

/-- The start that a text begins with. -/
def ofText : Text → Anchor
  | '/' :: '/' :: '/' :: _ => .root
  | '/' :: '/' :: _ => .doubleRoot
  | '/' :: _ => .root
  | _ => .here

end Anchor

/-- The name of the directory that holds a directory. -/
def upward : Text := ".."

/-- A piece of a path that names something: it is neither empty nor the directory
itself. -/
def isName (piece : Text) : Bool :=
  piece ≠ [] && piece ≠ ['.']

namespace Path

/-- The path that a text writes. -/
def ofText (text : Text) : Path where
  anchor := Anchor.ofText text
  parts := (Text.pieces '/' text).filter isName

/-- How a path is written; the start alone is a dot if it is the working
directory. -/
def text (path : Path) : Text :=
  match path.anchor, path.parts with
  | .here, [] => ['.']
  | anchor, parts => anchor.text ++ Text.join ['/'] parts

/-- A path that starts at the root. -/
def isAbsolute (path : Path) : Bool :=
  path.anchor ≠ .here

/-- The second path read from where the first one leads; an absolute one stands on
its own. -/
def append (base path : Path) : Path :=
  if path.isAbsolute then path else { base with parts := base.parts ++ path.parts }

/-- The path without its last name. -/
def parent (path : Path) : Path :=
  { path with parts := path.parts.dropLast }

/-- A path that no disk takes, because it holds the character that ends a name. -/
def hasNul (path : Path) : Bool :=
  path.parts.any (·.contains '\x00')

/-- The names of a path with each `..` taking back the name before it; at the start
it takes nothing. -/
def withoutUpward : (taken parts : List Text) → List Text
  | taken, [] => taken
  | taken, part :: parts =>
    withoutUpward (if part = upward then taken.dropLast else taken ++ [part]) parts

/-- The path from the root to where a path leads from a working directory. -/
def resolve (workingDirectory : List Text) (path : Path) : Path where
  anchor := .root
  parts :=
    withoutUpward (if path.isAbsolute then [] else workingDirectory) path.parts

@[simp]
theorem length_parts_parent (path : Path) :
    path.parent.parts.length = path.parts.length - 1 := by
  simp [parent]

theorem append_of_isAbsolute (base : Path) {path : Path}
    (absolute : path.isAbsolute = true) :
    base.append path = path := by
  simp [append, absolute]

end Path

end SchemaCompose
