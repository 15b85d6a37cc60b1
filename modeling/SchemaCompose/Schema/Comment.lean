import SchemaCompose.Text.Basic

/-!
# String literals and comments of a line

A string literal stands between double quotes, and a backslash inside it takes the
next character along.  A comment starts at two slashes outside every literal and
runs to the end of the line.
-/

namespace SchemaCompose

/-- Where a scanner of a line stands with respect to string literals. -/
inductive LiteralState where
  | outside
  | inside
  /-- Inside a literal, right behind a backslash. -/
  | escaped
deriving DecidableEq, Repr, Inhabited

namespace LiteralState

/-- The state behind one more character. -/
def next : LiteralState → Char → LiteralState
  | .outside, c => if c = '"' then .inside else .outside
  | .inside, c =>
    if c = '\\' then .escaped else if c = '"' then .outside else .inside
  | .escaped, _ => .inside

/-- The state behind a whole text. -/
def run (state : LiteralState) (text : Text) : LiteralState :=
  text.foldl next state

@[simp]
theorem run_cons (state : LiteralState) (c : Char) (text : Text) :
    state.run (c :: text) = (state.next c).run text := rfl

@[simp]
theorem run_append (state : LiteralState) (left right : Text) :
    state.run (left ++ right) = (state.run left).run right := by
  simp [run]

end LiteralState

namespace Text

/-- The text up to its comment, where the scanner starts in a given state. -/
def beforeComment : LiteralState → Text → Text
  | _, [] => []
  | state, c :: rest =>
    if state = .outside ∧ c = '/' ∧ rest.head? = some '/' then []
    else c :: beforeComment (state.next c) rest

/-- What a trimmed line holds besides its comment. -/
def code (line : Text) : Text :=
  trimEnd (beforeComment .outside line)

end Text

end SchemaCompose
