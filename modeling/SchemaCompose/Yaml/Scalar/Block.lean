import SchemaCompose.Text.Digit
import SchemaCompose.Yaml.Character

/-!
# Block scalars

A block scalar is a header and the lines that are indented behind it.  Its lines
are kept as they are or folded; the header says what becomes of the line ends at
the end of it.
-/

namespace SchemaCompose.Yaml.Block

/-- What becomes of the line ends behind the last line. -/
inductive Chomping where
  | strip
  | clip
  | keep
deriving DecidableEq, Repr, Inhabited

/-- What a header says: the chomping, and the indentation if it is given. -/
structure Header where
  chomping : Chomping := .clip
  indentation : Option Nat := none
deriving DecidableEq, Repr, Inhabited

/-- A sign at the front of a header. -/
def sign? : Text → Option (Chomping × Text)
  | '+' :: rest => some (.keep, rest)
  | '-' :: rest => some (.strip, rest)
  | _ => none

/-- A digit at the front of a header. Nothing can be indented by zero. -/
def digit? : Text → Except Fault (Option (Nat × Text))
  | '0' :: _ => .error .malformed
  | c :: rest => .ok (if c.isDigit then some (c.toNat - '0'.toNat, rest) else none)
  | [] => .ok none

/-- The header of a block scalar: a sign and a digit in either order, both
optional. -/
def header (text : Text) : Except Fault (Header × Text) := do
  let read : Header × Text ←
    match sign? text with
    | some (chomping, rest) =>
      match ← digit? rest with
      | some (indentation, behind) => pure ({ chomping, indentation }, behind)
      | none => pure ({ chomping }, rest)
    | none =>
      match ← digit? text with
      | some (indentation, rest) =>
        match sign? rest with
        | some (chomping, behind) => pure ({ chomping, indentation }, behind)
        | none => pure ({ indentation }, rest)
      | none => pure ({}, text)
  if atSpace read.2 then return read else throw .malformed

/-- What was passed over before a line: the line ends, the column reached and the
text from there. -/
structure Passed where
  breaks : Text
  column : Nat
  rest : Text
deriving DecidableEq, Repr

/-- Pass over empty lines and at most `indentation` spaces of the next. -/
def pass (indentation : Nat) : (column : Nat) → Text → Passed
  | column, ' ' :: rest =>
    if column < indentation then pass indentation (column + 1) rest
    else { breaks := [], column, rest := ' ' :: rest }
  | column, c :: rest =>
    if isBreak c then
      let passed := pass indentation 0 rest
      { passed with breaks := c :: passed.breaks }
    else { breaks := [], column, rest := c :: rest }
  | column, [] => { breaks := [], column, rest := [] }

/-- Pass over empty lines and all spaces of the next, and find the widest run of
spaces. -/
def passAll : (column widest : Nat) → Text → Passed × Nat
  | column, widest, ' ' :: rest =>
    passAll (column + 1) (max widest (column + 1)) rest
  | column, widest, c :: rest =>
    if isBreak c then
      let (passed, widest) := passAll 0 widest rest
      ({ passed with breaks := c :: passed.breaks }, widest)
    else ({ breaks := [], column, rest := c :: rest }, widest)
  | column, widest, [] => ({ breaks := [], column, rest := [] }, widest)

/-- The content of a block scalar, the end of its last line, the empty lines behind
it and the text that follows. -/
structure Content where
  text : Text := []
  lineEnd : Text := []
  breaks : Text := []
  rest : Text
deriving DecidableEq, Repr

/-- What stands between two lines. Folding turns a line end between two lines that
start with no white space into a space, or into nothing if empty lines follow. -/
def between (folded : Bool) (line lineEnd breaks next : Text) : Text :=
  let flush (text : Text) : Bool := !(text.head?.any isWhite)
  if folded && lineEnd = ['\n'] && flush line && flush next then
    if breaks = [] then [' '] else []
  else lineEnd

/-- The lines of a block scalar; `fuel` bounds their number. -/
def lines (folded : Bool) (indentation : Nat) : (fuel : Nat) → Passed → Content
  | 0, passed => { breaks := passed.breaks, rest := passed.rest }
  | fuel + 1, passed =>
    if passed.column = indentation && passed.rest ≠ [] then
      let line := passed.rest.takeWhile (!isBreak ·)
      let behind := passed.rest.dropWhile (!isBreak ·)
      let lineEnd := behind.take 1
      let next := pass indentation 0 (behind.drop 1)
      if next.column = indentation && next.rest ≠ [] then
        let content := lines folded indentation fuel next
        { content with
          text := passed.breaks ++ line ++
            between folded line lineEnd next.breaks next.rest ++ content.text }
      else
        { text := passed.breaks ++ line, lineEnd, breaks := next.breaks
          rest := next.rest }
    else { breaks := passed.breaks, rest := passed.rest }

/-- The content with the line ends that the chomping leaves. -/
def chomp (content : Content) : Chomping → Text
  | .strip => content.text
  | .clip => content.text ++ content.lineEnd
  | .keep => content.text ++ content.lineEnd ++ content.breaks

end Block

/-- A block scalar, read from behind its indicator. Its lines are indented at least
to the column `least`, and at least by one. -/
def blockScalar (folded : Bool) (least : Nat) (text : Text) :
    Except Fault (Text × Text) := do
  let (header, behind) ← Block.header text
  let start ← emptyLine behind
  let least := max least 1
  let (passed, indentation) :=
    match header.indentation with
    | some more =>
      let indentation := least + more - 1
      (Block.pass indentation 0 start, indentation)
    | none =>
      let (passed, widest) := Block.passAll 0 0 start
      (passed, max least widest)
  let content := Block.lines folded indentation start.length passed
  return (Block.chomp content header.chomping, content.rest)

end SchemaCompose.Yaml
