import SchemaCompose.Schema.Comment
import SchemaCompose.Schema.Fault
import SchemaCompose.Text.Lines
import SchemaCompose.Text.Word

/-!
# Blocks of a document

A document is a row of blocks.  A header line opens a block, and the first line
behind it that holds nothing but a closing brace ends it.  Between blocks stand
blank lines, comments and documentation; documentation belongs to the next header
unless a blank line comes first.
-/

namespace SchemaCompose

/-- A trimmed line and its number in the document. -/
structure Line where
  number : Nat
  text : Text
deriving DecidableEq, Repr, Inhabited

namespace Line

/-- The trimmed lines of a document, counted from one. -/
def ofText (text : Text) : List Line :=
  (Text.lines text).zipIdx 1 |>.map fun (line, number) => ⟨number, Text.trim line⟩

/-- What a line says for documentation, if it is a documentation line. -/
def documentation? (line : Line) : Option Text :=
  (Text.after? "///" line.text).map Text.trim

/-- What a line holds besides its comment. -/
def code (line : Line) : Text :=
  Text.code line.text

end Line

/-- Documentation lines as one text; none if they say nothing. -/
def joinDocumentation (documentation : List Text) : Option Text :=
  match Text.unlines documentation with
  | [] => none
  | text => some text

/-- A block as it is cut from the document: its header and the lines of its body. -/
structure Block where
  kind : BlockKind
  name : Text
  /-- The number of the header line. -/
  line : Nat
  documentation : Option Text
  body : List Line
deriving DecidableEq, Repr, Inhabited

namespace Block

/-- The keyword and the name of a header line. -/
def header? (content : Text) : Option (Text × Text) :=
  let keyword := content.takeWhile Char.isAlpha
  let behind := content.dropWhile Char.isAlpha
  if keyword.isEmpty || !(behind.head?.any Text.isBlank) then none
  else
    match Text.identifier? (Text.trimStart behind) with
    | some (name, behind) =>
      if Text.trimStart behind = ['{'] then some (keyword, name) else none
    | none => none

/-- Where a reader of lines stands: between blocks with the documentation collected
so far, or inside a block whose body is still growing. -/
inductive Position where
  | between (documentation : List Text)
  | within (block : Block)
deriving DecidableEq, Repr

/-- The blocks that are complete, and the position behind the lines read. -/
structure Splitting where
  complete : List Block := []
  position : Position := .between []
deriving DecidableEq, Repr

namespace Splitting

/-- Read one more line. -/
def step (splitting : Splitting) (line : Line) : Except ParseError Splitting :=
  match splitting.position with
  | .within block =>
    if line.code = ['}'] then
      .ok { complete := splitting.complete ++ [block], position := .between [] }
    else
      .ok { splitting with
        position := .within { block with body := block.body ++ [line] } }
  | .between documentation =>
    match line.documentation? with
    | some text =>
      .ok { splitting with position := .between (documentation ++ [text]) }
    | none =>
      if line.text.isEmpty then .ok { splitting with position := .between [] }
      else if line.code.isEmpty then .ok splitting
      else
        match header? line.code with
        | none => .error ⟨.outsideBlock line.code, line.number⟩
        | some (keyword, name) =>
          match BlockKind.ofKeyword? keyword with
          | none => .error ⟨.unsupportedBlock keyword, line.number⟩
          | some kind =>
            .ok { splitting with
              position := .within
                { kind, name, line := line.number
                  documentation := joinDocumentation documentation, body := [] } }

/-- The blocks of a document that ends here. -/
def finish (splitting : Splitting) : Except ParseError (List Block) :=
  match splitting.position with
  | .between _ => .ok splitting.complete
  | .within block => .error ⟨.unclosedBlock block.kind block.name, block.line⟩

end Splitting

/-- The blocks of a row of lines. -/
def split (lines : List Line) : Except ParseError (List Block) :=
  lines.foldlM Splitting.step {} >>= Splitting.finish

end Block

end SchemaCompose
