import SchemaCompose.Mining.Pattern
import SchemaCompose.Registry
import SchemaCompose.Schema.Basic
import SchemaCompose.Text.Lines

/-!
# Mined attributes

Column mappings, native types, actions on update, index attributes and comment
directives are recovered from the text of a document, line by line.  The text is
cut at every closing brace that starts a line, and what a cut holds is kept under
the name of the model whose header it holds.
-/

namespace SchemaCompose

namespace FieldExtras

/-- Nothing was recovered. An empty name counts as none. -/
def isEmpty (extras : FieldExtras) : Bool :=
  !(Text.isSet extras.columnName || Text.isSet extras.nativeType ||
    Text.isSet extras.onUpdate || extras.shareable || extras.inaccessible ||
    extras.external || extras.requires)

end FieldExtras

/-- What is recovered for one model. -/
structure MinedModel where
  fields : Registry Text FieldExtras := []
  extraIndexes : List Text := []
  isStub : Bool := false
deriving DecidableEq, Repr, Inhabited

/-- What is recovered from a document, under the names of its models. -/
abbrev Mined := Registry Text MinedModel

namespace Mining

open Text

/-- The text cut at every closing brace that starts a line. -/
def cuts : Text → List Text
  | [] => [[]]
  | '\n' :: '}' :: rest => [] :: cuts rest
  | c :: rest =>
    match cuts rest with
    | [] => [[c]]
    | cut :: others => (c :: cut) :: others

/-- The trimmed lines of a cut that are not blank. -/
def linesOf (cut : Text) : List Text :=
  ((lines cut).map trim).filter (!·.isEmpty)

/-- The line holds nothing but a comment. -/
def isComment (line : Text) : Bool :=
  startsWith "//" line

/-- The name in the first model header among the lines. -/
def headerName? (cut : List Text) : Option Text :=
  (cut.filter (!isComment ·)).findSome? modelName?

/-- What is recovered from a field's line. -/
def extrasOf (line : Text) : FieldExtras where
  columnName := firstMatch columnName? none line
  nativeType := firstMatch (fun _ => nativeType?) none line
  onUpdate := firstMatch (fun _ => onUpdate?) none line
  shareable := hasDirective "shareable" line
  inaccessible := hasDirective "inaccessible" line
  external := hasDirective "external" line
  requires := hasDirective "requires" line

/-- What a model keeps of one more line. -/
def keepLine (mined : MinedModel) (line : Text) : MinedModel :=
  if isComment line then { mined with isStub := mined.isStub || isStubComment line }
  else
    match firstMatch (fun _ => extraIndex?) none line with
    | some index => { mined with extraIndexes := mined.extraIndexes ++ [index] }
    | none =>
      let extras := extrasOf line
      if extras.isEmpty then mined
      else
        { mined with
          fields := mined.fields.put (line.takeWhile (!isBlank ·)) extras }

/-- What is recovered from one cut. -/
def ofLines (cut : List Text) : MinedModel :=
  cut.foldl keepLine {}

/-- What is recovered from a document. A later cut of the same name takes the place
of an earlier one. -/
def ofText (text : Text) : Mined :=
  (cuts text).foldl (fun mined cut =>
    match headerName? (linesOf cut) with
    | some name => mined.put name (ofLines (linesOf cut))
    | none => mined) []

end Mining

end SchemaCompose
