import SchemaCompose.Disk.Expansion
import SchemaCompose.Mining.Injection

/-!
# Schema documents

A document is a schema together with the file and the text that it was read from.
The text of a file is UTF-8 with every end of a line read as a line feed.
-/

namespace SchemaCompose

/-- Why a file has no text. -/
inductive ReadFailure where
  /-- The disk does not give the file. -/
  | disk (error : DiskError)
  /-- The octets of the file are not UTF-8. -/
  | undecodable (error : Utf8.DecodeError)
deriving DecidableEq, Repr, Inhabited

namespace ReadFailure

/-- The wording of a failure. -/
def message : ReadFailure → Text
  | .disk error => error.message
  | .undecodable error => error.message

end ReadFailure

namespace Disk

/-- The text of the file at a path. -/
def readText (disk : Disk) (path : Path) : Except ReadFailure Text := do
  let octets ← (disk.read path).mapError .disk
  let text ← (Utf8.decode octets).mapError .undecodable
  return Utf8.normalizeNewlines text

/-- Put text into the file at a path. -/
def writeText (disk : Disk) (path : Path) (text : Text) :
    Disk × Except DiskError Unit :=
  disk.write path (Utf8.encode text)

end Disk

/-- A schema, where it was found, and the text that declares it. -/
structure Document where
  path : Path
  text : Text
  schema : Schema
deriving DecidableEq, Repr, Inhabited

/-- Why a file gives no document. -/
inductive LoadFailure where
  /-- The file has no text. -/
  | unreadable (failure : ReadFailure)
  /-- The text declares no schema. -/
  | invalid (error : ParseError)
deriving DecidableEq, Repr, Inhabited

namespace LoadFailure

/-- The wording of a failure. -/
def message : LoadFailure → Text
  | .unreadable failure => failure.message
  | .invalid error => error.message

end LoadFailure

namespace Document

/-- The document in the file at a path. -/
def load (disk : Disk) (path : Path) : Except LoadFailure Document := do
  let text ← (disk.readText path).mapError .unreadable
  let schema ← (Schema.ofDocument text).mapError .invalid
  return { path, text, schema }

end Document

/-- What came of one input of a job. -/
inductive Attempt where
  /-- A pattern names no file. -/
  | unmatched (pattern : Text)
  /-- A file gives a document. -/
  | loaded (document : Document)
  /-- A file gives none. -/
  | failed (path : Path) (failure : LoadFailure)
deriving DecidableEq, Repr, Inhabited

namespace Attempt

/-- The attempt at the file at a path. -/
def ofFile (disk : Disk) (path : Path) : Attempt :=
  match Document.load disk path with
  | .ok document => .loaded document
  | .error failure => .failed path failure

/-- The pattern, if it was one that names no file. -/
def unmatched? : Attempt → Option Text
  | .unmatched pattern => some pattern
  | _ => none

/-- The document, if there is one. -/
def document? : Attempt → Option Document
  | .loaded document => some document
  | _ => none

/-- The path of a file that gives no document. -/
def failed? : Attempt → Option Path
  | .failed path _ => some path
  | _ => none

/-- The attempts at what a pattern names. -/
def ofPaths (disk : Disk) (pattern : Text) : List Path → List Attempt
  | [] => [.unmatched pattern]
  | paths => paths.map (ofFile disk)

end Attempt

/-- The attempts at the inputs of a job, in order, and the error that ended them
early if there was one. -/
structure Loading where
  attempts : List Attempt := []
  stopped : Option DiskError := none
deriving DecidableEq, Repr, Inhabited

namespace Loading

/-- The documents that were loaded. -/
def documents (loading : Loading) : List Document :=
  loading.attempts.filterMap Attempt.document?

/-- The patterns that name no file. -/
def unmatched (loading : Loading) : List Text :=
  loading.attempts.filterMap Attempt.unmatched?

/-- The files that give no document. -/
def failed (loading : Loading) : List Path :=
  loading.attempts.filterMap Attempt.failed?

/-- Load what each pattern names, seen from a directory. Nothing that is missing or
refused keeps the others from being loaded. -/
def ofPatterns (disk : Disk) (base : Path) : List Text → Loading
  | [] => {}
  | pattern :: patterns =>
    match disk.expand base pattern with
    | .error error => { stopped := some error }
    | .ok paths =>
      let rest := ofPatterns disk base patterns
      { rest with attempts := Attempt.ofPaths disk pattern paths ++ rest.attempts }

end Loading

end SchemaCompose
