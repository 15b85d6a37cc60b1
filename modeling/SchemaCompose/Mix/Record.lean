import SchemaCompose.Merge.Identity
import SchemaCompose.Merge.Model
import SchemaCompose.Mix.Document

/-!
# Log records

Whatever a run reports on the way is a record.  A record says what happened; its
level, the part of the program that it comes from and its wording follow from that.
-/

namespace SchemaCompose

/-- How grave a record is, from the least to the most. -/
inductive Level where
  | debug
  | info
  | warning
  | error
deriving DecidableEq, Repr, Inhabited

namespace Level

/-- The name of a level. -/
def name : Level → Text
  | .debug => "DEBUG"
  | .info => "INFO"
  | .warning => "WARNING"
  | .error => "ERROR"

/-- The rank of a level; a graver one is higher. -/
def rank : Level → Nat
  | .debug => 0
  | .info => 1
  | .warning => 2
  | .error => 3

end Level

/-- What a run reports. -/
inductive Record where
  /-- A later declaration takes the place of a different one. -/
  | fieldReplaced (model field : Text)
  /-- The identities of a merged model. -/
  | identities (model : Text) (rows : List (List Text))
  /-- A document was loaded. -/
  | documentLoaded (path : Path) (models : Nat)
  /-- A file gives no document. -/
  | documentFailed (path : Path) (failure : LoadFailure)
  /-- A pattern names no file. -/
  | patternUnmatched (pattern : Text)
  /-- No document has more than a stub for a model. -/
  | stubRemains (model : Text)
  /-- An output was written. -/
  | written (path : Path) (schemas models : Nat)
  /-- The disk refused an output. -/
  | writeFailed (path : Path) (error : DiskError)
  /-- A mixer could not be carried through. -/
  | mixerFailed (path : Path) (error : DiskError)
deriving DecidableEq, Repr

namespace Record

/-- The level of a record. -/
def level : Record → Level
  | .fieldReplaced .. | .identities .. => .debug
  | .documentLoaded .. | .written .. => .info
  | .stubRemains .. => .warning
  | .documentFailed .. | .patternUnmatched .. | .writeFailed ..
  | .mixerFailed .. => .error

/-- The part of the program that a record names as its origin. -/
def origin : Record → Text
  | .fieldReplaced .. | .identities .. => "schemamix.model_merging.model_merge"
  | .documentLoaded .. | .documentFailed .. | .patternUnmatched .. =>
    "schemamix.mix_execution.document_loading"
  | .stubRemains .. | .written .. | .writeFailed .. | .mixerFailed .. =>
    "schemamix.mix_execution.mix_use_case"

/-- The wording of a record. -/
def message : Record → Text
  | .fieldReplaced model field =>
    "Replacing field " ++ model ++ "." ++ field ++ " with later declaration"
  | .identities model rows =>
    "Model " ++ model ++ " identity tuples: " ++
      Text.shownRow (rows.map fun row => Text.shownRow (row.map Text.quoted))
  | .documentLoaded path models =>
    "Loaded schema " ++ path.text ++ " (" ++ Text.ofNat models ++ " models)"
  | .documentFailed path failure =>
    "Failed to parse schema located at '" ++ path.text ++ "': " ++ failure.message ++
      ". Models referenced from another schema need a stub alias model declaring at least the " ++
      "@id field."
  | .patternUnmatched pattern =>
    "No schema file matches input pattern '" ++ pattern ++
      "'. Check the mixer configuration and whether the file exists."
  | .stubRemains model =>
    "Model " ++ model ++
      " is only declared as a stub; no schema provides its full definition."
  | .written path schemas models =>
    "Wrote " ++ path.text ++ " from " ++ Text.ofNat schemas ++ " schema(s) with " ++
      Text.ofNat models ++ " model(s)"
  | .writeFailed path error =>
    "Failed to write composed schema to '" ++ path.text ++ "': " ++ error.message
  | .mixerFailed path error =>
    "Mixer for '" ++ path.text ++ "' failed: " ++ error.message

/-- What merging a declaration into a model reports. -/
def replacing (base incoming : Model) : List Record :=
  (Model.changedFields base.fields incoming.fields).map (fieldReplaced base.name)

/-- What merging a row of models reports: every field replaced, then the identities
of each merged model. -/
def merging (models : List Model) : List Record :=
  (Model.replacements [] models).map
      (fun (model, field) => fieldReplaced model field) ++
    (Model.mergeAll models).map fun model => identities model.name model.identities

/-- What composing a row of schemas reports. -/
def composing (schemas : List Schema) : List Record :=
  merging (schemas.flatMap (·.models))

/-- What one attempt at an input reports. -/
def ofAttempt : Attempt → Record
  | .unmatched pattern => .patternUnmatched pattern
  | .loaded document => .documentLoaded document.path document.schema.models.length
  | .failed path failure => .documentFailed path failure

end Record

namespace Loading

/-- What loading the inputs of a job reports. -/
def records (loading : Loading) : List Record :=
  loading.attempts.map Record.ofAttempt

end Loading

end SchemaCompose
