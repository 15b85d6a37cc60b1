import SchemaCompose.Composition
import SchemaCompose.Mix.Record

/-!
# Mixing jobs

A job composes the schemas that its input patterns name and writes the result to
its output.  Jobs run one after the other on the same disk, so that a later one can
read what an earlier one wrote; a job that fails stops none of the others.
-/

namespace SchemaCompose

/-- Input patterns and the output that their schemas are composed into, in the given
letters. -/
structure JobOver (Letter : Type) where
  inputs : List (List Letter)
  output : List Letter
deriving DecidableEq, Repr, Inhabited

/-- A job whose patterns and output are texts. -/
abbrev Job := JobOver Char

/-- What came of a job. -/
structure Outcome where
  outputPath : Path
  documentsLoaded : Nat := 0
  modelsWritten : Nat := 0
  unmatchedPatterns : List Text := []
  failedDocuments : List Path := []
  error : Option DiskError := none
deriving DecidableEq, Repr, Inhabited

namespace Outcome

/-- The output was written. -/
def succeeded (outcome : Outcome) : Bool :=
  outcome.error.isNone

end Outcome

/-- What a run leaves: the disk, the records in order, and what it was run for. -/
structure Run (α : Type) where
  disk : Disk
  records : List Record
  result : α

namespace Disk

/-- Put text into the file at a path and make the directories above it. -/
def writeWithDirectories (disk : Disk) (path : Path) (text : Text) :
    Disk × Except DiskError Unit :=
  match disk.ensureDirectories path.parent with
  | (changed, .error error) => (changed, .error error)
  | (changed, .ok ()) => changed.writeText path text

end Disk

namespace Job

/-- Where a job writes, seen from a directory. -/
def outputPath (base : Path) (job : Job) : Path :=
  base.append (Path.ofText job.output)

/-- A warning for each model that remains a stub. -/
def stubWarnings (schema : Schema) : List Record :=
  (schema.models.filter (·.isStub)).map fun model => .stubRemains model.name

/-- What is left when a job cannot be carried through. -/
def abandon (path : Path) (disk : Disk) (records : List Record)
    (error : DiskError) : Run Outcome where
  disk := disk
  records := records ++ [.mixerFailed path error]
  result := { outputPath := path, error := some error }

/-- Run one job. -/
def run (base : Path) (disk : Disk) (job : Job) : Run Outcome :=
  let path := job.outputPath base
  let loading := Loading.ofPatterns disk base job.inputs
  match loading.stopped with
  | some error => abandon path disk loading.records error
  | none =>
    let schemas := loading.documents.map (·.schema)
    let composed := Schema.compose schemas
    let records :=
      loading.records ++ Record.composing schemas ++ stubWarnings composed
    let outcome : Outcome := {
      outputPath := path
      documentsLoaded := loading.documents.length
      unmatchedPatterns := loading.unmatched
      failedDocuments := loading.failed }
    match disk.writeWithDirectories path composed.generatedFile with
    | (disk, .ok ()) => {
        disk
        records := records ++
          [.written path loading.documents.length composed.models.length]
        result := { outcome with modelsWritten := composed.models.length } }
    | (disk, .error .embeddedNul) => abandon path disk records .embeddedNul
    | (disk, .error error) => {
        disk
        records := records ++ [.writeFailed path error]
        result := { outcome with error := some error } }

/-- Run jobs in order. -/
def runAll (base : Path) (disk : Disk) : List Job → Run (List Outcome)
  | [] => { disk, records := [], result := [] }
  | job :: jobs =>
    let first := job.run base disk
    let rest := runAll base first.disk jobs
    { disk := rest.disk
      records := first.records ++ rest.records
      result := first.result :: rest.result }

end Job

end SchemaCompose
