import SchemaCompose.Configuration.Basic

/-!
# Requests

A request names a configuration and, if it likes, the directory that the paths in
it are seen from; else they are seen from the directory of the configuration.
-/

namespace SchemaCompose

/-- The path of a configuration and of the directory that its paths are seen
from. -/
structure Request where
  configuration : Text
  base : Option Text := none
deriving DecidableEq, Repr, Inhabited

/-- Why a request is not carried out. -/
inductive RequestFailure where
  /-- There is no configuration. -/
  | configuration (failure : ConfigurationFailure)
  /-- A path cannot be followed. -/
  | path (error : DiskError)
deriving DecidableEq, Repr, Inhabited

namespace RequestFailure

/-- The wording of a failure. -/
def message : RequestFailure → Text
  | .configuration failure => failure.message
  | .path error => error.message

end RequestFailure

namespace Request

/-- The directory that the paths of a configuration are seen from. An empty one is
as good as none. -/
def baseOf (disk : Disk) (path : Path) (request : Request) :
    Except DiskError Path :=
  match request.base with
  | some (c :: name) => disk.resolve (Path.ofText (c :: name))
  | _ => (disk.resolve path).map Path.parent

/-- Carry out a request: load its configuration and run the jobs of it. -/
def run {Value : Type} [Shown Char Value] (reader : Reader Value) (disk : Disk)
    (request : Request) : Except RequestFailure (Run (List Outcome)) := do
  let configuration ←
    (Configuration.load reader disk (Path.ofText request.configuration)).mapError
      .configuration
  let base ← (request.baseOf disk configuration.path).mapError .path
  return Job.runAll base disk configuration.jobs

end Request

end SchemaCompose
