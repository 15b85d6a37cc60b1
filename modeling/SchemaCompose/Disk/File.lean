import SchemaCompose.Disk.Basic
import SchemaCompose.Text.Quoted

/-!
# Files

Reading, writing and making directories on a disk, with what each may be refused
for.
-/

namespace SchemaCompose

/-- Why an operation on a path fails. -/
inductive DiskError where
  /-- The disk refuses it. -/
  | refused (refusal : Refusal) (path : Path)
  /-- The device gives up in the middle of it. -/
  | brokenOff (refusal : Refusal)
  /-- The path holds the character that ends every name. -/
  | embeddedNul
deriving DecidableEq, Repr, Inhabited

namespace DiskError

/-- The wording of an error. An operation that was begun no longer knows the path. -/
def message : DiskError → Text
  | .refused refusal path =>
    "[Errno " ++ Text.ofNat refusal.number ++ "] " ++ refusal.wording ++ ": " ++
      Text.quoted path.text
  | .brokenOff refusal =>
    "[Errno " ++ Text.ofNat refusal.number ++ "] " ++ refusal.wording
  | .embeddedNul => "embedded null byte"

end DiskError

/-- The error that something gone wrong amounts to. -/
def Trouble.error (path : Path) : Trouble → DiskError
  | .refused refusal => .refused refusal path
  | .brokenOff refusal _ => .brokenOff refusal

namespace Disk

/-- An operation on a path whose names are all possible. -/
def onPath {α : Type} (path : Path) (operation : Except Refusal α) :
    Except DiskError α :=
  if path.hasNul then .error .embeddedNul
  else operation.mapError fun refusal => .refused refusal path

/-- What stands at a path, if anything does. A path that is too long is refused. -/
def status (disk : Disk) (path : Path) : Except DiskError (Option Entry) :=
  if path.hasNul then .ok none
  else
    match disk.find path.text with
    | .ok entry => .ok (some entry)
    | .error .nameTooLong => .error (.refused .nameTooLong path)
    | .error _ => .ok none

/-- A file stands at a path. -/
def isFile (disk : Disk) (path : Path) : Bool :=
  match disk.status path with
  | .ok (some (.file _)) => true
  | _ => false

/-- The paths at which a file stands. A path that is too long is refused. -/
def files (disk : Disk) : List Path → Except DiskError (List Path)
  | [] => .ok []
  | path :: paths => do
    discard (disk.status path)
    let others ← disk.files paths
    return if disk.isFile path then path :: others else others

/-- A directory stands at a path. -/
def isDirectory (disk : Disk) (path : Path) : Bool :=
  match disk.status path with
  | .ok (some .directory) => true
  | _ => false

/-- The place of the file at a path, and what is in it. -/
def fileAt (disk : Disk) (path : Path) : Except DiskError (Location × List UInt8) :=
  onPath path do
    let location ← disk.locate path.text
    match disk.entryAt location with
    | some (.file octets) => .ok (location, octets)
    | some .directory => .error .isDirectory
    | none => .error .missing

/-- The octets of the file at a path, if the device gives them. -/
def read (disk : Disk) (path : Path) : Except DiskError (List UInt8) := do
  let (location, octets) ← disk.fileAt path
  match disk.device.reading location with
  | none => .ok octets
  | some trouble => .error (trouble.error path)

/-- A text leads to a file that is closed to whoever asks. -/
def isClosed (disk : Disk) (text : Text) : Bool :=
  match disk.locate text with
  | .error _ => false
  | .ok location =>
    match disk.entryAt location with
    | some (.file _) => disk.device.reading location = some (.refused .denied)
    | _ => false

/-- The place of the file that is written to at a path. -/
def outputAt (disk : Disk) (path : Path) : Except DiskError Location :=
  onPath path do
    let location ← disk.slot .isDirectory path
    if disk.isDirectoryAt location then .error .isDirectory else .ok location

/-- Put octets into the file at a path, which is made if its directory is there. When
the device gives up, the octets up to there are all that the file holds. -/
def write (disk : Disk) (path : Path) (octets : List UInt8) :
    Disk × Except DiskError Unit :=
  match disk.outputAt path with
  | .error error => (disk, .error error)
  | .ok location =>
    match disk.device.writing disk.entries location octets with
    | none => (disk.put location (.file octets), .ok ())
    | some (.refused refusal) => (disk, .error (.refused refusal path))
    | some (.brokenOff refusal count) =>
      (disk.put location (.file (octets.take count)), .error (.brokenOff refusal))

/-- Make the directory at a path, whose own directory has to be there. -/
def makeDirectory (disk : Disk) (path : Path) : Except DiskError Disk :=
  onPath path do
    let location ← disk.slot .occupied path
    if (disk.entryAt location).isSome then .error .occupied
    else
      match disk.device.making disk.entries location with
      | none => .ok (disk.put location .directory)
      | some refusal => .error refusal

/-- Make the directory at a path unless it is there. -/
def ensureDirectory (disk : Disk) (path : Path) : Except DiskError Disk :=
  match disk.makeDirectory path with
  | .ok changed => .ok changed
  | .error error =>
    if error ≠ .refused .missing path && disk.isDirectory path then .ok disk
    else .error error

/-- Make the directory at a path and every directory above it, unless they are
there. What has been made stays when a later one is refused. -/
def ensureDirectories (disk : Disk) (path : Path) : Disk × Except DiskError Unit :=
  match disk.ensureDirectory path with
  | .ok changed => (changed, .ok ())
  | .error error =>
    if _missing : error = .refused .missing path ∧ path.parts ≠ [] then
      match disk.ensureDirectories path.parent with
      | (changed, .error error) => (changed, .error error)
      | (changed, .ok ()) =>
        match changed.ensureDirectory path with
        | .ok complete => (complete, .ok ())
        | .error error => (changed, .error error)
    else (disk, .error error)
termination_by path.parts.length
decreasing_by
  have := List.length_pos_iff.mpr _missing.2
  simp only [Path.length_parts_parent]
  omega

/-- The path from the root to where a path leads. -/
def resolve (disk : Disk) (path : Path) : Except DiskError Path :=
  if path.hasNul then .error .embeddedNul
  else .ok (path.resolve disk.workingDirectory)

end Disk

end SchemaCompose
