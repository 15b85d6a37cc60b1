import SchemaCompose.Disk.Path
import SchemaCompose.Registry
import SchemaCompose.Text.Utf8

/-!
# Disks

A disk is a finite tree of directories and files on a device that may fail.  A place
is named by the names from the root down to it; `Disk.entryAt` says what stands there
and is the view through which every operation is described.
-/

namespace SchemaCompose

/-- The names from the root down to a place. -/
abbrev Location := List Text

/-- What stands at a place. -/
inductive Entry where
  | directory
  | file (octets : List UInt8)
deriving DecidableEq, Repr, Inhabited

/-- Why a disk refuses an operation. -/
inductive Refusal where
  /-- Nothing stands at the path. -/
  | missing
  /-- Something stands at the path already. -/
  | occupied
  /-- The path goes on below something that is no directory. -/
  | notDirectory
  /-- The path leads to a directory where a file is asked for. -/
  | isDirectory
  /-- A name or the whole path is too long. -/
  | nameTooLong
  /-- The file is closed to whoever asks. -/
  | denied
  /-- The device is faulty. -/
  | faulty
  /-- The file would be larger than files may be. -/
  | tooLarge
  /-- No room is left. -/
  | noRoom
  /-- Nothing may be written. -/
  | readOnly
  /-- The room that was granted is used up. -/
  | overQuota
deriving DecidableEq, Repr, Inhabited

namespace Refusal

/-- The number of a refusal. -/
def number : Refusal → Nat
  | .missing => 2
  | .occupied => 17
  | .notDirectory => 20
  | .isDirectory => 21
  | .nameTooLong => 36
  | .denied => 13
  | .faulty => 5
  | .tooLarge => 27
  | .noRoom => 28
  | .readOnly => 30
  | .overQuota => 122

/-- The wording of a refusal. -/
def wording : Refusal → Text
  | .missing => "No such file or directory"
  | .occupied => "File exists"
  | .notDirectory => "Not a directory"
  | .isDirectory => "Is a directory"
  | .nameTooLong => "File name too long"
  | .denied => "Permission denied"
  | .faulty => "Input/output error"
  | .tooLarge => "File too large"
  | .noRoom => "No space left on device"
  | .readOnly => "Read-only file system"
  | .overQuota => "Disk quota exceeded"

end Refusal

/-- What goes wrong when the octets of a file are read or written. -/
inductive Trouble where
  /-- The file is not opened. -/
  | refused (refusal : Refusal)
  /-- The file is opened, and the device gives up after some octets. -/
  | brokenOff (refusal : Refusal) (count : Nat)
deriving DecidableEq, Repr, Inhabited

/-- The device behind a disk: what goes wrong when the file at a place is read, when
octets are put into the file at a place of a disk with the given entries, and when a
directory is made there. -/
structure Device where
  reading : Location → Option Trouble := fun _ => none
  writing : Registry Location Entry → Location → List UInt8 → Option Trouble :=
    fun _ _ _ => none
  making : Registry Location Entry → Location → Option Refusal := fun _ _ => none
deriving Inhabited

/-- Places and what stands at them, the place that relative paths start from, and the
device; unless another one is given, nothing ever goes wrong with it. -/
structure Disk where
  entries : Registry Location Entry := []
  workingDirectory : Location := []
  device : Device := {}
deriving Inhabited

namespace Disk

/-- The octets that a name may have at most. -/
def nameLimit : Nat := 255

/-- The octets that a path stays below. -/
def pathLimit : Nat := 4096

/-- What stands at a place. The root is always a directory. -/
def entryAt (disk : Disk) (location : Location) : Option Entry :=
  if location = [] then some .directory else disk.entries.find? location

/-- A directory stands at a place. -/
def isDirectoryAt (disk : Disk) (location : Location) : Bool :=
  match disk.entryAt location with
  | some .directory => true
  | _ => false

/-- The disk with something else at a place. -/
def put (location : Location) (entry : Entry) (disk : Disk) : Disk :=
  { disk with entries := disk.entries.put location entry }

/-- Everything below a place: the names that lead there from the place, and what
stands there. -/
def below (disk : Disk) (location : Location) : List (Location × Entry) :=
  disk.entries.filterMap fun (place, entry) =>
    if location.isPrefixOf place && place.length ≠ location.length then
      some (place.drop location.length, entry)
    else none

theorem entryAt_put_self {location : Location} (inside : location ≠ [])
    (entry : Entry) (disk : Disk) :
    (disk.put location entry).entryAt location = some entry := by
  simp [entryAt, put, inside]

theorem entryAt_put_of_ne {location other : Location} (different : other ≠ location)
    (entry : Entry) (disk : Disk) :
    (disk.put location entry).entryAt other = disk.entryAt other := by
  simp [entryAt, put, Registry.find?_put_of_ne different]

/-- Follow the pieces of a path from a place. Whatever is gone through has to be a
directory; an empty piece or a dot stays there, and `..` goes to the directory
above. -/
def walk (disk : Disk) : Location → List Text → Except Refusal Location
  | place, [] => .ok place
  | place, piece :: pieces =>
    if !disk.isDirectoryAt place then .error .notDirectory
    else if !isName piece then disk.walk place pieces
    else if piece = upward then disk.walk place.dropLast pieces
    else if nameLimit < (Utf8.encode piece).length then .error .nameTooLong
    else if (disk.entryAt (place ++ [piece])).isNone then .error .missing
    else disk.walk (place ++ [piece]) pieces

/-- The place that a path starts from. -/
def start (disk : Disk) : Anchor → Location
  | .here => disk.workingDirectory
  | .root | .doubleRoot => []

/-- The text of a path exceeds what a disk takes. -/
def isTooLong (text : Text) : Bool :=
  pathLimit ≤ (Utf8.encode text).length

/-- The place that the text of a path leads to. -/
def locate (disk : Disk) (text : Text) : Except Refusal Location :=
  if isTooLong text then .error .nameTooLong
  else if text = [] then .error .missing
  else disk.walk (disk.start (Anchor.ofText text)) (Text.pieces '/' text)

/-- What the text of a path leads to. -/
def find (disk : Disk) (text : Text) : Except Refusal Entry := do
  let location ← disk.locate text
  match disk.entryAt location with
  | some entry => .ok entry
  | none => .error .missing

/-- The place where the last name of a path would stand. A path without one, or
with `..` for it, is refused with `settled`. -/
def slot (disk : Disk) (settled : Refusal) (path : Path) :
    Except Refusal Location :=
  if isTooLong path.text then .error .nameTooLong
  else
    match path.parts.getLast? with
    | none => .error settled
    | some name => do
      let place ← disk.walk (disk.start path.anchor) path.parts.dropLast
      if !disk.isDirectoryAt place then .error .notDirectory
      else if name = upward then .error settled
      else if nameLimit < (Utf8.encode name).length then .error .nameTooLong
      else .ok (place ++ [name])

end Disk

end SchemaCompose
