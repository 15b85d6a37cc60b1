import SchemaCompose.Disk.File
import SchemaCompose.Disk.Wildcard

/-!
# Expanding patterns

A pattern is a path whose pieces may be wildcards.  It is expanded piece by piece:
each piece turns the directories found so far into what it names in them.  The
piece `**` names the directory itself and everything below it; names that start
with a dot are found only by a piece that starts with one.
-/

namespace SchemaCompose

/-- How one piece of a pattern finds names in a directory. -/
inductive Search where
  /-- The directory itself and everything below it. -/
  | below
  /-- The names that a wildcard matches. -/
  | matching (wildcard : Text)
  /-- Just this name; the empty one asks for a directory. -/
  | named (name : Text)
deriving DecidableEq, Repr, Inhabited

/-- A name that is found only when asked for. -/
def isHidden (name : Text) : Bool :=
  name.head? = some '.'

namespace Search

/-- The search that a piece stands for. -/
def ofPiece (piece : Text) : Search :=
  if piece = ("**" : Text) then .below
  else if Wildcard.isUsed piece then .matching piece
  else .named piece

end Search

/-- A pattern cut in two: the directory where the search starts and the searches
from there on. -/
structure Pattern where
  lead : Text
  searches : List Search
deriving DecidableEq, Repr, Inhabited

namespace Pattern

/-- The text of a directory without the slashes behind it, unless there is nothing
else. -/
def withoutTrailingSlashes (text : Text) : Text :=
  if text.all (· = '/') then text else (text.reverse.dropWhile (· = '/')).reverse

/-- A pattern with a wildcard, cut before the first piece that is one. -/
def ofText (text : Text) : Pattern :=
  let (fixed, searched) := (Text.pieces '/' text).span (!Wildcard.isUsed ·)
  let closing : List Text := if searched.getLast? = some [] then [[]] else []
  { lead := withoutTrailingSlashes (fixed.flatMap (· ++ ['/']))
    searches := (searched.filter (!·.isEmpty) ++ closing).map Search.ofPiece }

end Pattern

/-- A path behind a directory: an absolute path stands on its own, and a slash is
put between if there is none. -/
def behind (directory path : Text) : Text :=
  if path.head? = some '/' then path
  else if directory = [] || directory.getLast? = some '/' then directory ++ path
  else directory ++ '/' :: path

/-- A path behind a directory, where either may be left out. -/
def inside (directory path : Text) : Text :=
  if directory = [] then path
  else if path = [] then directory
  else behind directory path

namespace Disk

/-- Something stands where a text leads. -/
def holds (disk : Disk) (text : Text) : Bool :=
  !text.contains '\x00' && (disk.find text).toOption.isSome

/-- A directory stands where a text leads. -/
def holdsDirectory (disk : Disk) (text : Text) : Bool :=
  !text.contains '\x00' && (disk.find text).toOption = some .directory

/-- The names below the directory that a text leads to; nothing if it is none. -/
def listing (disk : Disk) (text : Text) : List (Location × Entry) :=
  match disk.locate text with
  | .ok location => if disk.isDirectoryAt location then disk.below location else []
  | .error _ => []

/-- What a search finds in a directory, as paths from there. -/
def found (disk : Disk) (directory : Text) (onlyDirectories : Bool)
    (search : Search) : List Text :=
  let present :=
    (disk.listing directory).filter fun (_, entry) =>
      !onlyDirectories || entry = .directory
  match search with
  | .named [] => if disk.holdsDirectory directory then [[]] else []
  | .named name => if disk.holds (inside directory name) then [name] else []
  | .matching wildcard =>
    present.filterMap fun (names, _) =>
      match names with
      | [name] =>
        if (isHidden wildcard || !isHidden name) && matchesWildcard wildcard name then
          some name
        else none
      | _ => none
  | .below =>
    -- a directory is looked into only if its own path is short enough
    (if disk.holdsDirectory directory then [[]] else []) ++
      (present.filter fun (names, _) => names.all (!isHidden ·) &&
        !isTooLong (inside directory (Text.join ['/'] names.dropLast))).map
          fun (names, _) => Text.join ['/'] names

/-- What a row of searches finds from some directories on. All but the last look
for directories. -/
def search (disk : Disk) (base : Text) : List Search → List Text → List Text
  | [], directories => directories
  | next :: searches, directories =>
    disk.search base searches (directories.flatMap fun directory =>
      (disk.found (inside base directory) (!searches.isEmpty) next).map
        (behind directory))

/-- The paths that a pattern names, seen from a directory. -/
def matching (disk : Disk) (base pattern : Text) : Except DiskError (List Text) :=
  if Wildcard.isUsed pattern then
    let cut := Pattern.ofText pattern
    if (inside base cut.lead).contains '\x00' then .error .embeddedNul
    else .ok (disk.search base cut.searches [cut.lead])
  else if pattern = [] || pattern.getLast? = some '/' then
    .ok (if disk.holdsDirectory (inside base pattern) then [pattern] else [])
  else .ok (if disk.holds (inside base pattern) then [pattern] else [])

/-- One text does not stand behind another in the order by the numbers of their
characters. -/
def inOrder (earlier later : Text) : Bool :=
  !later.lex earlier fun left right => left.toNat.blt right.toNat

/-- The files that a pattern names, seen from a directory, in the order of their
texts. A file is repeated as often as the pattern finds it. -/
def expand (disk : Disk) (base : Path) (pattern : Text) :
    Except DiskError (List Path) := do
  let texts ← disk.matching base.text pattern
  let found := texts.mergeSort inOrder
  disk.files (found.map fun text => base.append (Path.ofText text))

end Disk

end SchemaCompose
