import SchemaCompose.Disk.Expansion
import SchemaCompose.Proofs.Registries

/-!
# The shape of a disk

The shape of a disk is what is left when every file is emptied: its directories, and
where files stand.  What a path leads to and what a pattern names depend on the shape
alone (`expand_of_sameShape`), so that writing into files that are there changes
neither.
-/

namespace SchemaCompose

/-- The entry with nothing in it. -/
def Entry.emptied : Entry → Entry
  | .directory => .directory
  | .file _ => .file []

theorem Entry.emptied_eq_directory {entry : Entry} :
    entry.emptied = .directory ↔ entry = .directory := by
  cases entry with
  | directory => simp [emptied]
  | file octets => simp [emptied]

namespace Disk

/-- The disk with every file emptied. -/
def emptied (disk : Disk) : Disk :=
  { disk with entries := disk.entries.mapValues Entry.emptied }

/-- Two disks have the same directories, and files at the same places. -/
def SameShape (disk other : Disk) : Prop :=
  disk.emptied = other.emptied

/-- Where a path starts depends on the working directory. -/
theorem start_congr {disk other : Disk} (home : other.workingDirectory = disk.workingDirectory)
    (anchor : Anchor) : other.start anchor = disk.start anchor := by
  cases anchor with
  | here => exact home
  | root => rfl
  | doubleRoot => rfl

variable (disk : Disk)

theorem entryAt_emptied (location : Location) :
    disk.emptied.entryAt location = (disk.entryAt location).map Entry.emptied := by
  rw [entryAt, entryAt]
  split_ifs
  · rfl
  · exact Registry.find?_mapValues _ _ _

theorem isDirectoryAt_emptied (location : Location) :
    disk.emptied.isDirectoryAt location = disk.isDirectoryAt location := by
  rw [isDirectoryAt, isDirectoryAt, entryAt_emptied]
  cases disk.entryAt location with
  | none => rfl
  | some entry =>
      cases entry with
      | directory => rfl
      | file octets => rfl

theorem walk_emptied (place : Location) (pieces : List Text) :
    disk.emptied.walk place pieces = disk.walk place pieces := by
  induction pieces generalizing place with
  | nil => rfl
  | cons piece pieces ih =>
      simp only [walk, isDirectoryAt_emptied, entryAt_emptied, Option.isNone_map, ih]

theorem start_emptied (anchor : Anchor) :
    disk.emptied.start anchor = disk.start anchor :=
  start_congr rfl anchor

theorem locate_emptied (text : Text) :
    disk.emptied.locate text = disk.locate text := by
  simp only [locate, walk_emptied, start_emptied]

theorem slot_emptied (settled : Refusal) (path : Path) :
    disk.emptied.slot settled path = disk.slot settled path := by
  simp only [slot, walk_emptied, start_emptied, isDirectoryAt_emptied]

theorem find_emptied (text : Text) :
    disk.emptied.find text = (disk.find text).map Entry.emptied := by
  rw [find, find, locate_emptied]
  cases disk.locate text with
  | error refusal => rfl
  | ok location =>
      simp only [bind, Except.bind, entryAt_emptied]
      cases disk.entryAt location with
      | none => rfl
      | some entry => rfl

theorem holds_emptied (text : Text) : disk.emptied.holds text = disk.holds text := by
  rw [holds, holds, find_emptied]
  cases disk.find text with
  | error refusal => rfl
  | ok entry => rfl

theorem holdsDirectory_emptied (text : Text) :
    disk.emptied.holdsDirectory text = disk.holdsDirectory text := by
  rw [holdsDirectory, holdsDirectory, find_emptied]
  cases disk.find text with
  | error refusal => rfl
  | ok entry =>
      cases entry with
      | directory => rfl
      | file octets => rfl

theorem below_emptied (location : Location) :
    disk.emptied.below location =
      (disk.below location).map fun (names, entry) => (names, entry.emptied) := by
  rw [below, below, emptied, Registry.mapValues, List.filterMap_map, List.map_filterMap]
  apply List.filterMap_congr
  rintro ⟨place, entry⟩ _
  simp only [Function.comp_apply]
  split_ifs
  · rfl
  · rfl

theorem listing_emptied (text : Text) :
    disk.emptied.listing text =
      (disk.listing text).map fun (names, entry) => (names, entry.emptied) := by
  rw [listing, listing, locate_emptied]
  cases disk.locate text with
  | error refusal => rfl
  | ok location =>
      simp only [isDirectoryAt_emptied, below_emptied]
      split_ifs
      · rfl
      · rfl

theorem found_emptied (directory : Text) (onlyDirectories : Bool) (search : Search) :
    disk.emptied.found directory onlyDirectories search =
      disk.found directory onlyDirectories search := by
  have present :
      (disk.emptied.listing directory).filter (fun (_, entry) =>
        !onlyDirectories || entry = .directory) =
      ((disk.listing directory).filter fun (_, entry) =>
        !onlyDirectories || entry = .directory).map
          fun (names, entry) => (names, entry.emptied) := by
    rw [listing_emptied, List.filter_map]
    congr 1
    apply List.filter_congr
    rintro ⟨names, entry⟩ _
    simp [Entry.emptied_eq_directory]
  simp only [found.eq_def, present, holds_emptied, holdsDirectory_emptied,
    List.filterMap_map, List.filter_map, List.map_map]
  rfl

theorem search_emptied (base : Text) (searches : List Search)
    (directories : List Text) :
    disk.emptied.search base searches directories =
      disk.search base searches directories := by
  induction searches generalizing directories with
  | nil => rfl
  | cons next searches ih => simp only [search, found_emptied, ih]

theorem matching_emptied (base pattern : Text) :
    disk.emptied.matching base pattern = disk.matching base pattern := by
  simp only [matching, search_emptied, holds_emptied, holdsDirectory_emptied]

theorem status_emptied (path : Path) :
    disk.emptied.status path = (disk.status path).map (·.map Entry.emptied) := by
  rw [status, status, find_emptied]
  split_ifs
  · rfl
  · cases disk.find path.text with
    | error refusal => cases refusal <;> rfl
    | ok entry => rfl

theorem isFile_emptied (path : Path) : disk.emptied.isFile path = disk.isFile path := by
  rw [isFile, isFile, status_emptied]
  rcases disk.status path with _ | _ | _ | _ <;> rfl

theorem isDirectory_emptied (path : Path) :
    disk.emptied.isDirectory path = disk.isDirectory path := by
  rw [isDirectory, isDirectory, status_emptied]
  rcases disk.status path with _ | _ | _ | _ <;> rfl

theorem files_emptied (paths : List Path) :
    disk.emptied.files paths = disk.files paths := by
  induction paths with
  | nil => rfl
  | cons path paths ih =>
      rw [files, files, status_emptied, isFile_emptied, ih]
      cases disk.status path with
      | error refusal => rfl
      | ok entry => rfl

/-- What a pattern names depends on the shape of the disk. -/
theorem expand_of_sameShape {disk other : Disk} (same : SameShape disk other)
    (base : Path) (pattern : Text) :
    disk.expand base pattern = other.expand base pattern := by
  have both : ∀ one : Disk, one.emptied.expand base pattern =
      one.expand base pattern := by
    intro one
    simp only [expand, matching_emptied, files_emptied]
  rw [← both disk, ← both other, same]

theorem ne_nil_of_file {disk : Disk} {location : Location} {octets : List UInt8}
    (file : disk.entryAt location = some (.file octets)) : location ≠ [] := by
  rintro rfl
  simp [entryAt] at file

/-- Writing into a file that is there keeps the shape. -/
theorem sameShape_put
    {disk other : Disk} (same : SameShape disk other) {location : Location}
    {octets : List UInt8} (present : other.entryAt location = some (.file octets))
    (written : List UInt8) :
    SameShape (disk.put location (.file written)) other := by
  have inside := ne_nil_of_file present
  have file : disk.emptied.entries.find? location = some (.file []) := by
    have here := entryAt_emptied other location
    rw [← same, present, entryAt, if_neg inside] at here
    exact here
  have entries := Registry.put_of_find? file
  rw [SameShape, ← same]
  show Disk.mk ((disk.entries.put location (.file written)).mapValues Entry.emptied)
    disk.workingDirectory disk.device = disk.emptied
  rw [Registry.put_mapValues]
  exact congrArg (Disk.mk · disk.workingDirectory disk.device) entries

end Disk

end SchemaCompose
