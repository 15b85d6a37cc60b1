import Mathlib.Data.List.TakeWhile
import Mathlib.Data.List.TakeDrop
import SchemaCompose.Proofs.Disk.Finding

/-!
# Disks without some of their files

Another disk lists the entries of a disk in any order, and leaves out some of its files.
Paths that do not lead to these files lead there to the same (`Lacks.status_of_spares`),
and a pattern matches there what it matched, less the texts that lead to these files
(`Lacks.matching`).  With nothing left out, this says that the order in which the entries
are listed does not matter.
-/

namespace SchemaCompose

/-- A search for one piece: no slash stands in a name that is asked for. -/
def Search.IsSingle : Search → Prop
  | .named name => '/' ∉ name
  | _ => True

namespace Disk

variable {disk other : Disk} {removed : List Location}

/-- The other disk has the same entries in some order, without some of the files. -/
structure Lacks (disk : Disk) (removed : List Location) (other : Disk) : Prop where
  workingDirectory : other.workingDirectory = disk.workingDirectory
  device : other.device = disk.device
  entries : other.entries.Perm (disk.entries.filter fun entry => entry.1 ∉ removed)
  files : ∀ location ∈ removed, ∃ octets, disk.entryAt location = some (.file octets)

/-- A path does not lead to a removed place. -/
def spares (disk : Disk) (removed : List Location) (path : Path) : Bool :=
  match disk.reached path with
  | .ok location => location ∉ removed
  | .error _ => true

theorem spares_of_reached {path : Path} {location : Location}
    (leads : disk.reached path = .ok location) :
    disk.spares removed path = true ↔ location ∉ removed := by
  simp [spares, leads]

namespace Lacks

/-! ## What paths lead to -/

theorem entryAt (lacks : disk.Lacks removed other) (system : disk.IsFileSystem)
    (location : Location) :
    other.entryAt location = if location ∈ removed then none else disk.entryAt location := by
  rw [Disk.entryAt, Disk.entryAt]
  split_ifs with root gone gone
  · obtain ⟨octets, file⟩ := lacks.files location gone
    simp [Disk.entryAt, root] at file
  · rfl
  all_goals
    have distinct : ((disk.entries.filter fun entry => entry.1 ∉ removed).map
        Prod.fst).Nodup := system.distinct.sublist (List.filter_sublist.map _)
    rw [Registry.find?_of_perm distinct lacks.entries,
      Registry.find?_filter (fun key => decide (key ∉ removed))]
    simp [gone]

theorem start (lacks : disk.Lacks removed other) (anchor : Anchor) :
    other.start anchor = disk.start anchor :=
  start_congr lacks.workingDirectory anchor

theorem not_mem_of_isDirectoryAt (lacks : disk.Lacks removed other) {location : Location}
    (directory : disk.isDirectoryAt location = true) : location ∉ removed := by
  intro gone
  obtain ⟨octets, file⟩ := lacks.files location gone
  simp [isDirectoryAt_iff.mp directory] at file

theorem isDirectoryAt (lacks : disk.Lacks removed other) (system : disk.IsFileSystem)
    (location : Location) : other.isDirectoryAt location = disk.isDirectoryAt location := by
  rw [Disk.isDirectoryAt, Disk.isDirectoryAt, lacks.entryAt system]
  split_ifs with gone
  · obtain ⟨octets, file⟩ := lacks.files location gone
    rw [file]
  · rfl

/-- Pieces lead to the same place unless it is removed, and are too long as before. -/
theorem walk (lacks : disk.Lacks removed other) (system : disk.IsFileSystem)
    {place : Location} (kept : place ∉ removed) (pieces : List Text) :
    (∀ location, other.walk place pieces = .ok location ↔
      disk.walk place pieces = .ok location ∧ location ∉ removed) ∧
    (other.walk place pieces = .error .nameTooLong ↔
      disk.walk place pieces = .error .nameTooLong) := by
  induction pieces generalizing place with
  | nil =>
      refine ⟨fun location => ?_, by simp [Disk.walk]⟩
      simp only [Disk.walk, Except.ok.injEq, iff_self_and]
      rintro rfl
      exact kept
  | cons piece pieces ih =>
      rw [Disk.walk, Disk.walk, lacks.isDirectoryAt system]
      by_cases directory : disk.isDirectoryAt place = true
      swap
      · simp [directory]
      simp only [directory, Bool.not_true, Bool.false_eq_true, if_false]
      split
      · exact ih kept
      split
      · exact ih (lacks.not_mem_of_isDirectoryAt (system.isDirectoryAt_dropLast directory))
      split
      · simp
      rw [lacks.entryAt system]
      by_cases gone : place ++ [piece] ∈ removed
      · -- the file itself is missing now, and nothing was reached below it
        obtain ⟨octets, file⟩ := lacks.files _ gone
        have noDirectory : disk.isDirectoryAt (place ++ [piece]) = false := by
          simp [Disk.isDirectoryAt, file]
        cases pieces with
        | nil => simp [Disk.walk, gone, file]
        | cons next pieces => simp [Disk.walk, gone, file, noDirectory]
      · rw [if_neg gone]
        split
        · simp
        · exact ih gone

theorem locate (lacks : disk.Lacks removed other) (system : disk.IsFileSystem)
    (text : Text) :
    (∀ location, other.locate text = .ok location ↔
      disk.locate text = .ok location ∧ location ∉ removed) ∧
    (other.locate text = .error .nameTooLong ↔ disk.locate text = .error .nameTooLong) := by
  rw [Disk.locate, Disk.locate, lacks.start]
  split_ifs with long empty
  · simp
  · simp
  · exact lacks.walk system (lacks.not_mem_of_isDirectoryAt (system.start _)) _

/-- What stands where a text leads is the same unless it is removed. -/
theorem find_eq_ok (lacks : disk.Lacks removed other) (system : disk.IsFileSystem)
    {text : Text} {entry : Entry} :
    other.find text = .ok entry ↔
      ∃ location, disk.locate text = .ok location ∧ location ∉ removed ∧
        disk.entryAt location = some entry := by
  simp only [Disk.find_eq_ok, (lacks.locate system text).1, lacks.entryAt system]
  constructor
  · rintro ⟨location, ⟨leads, kept⟩, present⟩
    exact ⟨location, leads, kept, by simpa [kept] using present⟩
  · rintro ⟨location, leads, kept, present⟩
    exact ⟨location, ⟨leads, kept⟩, by simpa [kept] using present⟩

/-- A text that does not lead to a removed place leads to the same. -/
theorem find_of_kept (lacks : disk.Lacks removed other) (system : disk.IsFileSystem)
    {text : Text}
    (kept : ∀ location, disk.locate text = .ok location → location ∉ removed)
    (entry : Entry) : other.find text = .ok entry ↔ disk.find text = .ok entry := by
  rw [lacks.find_eq_ok system, Disk.find_eq_ok]
  constructor
  · rintro ⟨location, leads, -, present⟩
    exact ⟨location, leads, present⟩
  · rintro ⟨location, leads, present⟩
    exact ⟨location, leads, kept location leads, present⟩

/-- A text is refused for its length where it was. -/
theorem find_nameTooLong (lacks : disk.Lacks removed other) (system : disk.IsFileSystem)
    (text : Text) :
    other.find text = .error .nameTooLong ↔ disk.find text = .error .nameTooLong := by
  have onDisk : ∀ one : Disk, one.find text = .error .nameTooLong ↔
      one.locate text = .error .nameTooLong := by
    intro one
    rw [Disk.find]
    cases one.locate text with
    | error refusal => simp [bind, Except.bind]
    | ok location =>
        cases present : one.entryAt location <;> simp [bind, Except.bind, present]
  rw [onDisk, onDisk, (lacks.locate system text).2]

/-- A path that does not lead to a removed place is what it was. -/
theorem status_of_spares (lacks : disk.Lacks removed other) (system : disk.IsFileSystem)
    {path : Path} (proper : path.IsProper) (spared : disk.spares removed path = true) :
    other.status path = disk.status path := by
  have kept : ∀ location, disk.locate path.text = .ok location → location ∉ removed :=
    fun location leads => (spares_of_reached (reached_of_locate_text proper leads)).mp spared
  have same := lacks.find_of_kept system kept
  have long := lacks.find_nameTooLong system path.text
  rw [Disk.status, Disk.status]
  split_ifs with nul
  · rfl
  cases here : disk.find path.text with
  | ok entry => rw [(same entry).mpr here]
  | error refusal =>
      cases there : other.find path.text with
      | ok entry => simp [(same entry).mp there] at here
      | error refusal' =>
          rw [here, there] at long
          cases refusal <;> cases refusal' <;> simp at long ⊢

/-- A file that is not removed holds what it held. -/
theorem read_of_spares (lacks : disk.Lacks removed other) (system : disk.IsFileSystem)
    {path : Path} (proper : path.IsProper) (file : disk.isFile path = true)
    (spared : disk.spares removed path = true) : other.read path = disk.read path := by
  obtain ⟨noNul, location, octets, leads, present⟩ := isFile_iff.mp file
  have kept := (spares_of_reached (reached_of_locate_text proper leads)).mp spared
  have leads' := ((lacks.locate system path.text).1 location).mpr ⟨leads, kept⟩
  have present' : other.entryAt location = some (.file octets) := by
    rw [lacks.entryAt system, if_neg kept, present]
  rw [read_of_fileAt (fileAt_eq_ok.mpr ⟨noNul, leads, present⟩),
    read_of_fileAt (fileAt_eq_ok.mpr ⟨noNul, leads', present'⟩), lacks.device]

/-! ## What searches find -/

end Lacks

theorem holds_iff {text : Text} :
    disk.holds text = true ↔ '\x00' ∉ text ∧ ∃ entry, disk.find text = .ok entry := by
  rw [Disk.holds]
  cases disk.find text <;> simp [Except.toOption]

theorem holdsDirectory_iff {text : Text} :
    disk.holdsDirectory text = true ↔ '\x00' ∉ text ∧ disk.find text = .ok .directory := by
  rw [Disk.holdsDirectory]
  cases disk.find text <;> simp [Except.toOption]

namespace Lacks

/-- Something stands where a text leads if it did and is not removed. -/
theorem holds (lacks : disk.Lacks removed other) (system : disk.IsFileSystem)
    (text : Text) :
    other.holds text = true ↔
      disk.holds text = true ∧ disk.spares removed (Path.ofText text) = true := by
  rw [holds_iff, holds_iff]
  constructor
  · rintro ⟨noNul, entry, found⟩
    obtain ⟨location, leads, kept, present⟩ := (lacks.find_eq_ok system).mp found
    exact ⟨⟨noNul, entry, Disk.find_eq_ok.mpr ⟨location, leads, present⟩⟩,
      (spares_of_reached (reached_of_locate leads)).mpr kept⟩
  · rintro ⟨⟨noNul, entry, found⟩, spared⟩
    obtain ⟨location, leads, present⟩ := Disk.find_eq_ok.mp found
    have kept := (spares_of_reached (reached_of_locate leads)).mp spared
    exact ⟨noNul, entry, (lacks.find_eq_ok system).mpr ⟨location, leads, kept, present⟩⟩

theorem holdsDirectory (lacks : disk.Lacks removed other) (system : disk.IsFileSystem)
    (text : Text) : other.holdsDirectory text = disk.holdsDirectory text := by
  rw [Bool.eq_iff_iff, holdsDirectory_iff, holdsDirectory_iff, lacks.find_eq_ok system,
    Disk.find_eq_ok]
  constructor
  · rintro ⟨noNul, location, leads, -, present⟩
    exact ⟨noNul, location, leads, present⟩
  · rintro ⟨noNul, location, leads, present⟩
    exact ⟨noNul, location, leads,
      lacks.not_mem_of_isDirectoryAt (isDirectoryAt_iff.mpr present), present⟩

theorem below (lacks : disk.Lacks removed other) (location : Location) :
    (other.below location).Perm
      ((disk.below location).filter fun found => location ++ found.1 ∉ removed) := by
  rw [Disk.below, Disk.below, List.filter_filterMap]
  refine (lacks.entries.filterMap _).trans (List.Perm.of_eq ?_)
  rw [List.filterMap_filter]
  refine List.filterMap_congr fun entry _ => ?_
  by_cases within : location <+: entry.1
  · obtain ⟨rest, whole⟩ := within
    rcases entry with ⟨place, present⟩
    obtain rfl : location ++ rest = place := whole
    by_cases gone : location ++ rest ∈ removed <;>
      by_cases here : rest = [] <;> simp [gone, here, Option.filter]
  · simp [within]

/-- What is listed in a directory is the same, less what is removed. -/
theorem listing (lacks : disk.Lacks removed other) (system : disk.IsFileSystem)
    {text : Text} {location : Location} (leads : disk.locate text = .ok location)
    (directory : disk.isDirectoryAt location = true) :
    (other.listing text).Perm
      ((disk.listing text).filter fun found => location ++ found.1 ∉ removed) := by
  have kept := lacks.not_mem_of_isDirectoryAt directory
  have leads' := ((lacks.locate system text).1 location).mpr ⟨leads, kept⟩
  rw [Disk.listing, Disk.listing, leads, leads']
  simp only [lacks.isDirectoryAt system, directory, if_true]
  exact lacks.below location

/-- What is named by what is listed in a directory is the same, less what is removed. -/
theorem named_of_listing (lacks : disk.Lacks removed other) (system : disk.IsFileSystem)
    {base : Path} (proper : base.IsProper) {directory : Text} {location : Location}
    (leads : disk.locate (inside base.text directory) = .ok location)
    (there : disk.isDirectoryAt location = true)
    (asked : Location × Entry → Bool) (name : Location × Entry → Option Text)
    (joined : ∀ found text, name found = some text → text = Text.join ['/'] found.1) :
    (((other.listing (inside base.text directory)).filter asked).filterMap name).Perm
      ((((disk.listing (inside base.text directory)).filter asked).filterMap name).filter
        fun text => disk.spares removed (base.append (Path.ofText (behind directory text)))) := by
  refine (((lacks.listing system leads there).filter asked).filterMap name).trans
    (List.Perm.of_eq ?_)
  rw [List.filter_comm, List.filterMap_filter, List.filter_filterMap]
  refine List.filterMap_congr fun found member => ?_
  cases written : name found with
  | none => simp
  | some text =>
      have listed := List.mem_of_mem_filter member
      rw [Disk.listing, leads] at listed
      simp only [there, if_true] at listed
      have reached := system.reached_of_below proper leads listed
      rw [← joined found text written] at reached
      by_cases gone : location ++ found.1 ∈ removed <;>
        simp [spares, reached, gone, Option.filter]

end Lacks

/-- Nothing is found in a text that leads to no directory. -/
theorem found_of_no_directory {text : Text} (filled : text ≠ []) {search : Search}
    (single : search.IsSingle)
    (none : ∀ location, disk.locate text = .ok location →
      disk.isDirectoryAt location = false) (only : Bool) :
    disk.found text only search = [] := by
  have listing : disk.listing text = [] := by
    rw [Disk.listing]
    cases leads : disk.locate text with
    | error refusal => rfl
    | ok location => simp [none location leads]
  have noDirectory : ¬ disk.holdsDirectory text = true := by
    rw [holdsDirectory_iff, Disk.find_eq_ok]
    rintro ⟨-, location, leads, present⟩
    exact absurd (isDirectoryAt_iff.mpr present) (by simp [none location leads])
  cases search with
  | below => simp [Disk.found, listing, noDirectory]
  | matching wildcard => simp [Disk.found, listing]
  | named name =>
      cases name with
      | nil => simp [Disk.found, noDirectory]
      | cons c name =>
          have absent : ¬ disk.holds (inside text (c :: name)) = true := by
            rw [holds_iff, inside, if_neg filled, if_neg (List.cons_ne_nil c name)]
            rintro ⟨-, entry, found⟩
            obtain ⟨location, leads, -⟩ := Disk.find_eq_ok.mp found
            obtain ⟨place, led, directory⟩ := locate_of_behind filled single leads
            simp [none place led] at directory
          simp [Disk.found, absent]

/-- The one item of a row is left out or stays. -/
theorem filter_one {α : Type} {before after : Prop} [Decidable before] [Decidable after]
    {kept : α → Bool} {item : α} (same : after ↔ before ∧ kept item = true) :
    (if after then [item] else []) = (if before then [item] else []).filter kept := by
  by_cases held : before <;> simp [same, held, List.filter_cons]

namespace Lacks

/-- A directory that is found is spared, also as what is behind it under no name. -/
theorem spares_directory (lacks : disk.Lacks removed other) {base : Path}
    (proper : base.IsProper) {directory : Text} {location : Location}
    (leads : disk.locate (inside base.text directory) = .ok location)
    (there : disk.isDirectoryAt location = true) :
    disk.spares removed (base.append (Path.ofText directory)) = true ∧
      disk.spares removed (base.append (Path.ofText (behind directory []))) = true := by
  have same : Path.ofText (behind directory []) = Path.ofText directory := by
    rw [Path.ofText_behind]
    simp [Path.append, Path.ofText, Path.isAbsolute, Anchor.ofText, Text.pieces, isName]
  rw [same, and_self, spares_of_reached (reached_of_inside proper leads)]
  exact lacks.not_mem_of_isDirectoryAt there

/-- A search in a directory finds the same, less what leads to a removed place. -/
theorem found (lacks : disk.Lacks removed other) (system : disk.IsFileSystem)
    {base : Path} (proper : base.IsProper) (directory : Text) (only : Bool)
    {search : Search} (single : search.IsSingle) :
    (other.found (inside base.text directory) only search).Perm
      ((disk.found (inside base.text directory) only search).filter fun text =>
        disk.spares removed (base.append (Path.ofText (behind directory text)))) := by
  have filled := inside_ne_nil proper.text_eq.2.1 directory
  by_cases there : ∃ location, disk.locate (inside base.text directory) = .ok location ∧
      disk.isDirectoryAt location = true
  · obtain ⟨location, leads, isDirectory⟩ := there
    have itself := (lacks.spares_directory proper leads isDirectory).2
    cases search with
    | below =>
        simp only [Disk.found, lacks.holdsDirectory system, List.filter_append]
        refine List.Perm.append (List.Perm.of_eq ?_) ?_
        · split_ifs <;> simp [itself]
        · have named := lacks.named_of_listing system proper leads isDirectory
            (fun found => (found.1.all (!isHidden ·) && !isTooLong (inside
              (inside base.text directory) (Text.join ['/'] found.1.dropLast))) &&
                (!only || found.2 = .directory))
            (some ∘ fun found => Text.join ['/'] found.1) (by simp)
          rw [List.filterMap_eq_map] at named
          simpa only [List.filter_filter] using named
    | matching wildcard =>
        refine lacks.named_of_listing system proper leads isDirectory _ _ ?_
        rintro ⟨names, entry⟩ text written
        dsimp only at written ⊢
        split at written
        · split_ifs at written
          exact (Option.some.inj written).symm
        · cases written
    | named name =>
        cases name with
        | nil =>
            rw [Disk.found, Disk.found, lacks.holdsDirectory system]
            split_ifs <;> simp [itself]
        | cons c name =>
            have same := lacks.holds system
              (inside (inside base.text directory) (c :: name))
            rw [Path.ofText_inside_inside proper (List.cons_ne_nil c name)] at same
            exact List.Perm.of_eq (filter_one same)
  · have none : ∀ location, disk.locate (inside base.text directory) = .ok location →
        disk.isDirectoryAt location = false := by
      intro location leads
      simpa using fun isDirectory => there ⟨location, leads, isDirectory⟩
    rw [found_of_no_directory filled single none,
      found_of_no_directory filled single fun location leads => ?_]
    · simp
    · rw [lacks.isDirectoryAt system]
      exact none location (((lacks.locate system _).1 location).mp leads).1

end Lacks

/-! ## What patterns match -/

/-- A search finds the same from the same directories in another order. -/
theorem search_of_perm {base : Text} (searches : List Search) {directories others : List Text}
    (perm : directories.Perm others) :
    (disk.search base searches directories).Perm (disk.search base searches others) := by
  induction searches generalizing directories others with
  | nil => exact perm
  | cons next searches ih => exact ih (perm.flatMap_right _)

/-- Items that lead to nothing further may be left out. -/
theorem flatMap_filter {α β : Type} {kept : α → Bool} {further : α → List β} {row : List α}
    (nothing : ∀ item ∈ row, kept item = false → further item = []) :
    (row.filter kept).flatMap further = row.flatMap further := by
  induction row with
  | nil => rfl
  | cons item row ih =>
      rw [List.forall_mem_cons] at nothing
      cases stays : kept item with
      | true => simp [stays, ih nothing.2]
      | false => simp [stays, ih nothing.2, nothing.1 stays]

namespace Lacks

/-- Nothing is found behind texts that lead to removed places. -/
theorem search_filter (lacks : disk.Lacks removed other) {base : Path}
    (proper : base.IsProper) {next : Search} (single : next.IsSingle)
    (searches : List Search) (directories : List Text) :
    disk.search base.text (next :: searches)
        (directories.filter fun text => disk.spares removed (base.append (Path.ofText text))) =
      disk.search base.text (next :: searches) directories := by
  rw [search, search, flatMap_filter]
  intro directory _ gone
  rw [found_of_no_directory (inside_ne_nil proper.text_eq.2.1 directory) single]
  · rfl
  · intro location leads
    have reached := reached_of_inside proper leads
    rw [Bool.eq_false_iff, ne_eq, spares_of_reached reached] at gone
    by_contra there
    exact gone (lacks.not_mem_of_isDirectoryAt (by simpa using there))

/-- A row of searches finds the same, less what leads to a removed place. -/
theorem search (lacks : disk.Lacks removed other) (system : disk.IsFileSystem)
    {base : Path} (proper : base.IsProper) {searches : List Search} (filled : searches ≠ [])
    (single : ∀ search ∈ searches, search.IsSingle) (directories : List Text) :
    (other.search base.text searches directories).Perm
      ((disk.search base.text searches directories).filter fun text =>
        disk.spares removed (base.append (Path.ofText text))) := by
  induction searches generalizing directories with
  | nil => contradiction
  | cons next searches ih =>
      rw [List.forall_mem_cons] at single
      have step : (directories.flatMap fun directory =>
          (other.found (inside base.text directory) (!searches.isEmpty) next).map
            (behind directory)).Perm
          ((directories.flatMap fun directory =>
            (disk.found (inside base.text directory) (!searches.isEmpty) next).map
              (behind directory)).filter fun text =>
                disk.spares removed (base.append (Path.ofText text))) := by
        rw [List.filter_flatMap]
        refine List.Perm.flatMap_left _ fun directory _ => ?_
        rw [List.filter_map]
        exact (lacks.found system proper directory _ single.1).map _
      cases searches with
      | nil => exact step
      | cons second searches =>
          rw [Disk.search, Disk.search]
          refine (ih (List.cons_ne_nil _ _) single.2 _).trans (List.Perm.filter _ ?_)
          refine (search_of_perm _ step).trans (List.Perm.of_eq ?_)
          exact lacks.search_filter proper (single.2 second List.mem_cons_self) searches _

end Lacks

/-- A wildcard stands in a piece. -/
theorem exists_mem_pieces_isUsed {pattern : Text} (used : Wildcard.isUsed pattern = true) :
    ∃ piece ∈ Text.pieces '/' pattern, Wildcard.isUsed piece = true := by
  obtain ⟨c, member, wild⟩ := List.any_eq_true.mp used
  have different : c ≠ '/' := by rintro rfl; simp at wild
  obtain ⟨piece, among, inPiece⟩ := (Text.exists_mem_pieces different).mpr member
  exact ⟨piece, among, List.any_eq_true.mpr ⟨c, inPiece, wild⟩⟩

/-- A pattern with a wildcard is searched for. -/
theorem searches_ne_nil {pattern : Text} (used : Wildcard.isUsed pattern = true) :
    (Pattern.ofText pattern).searches ≠ [] := by
  obtain ⟨piece, among, wild⟩ := exists_mem_pieces_isUsed used
  have searched : (Text.pieces '/' pattern).dropWhile (!Wildcard.isUsed ·) ≠ [] := by
    rw [ne_eq, List.dropWhile_eq_nil_iff]
    intro unused
    simpa [wild] using unused piece among
  have first := List.head_dropWhile_not (!Wildcard.isUsed ·) searched
  obtain ⟨next, others, rest⟩ := List.exists_cons_of_ne_nil searched
  simp only [rest, List.head_cons, Bool.not_eq_false'] at first
  have filled : next.isEmpty = false := by
    cases next with
    | nil => simp [Wildcard.isUsed] at first
    | cons c next => rfl
  simp [Pattern.ofText, List.span_eq_takeWhile_dropWhile, rest, filled]

theorem isSingle_ofPiece {piece : Text} (plain : '/' ∉ piece) :
    (Search.ofPiece piece).IsSingle := by
  rw [Search.ofPiece]
  split_ifs
  · trivial
  · trivial
  · exact plain

/-- A pattern is searched for piece by piece. -/
theorem isSingle_of_mem_searches {pattern : Text} :
    ∀ search ∈ (Pattern.ofText pattern).searches, search.IsSingle := by
  intro search member
  simp only [Pattern.ofText, List.span_eq_takeWhile_dropWhile, List.mem_map,
    List.mem_append, List.mem_filter] at member
  obtain ⟨piece, among | closing, rfl⟩ := member
  · exact isSingle_ofPiece
      (Text.not_mem_of_mem_pieces piece ((List.dropWhile_suffix _).subset among.1))
  · split_ifs at closing
    · rw [List.mem_singleton.mp closing]
      exact isSingle_ofPiece List.not_mem_nil
    · cases closing

namespace Lacks

/-- A pattern matches the same, less what leads to a removed place. -/
theorem matching (lacks : disk.Lacks removed other) (system : disk.IsFileSystem)
    {base : Path} (proper : base.IsProper) (pattern : Text) :
    (∃ error, disk.matching base.text pattern = .error error ∧
      other.matching base.text pattern = .error error) ∨
    ∃ texts texts', disk.matching base.text pattern = .ok texts ∧
      other.matching base.text pattern = .ok texts' ∧
      texts'.Perm (texts.filter fun text =>
        disk.spares removed (base.append (Path.ofText text))) := by
  rw [Disk.matching, Disk.matching]
  by_cases used : Wildcard.isUsed pattern = true
  · simp only [used, if_true]
    split_ifs with nul
    · exact Or.inl ⟨_, rfl, rfl⟩
    · exact Or.inr ⟨_, _, rfl, rfl, lacks.search system proper (searches_ne_nil used)
        isSingle_of_mem_searches _⟩
  rw [if_neg used, if_neg used]
  by_cases closed : (pattern = [] || pattern.getLast? = some '/') = true
  · rw [if_pos closed, if_pos closed, lacks.holdsDirectory system]
    refine Or.inr ⟨_, _, rfl, rfl, ?_⟩
    split_ifs with directory
    · obtain ⟨-, found⟩ := holdsDirectory_iff.mp directory
      obtain ⟨location, leads, present⟩ := Disk.find_eq_ok.mp found
      simp [(lacks.spares_directory proper leads (isDirectoryAt_iff.mpr present)).1]
    · simp
  · rw [if_neg closed, if_neg closed]
    have same := lacks.holds system (inside base.text pattern)
    rw [Path.ofText_inside proper] at same
    exact Or.inr ⟨_, _, rfl, rfl, List.Perm.of_eq (filter_one same)⟩

/-- The files that a pattern names are chosen among what it matches, less what leads to a
removed place. -/
theorem expand (lacks : disk.Lacks removed other) (system : disk.IsFileSystem)
    {base : Path} (proper : base.IsProper) (pattern : Text) :
    other.expand base pattern = disk.matching base.text pattern >>= fun texts =>
      disk.filesAmong base (texts.filter fun text =>
        disk.spares removed (base.append (Path.ofText text))) := by
  rw [expand_eq]
  rcases lacks.matching system proper pattern with
    ⟨error, failed, failed'⟩ | ⟨texts, texts', found, found', perm⟩
  · rw [failed, failed']
    rfl
  · rw [found, found']
    show other.filesAmong base texts' = disk.filesAmong base _
    rw [filesAmong_of_perm perm, filesAmong, filesAmong]
    refine files_congr fun path member => ?_
    obtain ⟨text, among, rfl⟩ := List.mem_map.mp member
    have spared := List.of_mem_filter ((List.mergeSort_perm _ _).mem_iff.mp among)
    exact lacks.status_of_spares system
      (proper.append (Path.isProper_ofText text)) spared

/-- A pattern names the files that it named, less those that lead to a removed place. -/
theorem expand_of_ok (lacks : disk.Lacks removed other) (system : disk.IsFileSystem)
    {base : Path} (proper : base.IsProper) {pattern : Text} {paths : List Path}
    (expanded : disk.expand base pattern = .ok paths) :
    other.expand base pattern = .ok (paths.filter (disk.spares removed)) := by
  rw [expand_eq] at expanded
  obtain ⟨texts, found, among⟩ := Reading.bind_eq_ok.mp expanded
  obtain ⟨known, rfl⟩ := files_eq_ok.mp among
  rw [lacks.expand system proper, found]
  refine files_eq_ok.mpr ⟨fun path member => known path ?_, ?_⟩
  · rw [mergeSort_filter] at member
    obtain ⟨text, left, rfl⟩ := List.mem_map.mp member
    exact List.mem_map_of_mem (List.mem_of_mem_filter left)
  · rw [mergeSort_filter, List.filter_comm]
    congr 1
    rw [List.filter_map]
    rfl

/-- With nothing left out, only the order of the entries is another. -/
theorem of_perm (home : other.workingDirectory = disk.workingDirectory)
    (device : other.device = disk.device) (perm : other.entries.Perm disk.entries) :
    disk.Lacks [] other :=
  ⟨home, device, by simpa using perm, by simp⟩

theorem spares_nil (path : Path) : disk.spares [] path = true := by
  rw [spares]
  split <;> simp

/-- The order of the entries does not matter to a pattern. -/
theorem expand_of_nothing (lacks : disk.Lacks [] other) (system : disk.IsFileSystem)
    {base : Path} (proper : base.IsProper) (pattern : Text) :
    other.expand base pattern = disk.expand base pattern := by
  simp only [lacks.expand system proper, expand_eq, spares_nil, List.filter_true]

end Lacks

end Disk

end SchemaCompose
