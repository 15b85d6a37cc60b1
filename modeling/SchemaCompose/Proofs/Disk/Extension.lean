import SchemaCompose.Mix.Job
import SchemaCompose.Proofs.Disk.Paths
import SchemaCompose.Proofs.Disk.Shape
import SchemaCompose.Proofs.Reading.Success

/-!
# Disks that grow

A disk extends another one if everything is there that was there, whatever the files
hold now.  A path that leads somewhere goes on leading there.  Writing a text below
directories that are made for it gives an extension (`wrote_put`), and on every
extension of that the same path is written at the same place, unless something goes
wrong with the device (`Wrote.again`).
-/

namespace SchemaCompose.Disk

/-! ## Following a path -/

section Following

variable {disk : Disk}

theorem isDirectoryAt_iff {location : Location} :
    disk.isDirectoryAt location = true ↔
      disk.entryAt location = some .directory := by
  rw [isDirectoryAt]
  split
  · rename_i present
    simp [present]
  · rename_i other
    simpa using other

theorem find_eq_ok {text : Text} {entry : Entry} :
    disk.find text = .ok entry ↔
      ∃ location, disk.locate text = .ok location ∧
        disk.entryAt location = some entry := by
  rw [find]
  cases disk.locate text with
  | error refusal => simp [bind, Except.bind]
  | ok location =>
      cases present : disk.entryAt location with
      | none => simp [bind, Except.bind, present]
      | some found => simp [bind, Except.bind, present]

theorem status_eq_ok_some {path : Path} {entry : Entry} :
    disk.status path = .ok (some entry) ↔
      path.hasNul = false ∧ disk.find path.text = .ok entry := by
  rw [status]
  cases path.hasNul with
  | true => simp
  | false =>
      cases disk.find path.text with
      | error refusal => cases refusal <;> simp
      | ok found => simp

theorem onPath_eq_ok {α : Type} {path : Path} {operation : Except Refusal α}
    {result : α} :
    onPath path operation = .ok result ↔
      path.hasNul = false ∧ operation = .ok result := by
  rw [onPath]
  cases path.hasNul with
  | true => simp
  | false => cases operation <;> simp [Except.mapError]

theorem fileAt_eq_ok {path : Path} {location : Location} {octets : List UInt8} :
    disk.fileAt path = .ok (location, octets) ↔
      path.hasNul = false ∧ disk.locate path.text = .ok location ∧
        disk.entryAt location = some (.file octets) := by
  rw [fileAt, onPath_eq_ok, Reading.bind_eq_ok]
  refine and_congr_right fun _ => ⟨?_, ?_⟩
  · rintro ⟨place, leads, held⟩
    split at held
    · rename_i found present
      obtain ⟨rfl, rfl⟩ := Prod.mk.inj (Except.ok.inj held)
      exact ⟨leads, present⟩
    · cases held
    · cases held
  · rintro ⟨leads, present⟩
    exact ⟨location, leads, by rw [present]⟩

/-- What is read at a path is what stands there, unless something goes wrong with the
device at that place. -/
theorem read_of_fileAt {path : Path} {location : Location} {octets : List UInt8}
    (held : disk.fileAt path = .ok (location, octets)) :
    disk.read path =
      match disk.device.reading location with
      | none => .ok octets
      | some trouble => .error (trouble.error path) := by
  rw [read, held]
  rfl

theorem read_eq_ok {path : Path} {octets : List UInt8} :
    disk.read path = .ok octets ↔
      ∃ location, disk.fileAt path = .ok (location, octets) ∧
        disk.device.reading location = none := by
  rw [read, Reading.bind_eq_ok]
  constructor
  · rintro ⟨⟨location, held⟩, found, given⟩
    dsimp only at given
    split at given
    · rename_i taken
      obtain rfl := Except.ok.inj given
      exact ⟨location, found, taken⟩
    · cases given
  · rintro ⟨location, found, taken⟩
    exact ⟨(location, octets), found, by simp only [taken]⟩

theorem isFile_iff {path : Path} :
    disk.isFile path = true ↔ path.hasNul = false ∧
      ∃ location octets, disk.locate path.text = .ok location ∧
        disk.entryAt location = some (.file octets) := by
  have file : disk.isFile path = true ↔
      ∃ octets, disk.status path = .ok (some (.file octets)) := by
    rw [isFile]
    split
    · rename_i octets present
      simp [present]
    · rename_i other
      simpa using other
  simp only [file, status_eq_ok_some, find_eq_ok]
  tauto

/-- The files among paths are found if none of the paths is refused. -/
theorem files_eq_ok {paths files : List Path} :
    disk.files paths = .ok files ↔
      (∀ path ∈ paths, ∃ entry, disk.status path = .ok entry) ∧
        files = paths.filter disk.isFile := by
  induction paths generalizing files with
  | nil => simp [Disk.files, eq_comm]
  | cons path paths ih =>
      rw [Disk.files, List.forall_mem_cons, List.filter_cons]
      cases status : disk.status path with
      | error refusal => simp [Functor.discard, Functor.mapConst, Except.map, bind, Except.bind]
      | ok entry =>
          simp only [Functor.discard, Functor.mapConst, Except.map, Reading.ok_bind,
            Reading.bind_eq_ok, ih, Reading.pure_eq_ok, Function.comp_apply]
          constructor
          · rintro ⟨others, ⟨all, rfl⟩, rfl⟩
            exact ⟨⟨⟨entry, rfl⟩, all⟩, rfl⟩
          · rintro ⟨⟨-, all⟩, rfl⟩
            exact ⟨_, ⟨all, rfl⟩, rfl⟩

theorem files_congr {other : Disk} {paths : List Path}
    (same : ∀ path ∈ paths, other.status path = disk.status path) :
    other.files paths = disk.files paths := by
  induction paths with
  | nil => rfl
  | cons path paths ih =>
      rw [List.forall_mem_cons] at same
      rw [Disk.files, Disk.files, isFile, isFile, same.1, ih same.2]

theorem isDirectory_iff {path : Path} :
    disk.isDirectory path = true ↔ path.hasNul = false ∧
      ∃ location, disk.locate path.text = .ok location ∧
        disk.entryAt location = some .directory := by
  have directory : disk.isDirectory path = true ↔
      disk.status path = .ok (some .directory) := by
    rw [isDirectory]
    split
    · rename_i present
      simp [present]
    · rename_i other
      simpa using other
  rw [directory, status_eq_ok_some, find_eq_ok]

theorem walk_append (place : Location) (first second : List Text) :
    disk.walk place (first ++ second) =
      (disk.walk place first).bind (disk.walk · second) := by
  induction first generalizing place with
  | nil => rfl
  | cons piece first ih =>
      rw [List.cons_append, walk, walk]
      split_ifs
      · rfl
      · exact ih place
      · exact ih _
      · rfl
      · rfl
      · exact ih _

/-- Pieces that name nothing lead nowhere else. -/
theorem eq_of_walk_lead {place location : Location} {lead : List Text}
    (unnamed : ∀ piece ∈ lead, isName piece = false)
    (leads : disk.walk place lead = .ok location) : location = place := by
  induction lead with
  | nil => exact (Except.ok.inj leads).symm
  | cons piece lead ih =>
      rw [List.forall_mem_cons] at unnamed
      rw [walk] at leads
      split_ifs at leads with outside named
      · exact ih unnamed.2 leads
      all_goals simp [unnamed.1] at named

theorem walk_lead {place : Location} {lead : List Text}
    (unnamed : ∀ piece ∈ lead, isName piece = false)
    (directory : disk.isDirectoryAt place = true) :
    disk.walk place lead = .ok place := by
  induction lead with
  | nil => rfl
  | cons piece lead ih =>
      rw [List.forall_mem_cons] at unnamed
      simp [walk, directory, unnamed.1, ih unnamed.2]

/-- A path leads where its names lead from its start. -/
theorem walk_of_locate {path : Path} (proper : path.IsProper) {location : Location}
    (leads : disk.locate path.text = .ok location) :
    isTooLong path.text = false ∧
      disk.walk (disk.start path.anchor) path.parts = .ok location := by
  obtain ⟨anchored, filled, lead, pieces, unnamed, -⟩ := proper.text_eq
  rw [locate] at leads
  split_ifs at leads with long
  rw [anchored, pieces, walk_append] at leads
  obtain ⟨place, toStart, further⟩ := Reading.bind_eq_ok.mp leads
  rw [eq_of_walk_lead unnamed toStart] at further
  exact ⟨by simpa using long, further⟩

theorem locate_of_walk {path : Path} (proper : path.IsProper) {location : Location}
    (named : path.parts ≠ []) (short : isTooLong path.text = false)
    (leads : disk.walk (disk.start path.anchor) path.parts = .ok location) :
    disk.locate path.text = .ok location := by
  obtain ⟨anchored, filled, lead, pieces, unnamed, plain⟩ := proper.text_eq
  have toStart : disk.walk (disk.start path.anchor) lead =
      .ok (disk.start path.anchor) := by
    cases anchor : path.anchor with
    | here => rw [plain anchor named]; rfl
    | root => exact walk_lead unnamed rfl
    | doubleRoot => exact walk_lead unnamed rfl
  rw [locate, short, if_neg Bool.false_ne_true, if_neg filled, anchored, pieces,
    walk_append, toStart]
  exact leads

/-- The place of the last name of a path lies in the directory that the names before
it lead to. -/
theorem slot_eq_ok {settled : Refusal} {path : Path} {location : Location} :
    disk.slot settled path = .ok location ↔
      ∃ lead name place, path.parts = lead ++ [name] ∧
        isTooLong path.text = false ∧
        disk.walk (disk.start path.anchor) lead = .ok place ∧
        disk.isDirectoryAt place = true ∧ name ≠ upward ∧
        ¬ nameLimit < (Utf8.encode name).length ∧ location = place ++ [name] := by
  rw [slot]
  constructor
  · intro leads
    split_ifs at leads with long
    split at leads
    · cases leads
    · rename_i name last
      obtain ⟨place, toPlace, inside⟩ := Reading.bind_eq_ok.mp leads
      split_ifs at inside with outside up wide
      refine ⟨path.parts.dropLast, name, place, ?_, by simpa using long, toPlace,
        by simpa using outside, up, wide, (Except.ok.inj inside).symm⟩
      exact (List.dropLast_append_getLast? name last).symm
  · rintro ⟨lead, name, place, parts, short, toPlace, directory, up, narrow, rfl⟩
    simp [parts, short, toPlace, directory, up, narrow, bind, Except.bind]

/-- What stands at the place of the last name of a path is what the path leads to. -/
theorem locate_of_slot {settled : Refusal} {path : Path} (proper : path.IsProper)
    {location : Location} (leads : disk.slot settled path = .ok location)
    (present : (disk.entryAt location).isSome) :
    disk.locate path.text = .ok location := by
  obtain ⟨lead, name, place, parts, short, toPlace, directory, up, narrow, rfl⟩ :=
    slot_eq_ok.mp leads
  have named : isName name = true := (proper name (by simp [parts])).1
  apply locate_of_walk proper (by simp [parts]) short
  rw [parts, walk_append, toPlace]
  simp [Except.bind, walk, directory, named, up, narrow,
    Option.isSome_iff_ne_none.mp present]

end Following

/-! ## Extensions -/

/-- Everything that stands on a disk stands on the other one. -/
structure Within (disk further : Disk) : Prop where
  workingDirectory : further.workingDirectory = disk.workingDirectory
  device : further.device = disk.device
  kept : ∀ location entry, disk.entryAt location = some entry →
    further.entryAt location = some entry

/-- Every directory of a disk and a file for each file of it stand on the other
one. -/
def Extends (disk further : Disk) : Prop :=
  disk.emptied.Within further.emptied

section Extensions

variable {disk further last : Disk}

namespace Within

theorem refl (disk : Disk) : disk.Within disk :=
  ⟨rfl, rfl, fun _ _ present => present⟩

theorem trans (first : disk.Within further) (second : further.Within last) :
    disk.Within last :=
  ⟨second.workingDirectory.trans first.workingDirectory,
    second.device.trans first.device,
    fun location entry present => second.kept _ _ (first.kept location entry present)⟩

theorem put_new {location : Location} (free : disk.entryAt location = none)
    (entry : Entry) : disk.Within (disk.put location entry) := by
  refine ⟨rfl, rfl, fun other old present => ?_⟩
  have different : other ≠ location := by
    rintro rfl
    simp [free] at present
  rw [entryAt_put_of_ne different, present]

theorem grown (within : disk.Within further) : disk.Extends further := by
  refine ⟨within.workingDirectory, within.device, fun location entry present => ?_⟩
  rw [entryAt_emptied, Option.map_eq_some_iff] at present ⊢
  obtain ⟨full, there, emptied⟩ := present
  exact ⟨full, within.kept _ _ there, emptied⟩

theorem start (within : disk.Within further) (anchor : Anchor) :
    further.start anchor = disk.start anchor :=
  start_congr within.workingDirectory anchor

theorem isDirectoryAt (within : disk.Within further) {location : Location}
    (directory : disk.isDirectoryAt location = true) :
    further.isDirectoryAt location = true :=
  isDirectoryAt_iff.mpr (within.kept _ _ (isDirectoryAt_iff.mp directory))

theorem walk (within : disk.Within further) {place location : Location}
    {pieces : List Text} (leads : disk.walk place pieces = .ok location) :
    further.walk place pieces = .ok location := by
  induction pieces generalizing place with
  | nil => exact leads
  | cons piece pieces ih =>
      rw [Disk.walk] at leads ⊢
      split_ifs at leads with outside unnamed up wide absent
      all_goals
        have inside : ¬ (!further.isDirectoryAt place) = true := by
          simpa using within.isDirectoryAt (by simpa using outside)
      · rw [if_neg inside, if_pos unnamed]
        exact ih leads
      · rw [if_neg inside, if_neg unnamed, if_pos up]
        exact ih leads
      · obtain ⟨entry, present⟩ := Option.ne_none_iff_exists'.mp
          fun free : disk.entryAt (place ++ [piece]) = none => absent (by simp [free])
        rw [if_neg inside, if_neg unnamed, if_neg up, if_neg wide,
          if_neg (by simp [within.kept _ _ present])]
        exact ih leads

theorem locate (within : disk.Within further) {text : Text} {location : Location}
    (leads : disk.locate text = .ok location) :
    further.locate text = .ok location := by
  rw [Disk.locate] at leads ⊢
  split_ifs at leads with long empty
  rw [if_neg long, if_neg empty, within.start]
  exact within.walk leads

theorem slot (within : disk.Within further) {settled : Refusal} {path : Path}
    {location : Location} (leads : disk.slot settled path = .ok location) :
    further.slot settled path = .ok location := by
  obtain ⟨lead, name, place, parts, short, toPlace, directory, others⟩ :=
    slot_eq_ok.mp leads
  exact slot_eq_ok.mpr ⟨lead, name, place, parts, short,
    by rw [within.start]; exact within.walk toPlace, within.isDirectoryAt directory,
    others⟩

theorem isDirectory (within : disk.Within further) {path : Path}
    (directory : disk.isDirectory path = true) : further.isDirectory path = true := by
  obtain ⟨noNul, location, leads, present⟩ := isDirectory_iff.mp directory
  exact isDirectory_iff.mpr
    ⟨noNul, location, within.locate leads, within.kept _ _ present⟩

end Within

namespace Extends

theorem refl (disk : Disk) : disk.Extends disk :=
  Within.refl _

theorem trans (first : disk.Extends further) (second : further.Extends last) :
    disk.Extends last :=
  Within.trans first second

theorem of_sameShape (same : SameShape disk further) : disk.Extends further := by
  rw [Extends, same]
  exact Within.refl _

theorem locate (growth : disk.Extends further) {text : Text} {location : Location}
    (leads : disk.locate text = .ok location) :
    further.locate text = .ok location := by
  rw [← locate_emptied] at leads ⊢
  exact Within.locate growth leads

theorem slot (growth : disk.Extends further) {settled : Refusal} {path : Path}
    {location : Location} (leads : disk.slot settled path = .ok location) :
    further.slot settled path = .ok location := by
  rw [← slot_emptied] at leads ⊢
  exact Within.slot growth leads

theorem start (growth : disk.Extends further) (anchor : Anchor) :
    further.start anchor = disk.start anchor := by
  rw [← start_emptied, ← start_emptied disk]
  exact Within.start growth anchor

theorem isDirectory (growth : disk.Extends further) {path : Path}
    (directory : disk.isDirectory path = true) : further.isDirectory path = true := by
  rw [← isDirectory_emptied] at directory ⊢
  exact Within.isDirectory growth directory

/-- A file may be written wherever no directory stands. -/
theorem put_file {location : Location}
    (noDirectory : disk.isDirectoryAt location = false) (octets : List UInt8) :
    disk.Extends (disk.put location (.file octets)) := by
  cases present : disk.entryAt location with
  | none => exact (Within.put_new present _).grown
  | some entry =>
      cases entry with
      | directory => simp [Disk.isDirectoryAt, present] at noDirectory
      | file old =>
          have same : SameShape (disk.put location (.file octets)) disk :=
            sameShape_put rfl present octets
          exact Extends.of_sameShape (Eq.symm same)

/-- A file of a disk is a file on each of its extensions. -/
theorem exists_file (growth : disk.Extends further) {location : Location}
    {octets : List UInt8} (file : disk.entryAt location = some (.file octets)) :
    ∃ later, further.entryAt location = some (.file later) := by
  have present := growth.kept location (.file []) (by rw [entryAt_emptied, file]; rfl)
  rw [entryAt_emptied, Option.map_eq_some_iff] at present
  obtain ⟨entry, there, emptied⟩ := present
  cases entry with
  | directory => cases emptied
  | file later => exact ⟨later, there⟩

end Extends

/-! ## Making directories -/

/-- A directory that is there is left as it is. -/
theorem ensureDirectory_of_isDirectory {path : Path} (proper : path.IsProper)
    (directory : disk.isDirectory path = true) :
    disk.ensureDirectory path = .ok disk := by
  obtain ⟨noNul, location, leads, present⟩ := isDirectory_iff.mp directory
  obtain ⟨short, walked⟩ := walk_of_locate proper leads
  -- the last name is there or leads upward, so that nothing is missing
  have occupied : disk.makeDirectory path = .error (.refused .occupied path) := by
    rw [makeDirectory, onPath, noNul]
    rcases path.parts.eq_nil_or_concat with none | ⟨lead, name, parts⟩
    · simp [slot, short, none, bind, Except.bind, Except.mapError]
    · rw [List.concat_eq_append] at parts
      rw [parts, walk_append] at walked
      obtain ⟨place, toPlace, last⟩ := Reading.bind_eq_ok.mp walked
      have named : isName name = true := (proper name (by simp [parts])).1
      rw [walk] at last
      split_ifs at last with outside unnamed up wide absent
      · simp [named] at unnamed
      · simp [slot, short, parts, toPlace, outside, up, bind, Except.bind,
          Except.mapError]
      · simp [slot, short, parts, toPlace, outside, up, wide, bind, Except.bind,
          Except.mapError, Option.isSome_iff_ne_none,
          mt Option.isNone_iff_eq_none.mpr absent]
  rw [ensureDirectory, occupied]
  simp [directory]

theorem ensureDirectories_of_isDirectory {path : Path} (proper : path.IsProper)
    (directory : disk.isDirectory path = true) :
    disk.ensureDirectories path = (disk, .ok ()) := by
  rw [ensureDirectories, ensureDirectory_of_isDirectory proper directory]

/-- A directory that has to be there is there, or is put at a free place. -/
theorem ensureDirectory_cases {path : Path}
    (made : disk.ensureDirectory path = .ok further) :
    further = disk ∧ disk.isDirectory path = true ∨
      path.hasNul = false ∧ ∃ location, disk.slot .occupied path = .ok location ∧
        disk.entryAt location = none ∧ further = disk.put location .directory := by
  rw [ensureDirectory] at made
  split at made
  · rename_i changed new
    obtain rfl := Except.ok.inj made
    obtain ⟨noNul, placed⟩ := onPath_eq_ok.mp new
    obtain ⟨location, leads, put⟩ := Reading.bind_eq_ok.mp placed
    split_ifs at put with taken
    split at put
    · exact Or.inr ⟨noNul, location, leads, by simpa using taken, (Except.ok.inj put).symm⟩
    · cases put
  · split_ifs at made with there
    exact Or.inl ⟨(Except.ok.inj made).symm, (Bool.and_eq_true_iff.mp there).2⟩

theorem within_of_ensureDirectory {path : Path} (proper : path.IsProper)
    (made : disk.ensureDirectory path = .ok further) :
    disk.Within further ∧ further.isDirectory path = true := by
  rcases ensureDirectory_cases made with ⟨rfl, there⟩ | ⟨noNul, location, leads, free, rfl⟩
  · exact ⟨Within.refl _, there⟩
  · have within := Within.put_new free .directory
    have inside : location ≠ [] := by
      rintro rfl
      simp [entryAt] at free
    have present := entryAt_put_self inside .directory disk
    exact ⟨within, isDirectory_iff.mpr ⟨noNul, location,
      locate_of_slot proper (within.slot leads) (by simp [present]), present⟩⟩

theorem within_of_ensureDirectories {path : Path} (proper : path.IsProper)
    (made : disk.ensureDirectories path = (further, .ok ())) :
    disk.Within further ∧ further.isDirectory path = true := by
  induction path using ensureDirectories.induct disk generalizing further with
  | case1 path changed present =>
      rw [ensureDirectories, present, Prod.mk.injEq] at made
      exact made.1 ▸ within_of_ensureDirectory proper present
  | case2 path error absent missing changed refused above ih =>
      rw [ensureDirectories, absent] at made
      simp [missing, above] at made
  | case3 path error absent missing changed above complete present ih =>
      rw [ensureDirectories, absent] at made
      simp only [missing, ne_eq, not_false_eq_true, and_self, dite_true, above, present,
        Prod.mk.injEq, and_true] at made
      have started := ih proper.parent above
      have finished := within_of_ensureDirectory proper present
      exact made ▸ ⟨started.1.trans finished.1, finished.2⟩
  | case4 path error absent missing changed above refused final ih =>
      rw [ensureDirectories, absent] at made
      simp [missing, above, final] at made
  | case5 path error absent present =>
      rw [ensureDirectories, absent] at made
      simp [present] at made

/-! ## Writing a text -/

/-- The place of an output lies in the directory above its path, and is no directory. -/
theorem outputAt_eq_ok {path : Path} {location : Location} :
    disk.outputAt path = .ok location ↔
      path.hasNul = false ∧ disk.slot .isDirectory path = .ok location ∧
        disk.isDirectoryAt location = false := by
  rw [outputAt, onPath_eq_ok, Reading.bind_eq_ok]
  refine and_congr_right fun _ => ⟨?_, ?_⟩
  · rintro ⟨place, leads, free⟩
    split_ifs at free with directory
    obtain rfl := Except.ok.inj free
    exact ⟨leads, by simpa using directory⟩
  · rintro ⟨leads, noDirectory⟩
    exact ⟨location, leads, by simp [noDirectory]⟩

/-- Octets are put at the place of the output, all of them or a beginning of them; or
the disk is left as it is. -/
theorem write_cases (disk : Disk) (path : Path) (octets : List UInt8) :
    (∃ error, disk.write path octets = (disk, .error error)) ∨
    ∃ location, disk.outputAt path = .ok location ∧
      (disk.write path octets = (disk.put location (.file octets), .ok ()) ∨
        ∃ refusal count, disk.write path octets =
          (disk.put location (.file (octets.take count)), .error (.brokenOff refusal))) := by
  rw [write]
  cases output : disk.outputAt path with
  | error error => exact Or.inl ⟨error, rfl⟩
  | ok location =>
      dsimp only
      cases disk.device.writing disk.entries location octets with
      | none => exact Or.inr ⟨location, rfl, Or.inl rfl⟩
      | some trouble =>
          cases trouble with
          | refused refusal => exact Or.inl ⟨_, rfl⟩
          | brokenOff refusal count =>
              exact Or.inr ⟨location, rfl, Or.inr ⟨refusal, count, rfl⟩⟩

/-- A text is put behind the directories that are made for it, all of it or a beginning
of it; or these directories are all that is left. -/
theorem writeWithDirectories_cases (disk : Disk) (path : Path) (text : Text) :
    let made := disk.ensureDirectories path.parent
    (∃ error, disk.writeWithDirectories path text = (made.1, .error error)) ∨
    ∃ location, made.2 = .ok () ∧ made.1.outputAt path = .ok location ∧
      (disk.writeWithDirectories path text =
          (made.1.put location (.file (Utf8.encode text)), .ok ()) ∨
        ∃ refusal count, disk.writeWithDirectories path text =
          (made.1.put location (.file ((Utf8.encode text).take count)),
            .error (.brokenOff refusal))) := by
  rw [writeWithDirectories]
  rcases disk.ensureDirectories path.parent with ⟨changed, error | done⟩
  · exact Or.inl ⟨error, rfl⟩
  · rcases changed.write_cases path (Utf8.encode text) with failed | ⟨location, output, put⟩
    · exact Or.inl failed
    · exact Or.inr ⟨location, rfl, output, put⟩

/-- Octets were put where a path leads, below directories that were made for it. -/
structure Wrote (disk : Disk) (path : Path) (octets : List UInt8) (location : Location)
    (changed : Disk) : Prop where
  noNul : path.hasNul = false
  grown : disk.Extends changed
  kept : ∀ other entry, other ≠ location → disk.entryAt other = some entry →
    changed.entryAt other = some entry
  parent : changed.isDirectory path.parent = true
  slot : changed.slot .isDirectory path = .ok location
  written : changed.entryAt location = some (.file octets)

/-- Whatever octets are put at the place of an output, once its directories are made. -/
theorem wrote_put {path : Path} {location : Location} (proper : path.IsProper)
    (made : (disk.ensureDirectories path.parent).2 = .ok ())
    (output : (disk.ensureDirectories path.parent).1.outputAt path = .ok location)
    (octets : List UInt8) :
    disk.Wrote path octets location
      ((disk.ensureDirectories path.parent).1.put location (.file octets)) := by
  obtain ⟨noNul, leads, noDirectory⟩ := outputAt_eq_ok.mp output
  obtain ⟨within, parent⟩ := within_of_ensureDirectories proper.parent
    (Prod.ext rfl made : disk.ensureDirectories path.parent = (_, .ok ()))
  have inside : location ≠ [] := by
    rintro rfl
    cases noDirectory
  have growth := Extends.put_file noDirectory octets
  exact {
    noNul
    grown := within.grown.trans growth
    kept := fun other entry different present => by
      rw [entryAt_put_of_ne different, within.kept _ _ present]
    parent := growth.isDirectory parent
    slot := growth.slot leads
    written := entryAt_put_self inside _ _ }

/-- The device refuses to make a directory that could not be made: there is a place for
it, and nothing stands there. -/
def refusal? (disk : Disk) : DiskError → Option (Path × Trouble)
  | .refused refusal path =>
    match disk.slot .occupied path with
    | .ok location =>
      if (disk.entryAt location).isNone then some (path, .refused refusal) else none
    | .error _ => none
  | _ => none

/-- The device has refused no directory in what was tried on the disk. -/
def Answers {α : Type} (disk : Disk) (result : Except DiskError α) : Prop :=
  ∀ error, result = .error error → disk.refusal? error = none

/-- What goes wrong with the device when a text is written to a path, and the path of the
directory or file that it goes wrong with. -/
def trouble? (disk : Disk) (path : Path) (text : Text) : Option (Path × Trouble) :=
  match disk.ensureDirectories path.parent with
  | (made, .error error) => made.refusal? error
  | (made, .ok ()) =>
    match made.outputAt path with
    | .error _ => none
    | .ok location =>
      (made.device.writing made.entries location (Utf8.encode text)).map (path, ·)

/-- Where nothing goes wrong with the device, it takes the text once the directories are
made. -/
theorem taken_of_trouble? {path : Path} {text : Text}
    (made : (disk.ensureDirectories path.parent).2 = .ok ())
    (taken : disk.trouble? path text = none) (location : Location)
    (output : (disk.ensureDirectories path.parent).1.outputAt path = .ok location) :
    (disk.ensureDirectories path.parent).1.device.writing
      (disk.ensureDirectories path.parent).1.entries location (Utf8.encode text) = none := by
  rcases ensured : disk.ensureDirectories path.parent with ⟨changed, error | done⟩ <;>
    rw [ensured] at made output
  · cases made
  · rw [trouble?, ensured] at taken
    simpa only [output, Option.map_eq_none_iff] using taken

/-- Where nothing goes wrong with the device, it has refused no directory. -/
theorem answers_of_trouble? {path : Path} {text : Text}
    (taken : disk.trouble? path text = none) :
    (disk.ensureDirectories path.parent).1.Answers
      (disk.ensureDirectories path.parent).2 := by
  intro error failed
  rcases ensured : disk.ensureDirectories path.parent with ⟨changed, other | done⟩ <;>
    rw [ensured] at failed
  · rw [trouble?, ensured] at taken
    exact Except.error.inj failed ▸ taken
  · cases failed

theorem error_of_refusal? {error : DiskError} {upper : Path} {trouble : Trouble}
    (refused : disk.refusal? error = some (upper, trouble)) : trouble.error upper = error := by
  unfold refusal? at refused
  split at refused
  · split at refused
    · split_ifs at refused
      obtain ⟨rfl, rfl⟩ := Prod.mk.inj (Option.some.inj refused)
      rfl
    · cases refused
  · cases refused

/-- When something goes wrong with the device, writing ends with that. -/
theorem error_of_trouble? {path upper : Path} {text : Text} {trouble : Trouble}
    (met : disk.trouble? path text = some (upper, trouble)) :
    (disk.writeWithDirectories path text).2 = .error (trouble.error upper) := by
  rcases ensured : disk.ensureDirectories path.parent with ⟨changed, error | done⟩ <;>
    rw [trouble?, ensured] at met <;> rw [writeWithDirectories, ensured]
  · rw [error_of_refusal? met]
  · dsimp only at met ⊢
    rcases output : changed.outputAt path with refusal | location <;> rw [output] at met
    · cases met
    · obtain ⟨answer, answered, same⟩ := Option.map_eq_some_iff.mp met
      obtain ⟨rfl, rfl⟩ := Prod.mk.inj same
      rw [writeText, write, output]
      simp only [answered]
      cases answer <;> rfl

namespace Wrote

variable {path : Path} {octets : List UInt8} {location : Location}

theorem locate (wrote : disk.Wrote path octets location further)
    (proper : path.IsProper) : further.locate path.text = .ok location :=
  locate_of_slot proper wrote.slot (by simp [wrote.written])

/-- Where something was written once, on every disk that has grown since there is a
place for it. -/
theorem outputAt (wrote : disk.Wrote path octets location further)
    (growth : further.Extends last) : last.outputAt path = .ok location := by
  obtain ⟨later, file⟩ := growth.exists_file wrote.written
  exact outputAt_eq_ok.mpr ⟨wrote.noNul, growth.slot wrote.slot, by simp [isDirectoryAt, file]⟩

/-- Where something was written once, a text is put at the same place on every disk that
has grown since, if the device takes it. -/
theorem again (wrote : disk.Wrote path octets location further)
    (proper : path.IsProper) (growth : further.Extends last) {next : Text}
    (taken : last.trouble? path next = none) :
    last.writeWithDirectories path next =
      (last.put location (.file (Utf8.encode next)), .ok ()) := by
  have made := ensureDirectories_of_isDirectory proper.parent (growth.isDirectory wrote.parent)
  have output := wrote.outputAt growth
  have answer : last.device.writing last.entries location (Utf8.encode next) = none := by
    simpa only [made] using taken_of_trouble? (by rw [made]) taken location (by rwa [made])
  rw [writeWithDirectories, made]
  simp only [writeText, write, output, answer]

end Wrote

end Extensions

end SchemaCompose.Disk
