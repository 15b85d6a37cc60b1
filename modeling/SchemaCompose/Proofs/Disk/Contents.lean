import SchemaCompose.Proofs.Disk.Extension

/-!
# What the files hold

`Disk.contentAt` is the view of a disk that forgets its directories.  Making
directories changes nothing in this view, however far it comes
(`furnished_ensureDirectories`), and writing a text changes it at most at the place
that the path leads to afterwards (`content_of_writeWithDirectories`), where a beginning
of the text is left when the device gives up (`content_of_unwritten`).
-/

namespace SchemaCompose

/-- The octets in an entry. -/
def Entry.octets : Entry → List UInt8
  | .directory => []
  | .file octets => octets

/-- A device with room for so many octets.  Of a file that is larger than what the other
files leave of the room, only a beginning is written. -/
def Device.withRoom (room : Nat) : Device where
  writing entries location octets :=
    let taken := ((Registry.erase location entries).flatMap (·.2.octets)).length
    if taken + octets.length ≤ room then none
    else some (.brokenOff .noRoom (room - taken))

namespace Disk

variable {disk further last : Disk}

/-- The octets of the file at a place, if one stands there. -/
def contentAt (disk : Disk) (location : Location) : Option (List UInt8) :=
  match disk.entryAt location with
  | some (.file octets) => some octets
  | _ => none

theorem contentAt_eq_some {location : Location} {octets : List UInt8} :
    disk.contentAt location = some octets ↔
      disk.entryAt location = some (.file octets) := by
  rw [contentAt]
  split
  · rename_i present
    simp [present]
  · rename_i other
    simpa using other octets

theorem contentAt_of_isDirectoryAt {location : Location}
    (directory : disk.isDirectoryAt location = true) :
    disk.contentAt location = none := by
  rw [contentAt, isDirectoryAt_iff.mp directory]

theorem contentAt_put_of_ne {location other : Location} (different : other ≠ location)
    (entry : Entry) :
    (disk.put location entry).contentAt other = disk.contentAt other := by
  rw [contentAt, contentAt, entryAt_put_of_ne different]

/-- A file that is put where no directory stands changes nothing elsewhere. -/
theorem contentAt_put_file {location : Location}
    (noDirectory : disk.isDirectoryAt location = false) (octets : List UInt8)
    (other : Location) :
    (disk.put location (.file octets)).contentAt other =
      if other = location then some octets else disk.contentAt other := by
  split_ifs with here
  · have inside : location ≠ [] := by
      rintro rfl
      cases noDirectory
    rw [here]
    exact contentAt_eq_some.mpr (entryAt_put_self inside _ _)
  · exact contentAt_put_of_ne here _

theorem contentAt_put_directory {location : Location}
    (free : disk.entryAt location = none) (other : Location) :
    (disk.put location .directory).contentAt other = disk.contentAt other := by
  by_cases same : other = location
  · subst same
    have inside : other ≠ [] := by
      rintro rfl
      simp [entryAt] at free
    rw [contentAt, contentAt, entryAt_put_self inside, free]
  · exact contentAt_put_of_ne same _

/-! ## Making directories -/

/-- The other disk has everything that is on this one, and no more than directories
in addition. -/
structure Furnished (disk further : Disk) : Prop where
  within : disk.Within further
  content : ∀ location, further.contentAt location = disk.contentAt location

namespace Furnished

theorem refl (disk : Disk) : disk.Furnished disk :=
  ⟨Within.refl disk, fun _ => rfl⟩

theorem trans (first : disk.Furnished further) (second : further.Furnished last) :
    disk.Furnished last :=
  ⟨first.within.trans second.within,
    fun location => (second.content location).trans (first.content location)⟩

theorem put {location : Location} (free : disk.entryAt location = none) :
    disk.Furnished (disk.put location .directory) :=
  ⟨Within.put_new free .directory, contentAt_put_directory free⟩

end Furnished

/-- What is kept by putting one directory at a free place, for the path itself or for
a path above it, is kept by making all of them, however far that comes. -/
theorem ensureDirectories_keeps (Holds : Disk → Prop) {path : Path}
    (keeps : ∀ (current : Disk) (upper : Path) (location : Location),
      upper.anchor = path.anchor → upper.parts <+: path.parts →
      current.slot .occupied upper = .ok location →
      current.entryAt location = none → Holds current →
      Holds (current.put location .directory))
    (holds : Holds disk) : Holds (disk.ensureDirectories path).1 := by
  have step : ∀ (upper : Path) (current changed : Disk), upper.anchor = path.anchor →
      upper.parts <+: path.parts → current.ensureDirectory upper = .ok changed →
      Holds current → Holds changed := by
    intro upper current changed anchor above made before
    rcases ensureDirectory_cases made with ⟨rfl, -⟩ | ⟨-, location, leads, free, rfl⟩
    · exact before
    · exact keeps current upper location anchor above leads free before
  have all : ∀ upper : Path, upper.anchor = path.anchor → upper.parts <+: path.parts →
      Holds (disk.ensureDirectories upper).1 := by
    intro upper anchor above
    induction upper using ensureDirectories.induct disk with
    | case1 upper changed made =>
        rw [ensureDirectories, made]
        exact step upper disk changed anchor above made holds
    | case2 upper error absent missing changed refused failed ih =>
        have before := ih anchor ((List.dropLast_prefix _).trans above)
        rw [failed] at before
        rw [ensureDirectories, absent]
        simpa only [missing, ne_eq, not_false_eq_true, and_self, dite_true, failed]
    | case3 upper error absent missing changed done complete made ih =>
        have before := ih anchor ((List.dropLast_prefix _).trans above)
        rw [done] at before
        rw [ensureDirectories, absent]
        simp only [missing, ne_eq, not_false_eq_true, and_self, dite_true, done, made]
        exact step upper changed complete anchor above made before
    | case4 upper error absent missing changed done refused failed ih =>
        have before := ih anchor ((List.dropLast_prefix _).trans above)
        rw [done] at before
        rw [ensureDirectories, absent]
        simpa only [missing, ne_eq, not_false_eq_true, and_self, dite_true, done, failed]
    | case5 upper error absent present =>
        rw [ensureDirectories, absent]
        simpa only [present, dite_false] using holds
  exact all path rfl (List.prefix_refl _)

/-- Making directories changes no file, also where it is refused on the way. -/
theorem furnished_ensureDirectories (disk : Disk) (path : Path) :
    disk.Furnished (disk.ensureDirectories path).1 :=
  ensureDirectories_keeps disk.Furnished
    (fun _ _ _ _ _ _ free before => before.trans (Furnished.put free))
    (Furnished.refl disk)

/-! ## Writing a text -/

/-- Whatever octets are put behind the directories for a path, no other file is
changed. -/
theorem contentAt_put_behind {path : Path} {location other : Location}
    (different : other ≠ location) (entry : Entry) :
    ((disk.ensureDirectories path.parent).1.put location entry).contentAt other =
      disk.contentAt other := by
  rw [contentAt_put_of_ne different, (furnished_ensureDirectories disk path.parent).content]

/-- A text that was written stands where its path leads, and no other file is
changed. -/
theorem content_of_writeWithDirectories {path : Path} {text : Text}
    (proper : path.IsProper)
    (done : disk.writeWithDirectories path text = (further, .ok ())) :
    ∃ location, disk.Wrote path (Utf8.encode text) location further ∧
      ∀ other, other ≠ location →
        further.contentAt other = disk.contentAt other := by
  rcases disk.writeWithDirectories_cases path text with
    ⟨error, left⟩ | ⟨location, made, output, left | ⟨refusal, count, left⟩⟩
  · simp [left] at done
  · rw [left, Prod.mk.injEq] at done
    obtain rfl := done.1
    exact ⟨location, wrote_put proper made output _, fun _ apart => contentAt_put_behind apart _⟩
  · simp [left] at done

/-- What is left of a text that could not be written is directories; or the device gave
up, and a beginning of the text stands where its path leads. -/
theorem content_of_unwritten {path : Path} {text : Text} {error : DiskError}
    (proper : path.IsProper)
    (failed : disk.writeWithDirectories path text = (further, .error error)) :
    disk.Furnished further ∨
      ∃ refusal count location, error = .brokenOff refusal ∧
        disk.Wrote path ((Utf8.encode text).take count) location further ∧
        ∀ other, other ≠ location →
          further.contentAt other = disk.contentAt other := by
  rcases disk.writeWithDirectories_cases path text with
    ⟨error, left⟩ | ⟨location, made, output, left | ⟨refusal, count, left⟩⟩
  · rw [left, Prod.mk.injEq] at failed
    exact Or.inl (failed.1 ▸ furnished_ensureDirectories disk path.parent)
  · simp [left] at failed
  · rw [left, Prod.mk.injEq, Except.error.injEq] at failed
    obtain ⟨rfl, rfl⟩ := failed
    exact Or.inr ⟨refusal, count, location, rfl, wrote_put proper made output _,
      fun _ apart => contentAt_put_behind apart _⟩

end Disk

end SchemaCompose
