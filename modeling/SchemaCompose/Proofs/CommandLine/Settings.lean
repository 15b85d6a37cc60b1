import SchemaCompose.CommandLine
import SchemaCompose.Proofs.Disk.Finding

/-!
# Settings for mixing

Behind the word for mixing stand options with their values, in any order, of which each
counts with its last value.  How arguments are read is up to the shell; what is asked of
it is that it takes such settings for the request that they make, where the disk has
nothing against their paths (`Shell.TakesSettings`).
-/

namespace SchemaCompose

/-- An option with its value, which stands behind it or is joined to it. -/
structure Setting where
  option : Text
  value : Text
  isJoined : Bool

namespace Setting

/-- The option is one of those for mixing. -/
def IsKnown (setting : Setting) : Prop :=
  setting.option = ("--config" : Text) ∨ setting.option = ("--base-dir" : Text)

instance (setting : Setting) : Decidable setting.IsKnown :=
  inferInstanceAs (Decidable (_ ∨ _))

/-- The arguments that a setting is written as. -/
def arguments (setting : Setting) : List Text :=
  if setting.isJoined then [setting.option ++ '=' :: setting.value]
  else [setting.option, setting.value]

/-- The value that an option is given last. -/
def last? (option : Text) (settings : List Setting) : Option Text :=
  (settings.reverse.find? (·.option = option)).map (·.value)

/-- The request that settings for mixing make. -/
def request (settings : List Setting) : Request where
  configuration := (last? "--config" settings).getD defaultConfigurationName
  base := last? "--base-dir" settings

/-- The option is given last with the value by one of the settings. -/
theorem exists_mem_of_last? {settings : List Setting} {option value : Text}
    (last : Setting.last? option settings = some value) :
    ∃ setting ∈ settings, setting.option = option := by
  obtain ⟨setting, found, -⟩ := Option.map_eq_some_iff.mp last
  refine ⟨setting, List.mem_reverse.mp (List.mem_of_find?_eq_some found), ?_⟩
  simpa using List.find?_some found

end Setting

namespace Disk

variable {disk : Disk} {text : Text}

theorem isClosed_iff :
    disk.isClosed text = true ↔ ∃ location octets, disk.locate text = .ok location ∧
      disk.entryAt location = some (.file octets) ∧
      disk.device.reading location = some (.refused .denied) := by
  rw [isClosed]
  split
  · rename_i failed
    simp [failed]
  · rename_i location leads
    split
    · rename_i octets file
      simp [leads, file]
    · rename_i other
      simp only [leads, Bool.false_eq_true, Except.ok.injEq, false_iff]
      rintro ⟨place, octets, rfl, file, -⟩
      exact other octets file

/-- What leads to no file is not closed. -/
theorem isClosed_of_no_file (apart : ∀ octets, disk.find text ≠ .ok (.file octets)) :
    disk.isClosed text = false := by
  rw [Bool.eq_false_iff, Ne, isClosed_iff]
  rintro ⟨location, octets, leads, file, -⟩
  exact apart octets (find_eq_ok.mpr ⟨location, leads, file⟩)

end Disk

/-- The disk has nothing against the paths of a request: none of them is impossible or
leads to a closed file, and the base directory is no file. -/
structure Request.IsFit (request : Request) (disk : Disk) : Prop where
  possible : '\x00' ∉ request.configuration
  isOpen : disk.isClosed request.configuration = false
  base : ∀ directory ∈ request.base, '\x00' ∉ directory ∧
    ∀ octets, disk.find directory ≠ .ok (.file octets)

/-- A shell takes settings for mixing for the request that they make, and logs from
information on, where the disk has nothing against their paths. -/
structure Shell.TakesSettings {Value : Type} (shell : Shell Value) : Prop where
  order : ∀ (disk : Disk) (settings : List Setting),
    (∀ setting ∈ settings, setting.IsKnown) → (Setting.request settings).IsFit disk →
    shell.order disk ("mix" :: settings.flatMap Setting.arguments) =
      .ok (.info, .mix (Setting.request settings))

end SchemaCompose
