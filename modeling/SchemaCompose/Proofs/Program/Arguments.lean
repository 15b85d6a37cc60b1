import Mathlib.Data.List.Induction
import SchemaCompose.Program.Shell
import SchemaCompose.Proofs.CommandLine.Settings
import SchemaCompose.Proofs.Registries
import SchemaCompose.Proofs.Schema.Arguments

/-!
# What the program takes arguments for

The arguments of the program are read option by option, and an option is settled with
the value it is given last.  So the program takes settings for mixing for the request
that they make (`Program.takesSettings_shell`).
-/

namespace SchemaCompose

/-- A row is gone through if every item of it is taken. -/
theorem Reading.forM_eq_ok {ε α : Type} {row : List α} {take : α → Except ε Unit}
    (each : ∀ item ∈ row, take item = .ok ()) : row.forM take = .ok () := by
  induction row with
  | nil => rfl
  | cons item row ih =>
      rw [List.forall_mem_cons] at each
      rw [List.forM_eq_forM, List.forM_cons, each.1]
      exact ih each.2

namespace Program

namespace Arguments

variable {accepted : Accepted} {settings : List Setting} {rest : List Text}

/-- Where options may not stand behind other arguments, the first of these ends
them. -/
theorem read_word {word : Text} (goesOn : word ≠ ("--" : Text))
    (isWord : isOption word = false) (ordered : accepted.interspersed = false) :
    read accepted (word :: rest) = some { rest := word :: rest } := by
  rw [read, if_neg goesOn, isWord, ordered]
  rfl

/-- An option and its value. -/
def entryOf (setting : Setting) : Text × Text :=
  (setting.option, setting.value)

/-- An option that is accepted takes its value from behind it or from what is joined to
it. -/
theorem read_setting {setting : Setting}
    (known : accepted.options.contains setting.option = true)
    (isOption : isOption setting.option = true) (goesOn : setting.option ≠ ("--" : Text))
    (plain : '=' ∉ setting.option) :
    read accepted (setting.arguments ++ rest) =
      (read accepted rest).map fun read =>
        { read with options := entryOf setting :: read.options } := by
  obtain ⟨option, value, isJoined⟩ := setting
  cases isJoined with
  | false =>
      show read accepted (option :: value :: rest) = _
      rw [read, if_neg goesOn, isOption, Arguments.cutAt_of_not_mem plain]
      dsimp only at known ⊢
      simp only [known, Bool.not_true, Bool.false_eq_true, if_false, if_true]
      rfl
  | true =>
      have longer : option ++ '=' :: value ≠ ("--" : Text) := by
        intro same
        have member : '=' ∈ ("--" : Text) := same ▸ by simp
        simp at member
      have still : Arguments.isOption (option ++ '=' :: value) = true := by
        unfold Arguments.isOption at isOption ⊢
        split at isOption
        · rename_i second tail same
          obtain rfl : option = '-' :: second :: tail := same
          rfl
        · cases isOption
      show read accepted ((option ++ '=' :: value) :: rest) = _
      rw [read, if_neg longer, still, Arguments.cutAt_append plain]
      dsimp only at known ⊢
      simp only [known, Bool.not_true, Bool.false_eq_true, if_false, if_true]
      rfl

/-- The options of mixing are read from the settings that they are written as. -/
theorem read_settings
    (known : ∀ setting ∈ settings, setting.IsKnown) :
    read
        { options := ["--config", "--base-dir"], flags := ["--help"],
          interspersed := true } (settings.flatMap Setting.arguments) =
      some { options := settings.map entryOf } := by
  induction settings with
  | nil => rfl
  | cons setting settings ih =>
      rw [List.forall_mem_cons] at known
      rw [List.flatMap_cons, read_setting, ih known.2]
      · rfl
      all_goals rcases known.1 with same | same <;> rw [same] <;> decide

theorem last?_settings (option : Text) (settings : List Setting) :
    last? option { options := settings.map entryOf } = Setting.last? option settings := by
  rw [last?, Setting.last?, ← List.map_reverse]
  induction settings.reverse with
  | nil => rfl
  | cons setting settings ih =>
      rw [List.map_cons, entryOf, List.lookup_cons, List.find?_cons, ih]
      by_cases same : setting.option = option
      · simp [same]
      · simp [same, beq_false_of_ne (Ne.symm same)]

/-- An option is settled with the value it is given last. -/
theorem find?_settled (arguments : Arguments) (option : Text) :
    Registry.find? option arguments.settled = arguments.last? option := by
  rw [settled, last?]
  induction arguments.options using List.reverseRecOn with
  | nil => rfl
  | append_singleton options entry ih =>
      obtain ⟨name, value⟩ := entry
      rw [List.foldl_append, List.foldl_cons, List.foldl_nil, List.reverse_concat,
        List.lookup_cons]
      by_cases same : option = name
      · subst same
        simp
      · rw [Registry.find?_put_of_ne same, ih, beq_false_of_ne same]

theorem nodup_settled (arguments : Arguments) :
    (arguments.settled.map Prod.fst).Nodup := by
  rw [settled]
  induction arguments.options using List.reverseRecOn with
  | nil => exact List.nodup_nil
  | append_singleton options entry ih =>
      rw [List.foldl_append, List.foldl_cons, List.foldl_nil]
      exact Registry.nodup_put ih entry.1 entry.2

end Arguments

variable {disk : Disk} {settings : List Setting}

theorem argumentsOf_of_read {accepted : Accepted} {given : List Text}
    {arguments : Arguments} (read : Arguments.read accepted given = some arguments)
    (unflagged : arguments.flagged = false) :
    argumentsOf accepted given = .ok arguments := by
  simp [argumentsOf, read, unflagged]

/-- The arguments behind the word for mixing are read at the usual level. -/
theorem order_mix_cons (disk : Disk) (rest : List Text) :
    order disk ("mix" :: rest) =
      (orderOfCommand disk "mix" rest).map fun order => (.info, order) := by
  have read : Arguments.read
      { options := ["--log-level"], flags := ["--help", "--version"],
        interspersed := false } ("mix" :: rest) = some { rest := "mix" :: rest } :=
    Arguments.read_word (by decide) (by decide) rfl
  have level : levelOfName? Level.info.name = some .info := by decide
  rw [order, if_neg (List.cons_ne_nil _ _), argumentsOf_of_read read rfl]
  simp only [Reading.ok_bind, Arguments.last?, List.reverse_nil, List.lookup_nil,
    Option.getD_none, level]
  cases orderOfCommand disk "mix" rest <;> rfl

/-- A path is taken that is possible and leads to no closed file, and to no file at all
if a directory is asked for. -/
theorem checkPath_eq_ok {option path : Text} (possible : '\x00' ∉ path)
    (isOpen : disk.isClosed path = false)
    (apart : option = ("--base-dir" : Text) →
      ∀ octets, disk.find path ≠ .ok (.file octets)) :
    checkPath disk option path = .ok () := by
  rw [checkPath, if_neg (by simpa using possible), if_neg (by simp [isOpen])]
  split
  · rename_i octets found
    exact if_neg fun same => apart same octets found
  · rfl

/-- The program takes settings for mixing for the request that they make. -/
theorem takesSettings_shell : shell.TakesSettings where
  order disk settings known fit := by
    have checked : ∀ entry ∈
        ({ options := settings.map Arguments.entryOf } : Arguments).settled,
        checkPath disk entry.1 entry.2 = .ok () := by
      rintro ⟨option, value⟩ member
      have last := Registry.find?_of_mem (Arguments.nodup_settled _) member
      rw [Arguments.find?_settled, Arguments.last?_settings] at last
      obtain ⟨setting, inSettings, rfl⟩ := Setting.exists_mem_of_last? last
      rcases known setting inSettings with same | same <;> rw [same] at last ⊢
      · have other : ¬ ("--config" : Text) = "--base-dir" := by decide
        have named : (Setting.request settings).configuration = value := by
          rw [Setting.request, last, Option.getD_some]
        exact checkPath_eq_ok (named ▸ fit.possible) (named ▸ fit.isOpen)
          fun same => absurd same other
      · obtain ⟨possible, noFile⟩ := fit.base value last
        exact checkPath_eq_ok possible (Disk.isClosed_of_no_file noFile) fun _ => noFile
    have paths : paths disk ["--config", "--base-dir"]
        (settings.flatMap Setting.arguments) =
          .ok { options := settings.map Arguments.entryOf } := by
      rw [Program.paths, argumentsOf_of_read (Arguments.read_settings known) rfl,
        Reading.ok_bind, Reading.forM_eq_ok checked]
      rfl
    have reads : shell.order = Program.order := rfl
    rw [reads, order_mix_cons, Setting.request, ← Arguments.last?_settings,
      ← Arguments.last?_settings]
    unfold orderOfCommand
    rw [if_pos rfl, paths]
    rfl

end Program

end SchemaCompose
