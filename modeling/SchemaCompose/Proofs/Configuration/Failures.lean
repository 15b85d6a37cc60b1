import SchemaCompose.Proofs.CommandLine.Settings
import SchemaCompose.Proofs.Program.Arguments
import SchemaCompose.Proofs.Text.Rows

/-!
# How a configuration fails

Whatever reads its text, a configuration is loaded or refused with a fault if it can be
read at all: its path is not too long, and what stands there is a file of UTF-8 text,
which the device gives and of which no value is impossible (`Configuration.IsReadable`).
The wording of a fault has one line, apart from what a reader says about a text that is
not well-formed.  Whatever else keeps a configuration from being loaded ends the request
and the command line without a report (`Configuration.fails_cleanly_iff`).
-/

namespace SchemaCompose

/-! ## Characters of a path -/

namespace Text

theorem isLine_join {separator : Text} {parts : List Text}
    (between : IsLine separator) (each : ∀ part ∈ parts, IsLine part) :
    IsLine (join separator parts) := by
  induction parts with
  | nil => exact isLine_nil
  | cons part parts ih =>
      rw [List.forall_mem_cons] at each
      cases parts with
      | nil => exact each.1
      | cons next parts =>
          rw [join, isLine_append, isLine_append]
          exact ⟨⟨each.1, between⟩, ih each.2⟩

theorem isLine_ofNat (number : Nat) : IsLine (ofNat number) := by
  intro c member
  have digit := Nat.isDigit_of_mem_toDigits (by decide) (by decide) member
  simp [Char.isDigit, UInt32.le_iff_toNat_le] at digit
  simp [isLineEnd, lineEndRanges, inRanges]
  have value : c.val.toNat = c.toNat := rfl
  omega

end Text

namespace Path

/-- A path holds the character that ends a name if its text does. -/
theorem hasNul_ofText (text : Text) :
    (ofText text).hasNul = true ↔ '\x00' ∈ text := by
  rw [← Text.exists_mem_pieces (show '\x00' ≠ '/' by decide), hasNul, List.any_eq_true]
  constructor
  · rintro ⟨part, member, holds⟩
    exact ⟨part, (List.mem_filter.mp member).1, List.contains_iff_mem.mp holds⟩
  · rintro ⟨piece, member, holds⟩
    refine ⟨piece, List.mem_filter.mpr ⟨member, ?_⟩, List.contains_iff_mem.mpr holds⟩
    have named : piece ≠ [] ∧ piece ≠ ['.'] :=
      ⟨by rintro rfl; simp at holds, by rintro rfl; simp at holds⟩
    simpa [isName] using named

theorem isLine_text_ofText {text : Text} (single : Text.IsLine text) :
    Text.IsLine (ofText text).text := by
  have parts : ∀ part ∈ (ofText text).parts, Text.IsLine part := by
    intro part member c inPart
    have inPieces := (List.mem_filter.mp member).1
    have different : c ≠ '/' := by
      rintro rfl
      exact Text.not_mem_of_mem_pieces part inPieces inPart
    exact single c ((Text.exists_mem_pieces different).mp ⟨part, inPieces, inPart⟩)
  rw [Path.text]
  split
  · decide
  · refine Text.isLine_append.mpr ⟨?_, Text.isLine_join (by decide) parts⟩
    cases (ofText text).anchor <;> decide

end Path

namespace ConfigurationFault

/-- The wording of a fault has one line, as the path of the configuration has and the
account of what is wrong with its text. -/
theorem isLine_message {fault : ConfigurationFault}
    (named : ∀ path, fault = .notFound path → Text.IsLine path.text) :
    Text.IsLine fault.message ↔
      ∀ account, fault = .malformed account → Text.IsLine account := by
  have mixer : ∀ index, Text.IsLine (mixer index) := by
    intro index
    unfold ConfigurationFault.mixer
    rw [Text.isLine_append, Text.isLine_append]
    exact ⟨⟨by decide +kernel, Text.isLine_ofNat index⟩, by decide +kernel⟩
  have part : ∀ part : TextPart, Text.IsLine part.name := by
    intro part
    cases part <;> decide +kernel
  unfold message
  cases fault with
  | malformed account =>
      have lead : Text.IsLine "Failed to parse configuration file: " := by decide +kernel
      rw [Text.isLine_append, and_iff_right lead]
      simp
  | notFound path =>
      simp only [reduceCtorEq, false_imp_iff, implies_true, iff_true, Text.isLine_append]
      exact ⟨by decide +kernel, named path rfl⟩
  | rootNotMapping | mixersMissing | mixersNotList | mixersEmpty =>
      simp only [reduceCtorEq, false_imp_iff, implies_true, iff_true]
      decide +kernel
  | mixerNotMapping index =>
      simp only [reduceCtorEq, false_imp_iff, implies_true, iff_true, Text.isLine_append]
      exact ⟨⟨by decide +kernel, mixer index⟩, by decide +kernel⟩
  | inputMissing index | inputNotText index | inputEmpty index =>
      simp only [reduceCtorEq, false_imp_iff, implies_true, iff_true, Text.isLine_append]
      exact ⟨mixer index, by decide +kernel⟩
  | notText index missing | blank index missing =>
      simp only [reduceCtorEq, false_imp_iff, implies_true, iff_true, Text.isLine_append]
      exact ⟨⟨⟨mixer index, by decide +kernel⟩, part missing⟩, by decide +kernel⟩

end ConfigurationFault

/-! ## Values -/

namespace Configuration

variable {Letter Value : Type} {reader : Reader Value} {disk : Disk} {path : Path}

section Faults

variable [Alphabet Letter]

theorem partText_ne_notFound {index : Nat} {part : TextPart} {value : View Letter Value}
    {missing : Path} : partText index part value ≠ .error (.notFound missing) := by
  intro failed
  rw [partText.eq_def] at failed
  split at failed
  · split at failed <;> cases failed
  · cases failed

variable [Shown Letter Value]

theorem inputs_ne_notFound {index : Nat} {input : Option (View Letter Value)}
    {missing : Path} : inputs index input ≠ .error (.notFound missing) := by
  intro failed
  cases input with
  | none => cases failed
  | some value =>
      rcases Reading.bind_eq_error.mp failed with first | ⟨found, -, rest⟩
      · rw [patterns.eq_def] at first
        split at first
        · cases first
        · obtain ⟨item, -, fails⟩ := Reading.exists_mem_of_mapM_eq_error first
          exact partText_ne_notFound fails
        · cases first
      · cases found <;> cases rest

variable [DecidableEq Letter]

theorem job_ne_notFound {index : Nat} {mixer : View Letter Value} {missing : Path} :
    job index mixer ≠ .error (.notFound missing) := by
  intro failed
  rw [job.eq_def] at failed
  split at failed
  · rcases Reading.bind_eq_error.mp failed with first | ⟨found, -, rest⟩
    · exact inputs_ne_notFound first
    · rcases Reading.bind_eq_error.mp rest with second | ⟨output, -, none⟩
      · exact partText_ne_notFound second
      · cases none
  · cases failed

theorem jobsFrom_ne_notFound {index : Nat} {mixers : List (View Letter Value)}
    {missing : Path} : jobsFrom index mixers ≠ .error (.notFound missing) := by
  induction mixers generalizing index with
  | nil => intro failed; cases failed
  | cons mixer mixers ih =>
      intro failed
      rcases Reading.bind_eq_error.mp failed with first | ⟨found, -, rest⟩
      · exact job_ne_notFound first
      · rcases Reading.bind_eq_error.mp rest with behind | ⟨others, -, none⟩
        · exact ih behind
        · cases none

theorem jobsOf_ne_notFound {value : View Letter Value} {missing : Path} :
    jobsOf value ≠ .error (.notFound missing) := by
  intro failed
  rw [jobsOf.eq_def] at failed
  split at failed
  · cases failed
  · split at failed
    · cases failed
    · rw [jobsOfMixers] at failed
      split at failed
      · cases failed
      · cases failed
      · exact jobsFrom_ne_notFound failed
  · cases failed

end Faults

/-! ## Loading -/

/-- A configuration can be read: its path is not too long, and what stands there, if
anything does, is a file whose octets the device gives and which are UTF-8, of a text in
which the reader finds no value impossible, whether the text is well-formed or not. -/
def IsReadable (reader : Reader Value) (disk : Disk) (path : Path) : Prop :=
  ∃ found, disk.status path = .ok found ∧ ∀ entry ∈ found,
    ∃ octets text, disk.read path = .ok octets ∧ Utf8.decode octets = .ok text ∧
      ∀ error, reader (Utf8.normalizeNewlines text) ≠ .error (.impossible error)

theorem exists_status_of_readText {text : Text} (read : disk.readText path = .ok text) :
    ∃ entry, disk.status path = .ok (some entry) := by
  obtain ⟨octets, given, -⟩ := Reading.bind_eq_ok.mp read
  cases held : disk.read path with
  | error error => simp [held, Except.mapError] at given
  | ok octets =>
      obtain ⟨location, found, -⟩ := Disk.read_eq_ok.mp held
      obtain ⟨noNul, leads, file⟩ := Disk.fileAt_eq_ok.mp found
      exact ⟨_, Disk.status_eq_ok_some.mpr
        ⟨noNul, Disk.find_eq_ok.mpr ⟨location, leads, file⟩⟩⟩

variable [Alphabet Letter] [DecidableEq Letter] [Shown Letter Value]

/-- A configuration is loaded or refused with a fault exactly if it can be read. -/
theorem load_ends_iff :
    ((∃ configuration, load reader disk path = .ok configuration) ∨
      ∃ fault, load reader disk path = .error (.invalid fault)) ↔
      IsReadable reader disk path := by
  rw [load, IsReadable]
  cases status : disk.status path with
  | error error => simp [bind, Except.bind, Except.mapError]
  | ok found =>
      cases found with
      | none => exact iff_of_true (Or.inr ⟨_, rfl⟩) ⟨none, rfl, by simp⟩
      | some entry =>
          simp only [Except.mapError, Reading.ok_bind, Disk.readText]
          cases held : disk.read path with
          | error error => simp [bind, Except.bind]
          | ok octets =>
              cases decoded : Utf8.decode octets with
              | error error => simp [bind, Except.bind, decoded]
              | ok text =>
                  cases read : reader (Utf8.normalizeNewlines text) with
                  | error rejection =>
                      cases rejection <;>
                        simp [bind, Except.bind, pure, Except.pure,
                          ConfigurationFailure.ofRejection, decoded, read]
                  | ok value =>
                      cases made : jobsOf (Shown.view value) <;>
                        simp [bind, Except.bind, pure, Except.pure, decoded, read, made]

/-- A configuration that is loaded names the path it was loaded from, where a file that
can be read stands. -/
theorem path_of_load {configuration : Configuration Letter}
    (loaded : load reader disk path = .ok configuration) :
    configuration.path = path ∧ path.hasNul = false ∧
      ∃ octets, disk.read path = .ok octets := by
  obtain ⟨found, -, rest⟩ := Reading.bind_eq_ok.mp loaded
  cases found with
  | none => cases rest
  | some entry =>
      obtain ⟨text, read, rest⟩ := Reading.bind_eq_ok.mp rest
      obtain ⟨value, -, rest⟩ := Reading.bind_eq_ok.mp rest
      obtain ⟨jobs, -, rest⟩ := Reading.bind_eq_ok.mp rest
      obtain rfl := Reading.pure_eq_ok.mp rest
      refine ⟨rfl, ?_⟩
      cases held : disk.read path with
      | error error =>
          simp [Disk.readText, held, Except.mapError, bind, Except.bind] at read
      | ok octets =>
          obtain ⟨location, found, -⟩ := Disk.read_eq_ok.mp held
          exact ⟨(Disk.fileAt_eq_ok.mp found).1, octets, rfl⟩

/-- The path in a fault is that of the configuration. -/
theorem path_of_notFound {missing : Path}
    (refused : load reader disk path = .error (.invalid (.notFound missing))) :
    missing = path := by
  rw [load] at refused
  rcases Reading.bind_eq_error.mp refused with unknown | ⟨found, -, rest⟩
  · cases status : disk.status path <;> simp [status, Except.mapError] at unknown
  cases found with
  | none =>
      cases rest
      rfl
  | some entry =>
      rcases Reading.bind_eq_error.mp rest with unread | ⟨text, -, rest⟩
      · cases read : disk.readText path <;> simp [read, Except.mapError] at unread
      rcases Reading.bind_eq_error.mp rest with faulty | ⟨value, -, rest⟩
      · cases made : reader text with
        | error rejection =>
            cases rejection <;>
              simp [made, Except.mapError, ConfigurationFailure.ofRejection] at faulty
        | ok value => simp [made, Except.mapError] at faulty
      rcases Reading.bind_eq_error.mp rest with unasked | ⟨jobs, -, none⟩
      · cases asked : jobsOf (Shown.view value) with
        | error fault =>
            simp only [asked, Except.mapError, Except.error.injEq,
              ConfigurationFailure.invalid.injEq] at unasked
            exact absurd (unasked ▸ asked) jobsOf_ne_notFound
        | ok jobs => simp [asked, Except.mapError] at unasked
      · cases none

/-- The wording of a fault in a configuration with a name of one line has one line exactly
if the reader's account of its text has. -/
theorem isLine_message_of_load {name : Text} {fault : ConfigurationFault}
    (refused : load reader disk (Path.ofText name) = .error (.invalid fault))
    (single : Text.IsLine name) :
    Text.IsLine fault.message ↔
      ∀ account, fault = .malformed account → Text.IsLine account := by
  apply ConfigurationFault.isLine_message
  rintro missing rfl
  rw [path_of_notFound refused]
  exact Path.isLine_text_ofText single

end Configuration

/-! ## Requests -/

namespace Request

variable {Value : Type} [Shown Char Value] {reader : Reader Value} {disk : Disk}
  {request : Request}

/-- A request for a configuration that is not loaded fails with what kept it from
being loaded. -/
theorem run_of_unloaded {failure : ConfigurationFailure}
    (unloaded : Configuration.load reader disk (Path.ofText request.configuration) =
      .error failure) :
    request.run reader disk = .error (.configuration failure) := by
  rw [run, unloaded]
  rfl

/-- The directory that paths are seen from is found unless its name cannot be one. -/
theorem exists_baseOf_iff {path : Path} (noNul : path.hasNul = false) :
    (∃ base, request.baseOf disk path = .ok base) ↔
      ∀ directory ∈ request.base, '\x00' ∉ directory := by
  obtain ⟨configuration, base⟩ := request
  match base with
  | none => simp [baseOf, Disk.resolve, noNul, Except.map]
  | some [] => simp [baseOf, Disk.resolve, noNul, Except.map]
  | some (c :: name) =>
      simp only [baseOf, Disk.resolve, Option.mem_some_iff, forall_eq',
        ← Path.hasNul_ofText]
      cases (Path.ofText (c :: name)).hasNul <;> simp

/-- A request ends with outcomes or with a fault exactly if its configuration can be
read and, once that is loaded, its directory is no impossible name. -/
theorem run_ends_iff :
    ((∃ run, request.run reader disk = .ok run) ∨
      ∃ fault, request.run reader disk = .error (.configuration (.invalid fault))) ↔
      Configuration.IsReadable reader disk (Path.ofText request.configuration) ∧
      ((∃ configuration,
          Configuration.load reader disk (Path.ofText request.configuration) =
            .ok configuration) →
        ∀ directory ∈ request.base, '\x00' ∉ directory) := by
  rw [← Configuration.load_ends_iff]
  cases loaded : Configuration.load reader disk (Path.ofText request.configuration) with
  | error failure => simp [run_of_unloaded loaded]
  | ok configuration =>
      obtain ⟨own, noNul, -⟩ := Configuration.path_of_load loaded
      have found : (∃ base,
          request.baseOf disk (Path.ofText request.configuration) = .ok base) ↔
            ∀ directory ∈ request.base, '\x00' ∉ directory := exists_baseOf_iff noNul
      rw [run, loaded, ← found, ← own]
      cases based : request.baseOf disk configuration.path with
      | error error => simp [based, bind, Except.bind, Except.mapError]
      | ok base =>
          simp [based, bind, Except.bind, Except.mapError, pure, Except.pure]

end Request

/-! ## The command line -/

namespace Shell

variable {Value : Type} {shell : Shell Value}

/-- The outputs of a run that were written can be printed. -/
def Prints (shell : Shell Value) (outcomes : List Outcome) : Prop :=
  ∀ outcome ∈ outcomes, outcome.succeeded = true →
    shell.prints outcome.outputPath.text = true

/-- A report is printed exactly if all of its lines can be. -/
theorem print_eq_ok_iff {log : List Text} {report printed : Report} :
    shell.print log report = .ok printed ↔
      report = printed ∧ ∀ line ∈ report.output, shell.prints line = true := by
  rw [print, ← List.dropWhile_eq_nil_iff]
  split
  · rename_i all
    simp [all]
  · rename_i line rest stopped
    simp [stopped]

theorem print_ofRun_eq_ok_iff {log : List Text} {level : Level} {run : Run (List Outcome)}
    {printed : Report} :
    shell.print log (Report.ofRun level run) = .ok printed ↔
      Report.ofRun level run = printed ∧ shell.Prints run.result := by
  rw [print_eq_ok_iff, Prints]
  refine and_congr_right fun _ => ?_
  simp only [Report.ofRun, List.forall_mem_map, List.mem_filter, and_imp]

end Shell

namespace Configuration

variable {Value : Type} [Shown Char Value] {shell : Shell Value} {disk : Disk} {name : Text}

/-- On the command line, the name of a configuration gives a report or ends without
one as the request for it does. -/
theorem runCommandLine_mix (takes : shell.TakesSettings)
    (fit : (⟨name, none⟩ : Request).IsFit disk) :
    runCommandLine shell disk ["mix", "--config", name] =
      (Order.mix { configuration := name }).run shell disk .info := by
  have ordered : shell.order disk ["mix", "--config", name] =
      .ok (.info, .mix { configuration := name }) :=
    takes.order disk [⟨"--config", name, false⟩] (by simp [Setting.IsKnown]) fit
  rw [runCommandLine, ordered]

/-- There is a report exactly if the configuration can be read and what was written can be
printed. -/
theorem exists_report_iff (takes : shell.TakesSettings)
    (fit : (⟨name, none⟩ : Request).IsFit disk) :
    (∃ report, (runCommandLine shell disk ["mix", "--config", name]).2 = .ok report) ↔
      IsReadable shell.reader disk (Path.ofText name) ∧
      ∀ run, Request.run shell.reader disk ⟨name, none⟩ = .ok run →
        shell.Prints run.result := by
  have ends := @Request.run_ends_iff Value _ shell.reader disk { configuration := name }
  simp only [Option.not_mem_none, false_imp_iff, implies_true, and_true] at ends
  rw [runCommandLine_mix takes fit, ← ends, Order.run]
  cases Request.run shell.reader disk { configuration := name } with
  | ok run => simp [Shell.print_ofRun_eq_ok_iff]
  | error failure =>
      cases failure with
      | path error => simp
      | configuration failure => cases failure <;> simp

/-- The code to exit with is that of a success or of a failure. -/
theorem exitCode_of_report (takes : shell.TakesSettings)
    (fit : (⟨name, none⟩ : Request).IsFit disk) {report : Report}
    (reported : (runCommandLine shell disk ["mix", "--config", name]).2 = .ok report) :
    report.exitCode ≤ 1 := by
  rw [runCommandLine_mix takes fit, Order.run] at reported
  split at reported
  · obtain ⟨rfl, -⟩ := Shell.print_ofRun_eq_ok_iff.mp reported
    simp only [Report.ofRun]
    split_ifs <;> simp
  · obtain rfl := Except.ok.inj reported
    exact Nat.le_refl 1
  · cases reported

/-- A fault is all that is reported, and the disk is left as it is. -/
theorem runCommandLine_mix_of_fault (takes : shell.TakesSettings)
    (fit : (⟨name, none⟩ : Request).IsFit disk) {fault : ConfigurationFault}
    (refused : load shell.reader disk (Path.ofText name) = .error (.invalid fault)) :
    runCommandLine shell disk ["mix", "--config", name] =
      (disk, .ok { exitCode := 1, output := [], errors := [fault.message] }) := by
  rw [runCommandLine_mix takes fit, Order.run, Request.run_of_unloaded refused]
  rfl

/--
Whatever reads its text, a configuration is loaded or refused with a fault exactly if it
can be read; the wording of a fault has one line if the name of the configuration has one,
unless it holds an account of several lines of a text that is not well-formed.  A request
for the configuration then ends with outcomes or with the fault, unless the directory it
names cannot be one.  Where a shell takes the name for such a request, the command line
then ends with a report and the code 0 or 1, unless what was written cannot be printed;
the report of a fault is its wording alone.  Whatever cannot be read ends a request and
the command line without any report.
-/
theorem fails_cleanly_iff {Letter Known : Type} [Alphabet Letter] [DecidableEq Letter]
    [Shown Letter Known] (reader : Reader Known) (takes : shell.TakesSettings) (disk : Disk)
    (name : Text) :
    let path := Path.ofText name
    ((∃ configuration, load reader disk path = .ok configuration) ∨
      (∃ fault, load reader disk path = .error (.invalid fault)) ↔
        IsReadable reader disk path) ∧
    (∀ fault, load reader disk path = .error (.invalid fault) → Text.IsLine name →
      (Text.IsLine fault.message ↔
        ∀ account, fault = .malformed account → Text.IsLine account)) ∧
    (∀ base, (∃ run, Request.run shell.reader disk ⟨name, base⟩ = .ok run) ∨
        (∃ fault, Request.run shell.reader disk ⟨name, base⟩ =
          .error (.configuration (.invalid fault))) ↔
      IsReadable shell.reader disk path ∧
        ((∃ configuration, load shell.reader disk path = .ok configuration) →
          ∀ directory ∈ base, '\x00' ∉ directory)) ∧
    ((⟨name, none⟩ : Request).IsFit disk →
      let ended := runCommandLine shell disk ["mix", "--config", name]
      ((∃ report, ended.2 = .ok report) ↔ IsReadable shell.reader disk path ∧
        ∀ run, Request.run shell.reader disk ⟨name, none⟩ = .ok run →
          shell.Prints run.result) ∧
      (∀ report, ended.2 = .ok report → report.exitCode ≤ 1) ∧
      ∀ fault, load shell.reader disk path = .error (.invalid fault) →
        ended = (disk, .ok { exitCode := 1, output := [], errors := [fault.message] })) :=
  ⟨load_ends_iff, fun _ => isLine_message_of_load, fun _ => Request.run_ends_iff,
    fun fit => ⟨exists_report_iff takes fit, fun _ => exitCode_of_report takes fit,
      fun _ => runCommandLine_mix_of_fault takes fit⟩⟩

/-- Files that are refused or cannot be read: an empty list of mixers, a directory, an
octet that starts no character, a month that no year has, and a file on a bad sector. -/
def troublesome : Disk where
  entries := [
    (["empty"], .file (Utf8.encode "mixers: []")),
    (["directory"], .directory),
    (["octets"], .file [0xFF]),
    (["month"], .file (Utf8.encode "mixers: 2024-13-01")),
    (["sector"], .file (Utf8.encode "mixers: []"))]
  device := { reading := fun location =>
    if location = ["sector"] then some (.brokenOff .faulty 0) else none }

/-- Of the five only the empty list gives a report. -/
theorem fails_cleanly_iff_troublesome :
    load Yaml.reader troublesome (Path.ofText "empty") = .error (.invalid .mixersEmpty) ∧
      runCommandLine Program.shell troublesome ["mix", "--config", "empty"] =
        (troublesome, .ok {
          exitCode := 1, output := []
          errors := ["mixers must contain at least one mixer."] }) ∧
      ∀ name ∈ [("directory" : Text), "octets", "month", "sector"],
        ¬ ∃ report,
          (runCommandLine Program.shell troublesome ["mix", "--config", name]).2 =
            .ok report := by
  have refused : load Yaml.reader troublesome (Path.ofText "empty") =
      .error (.invalid .mixersEmpty) := by decide +kernel
  have fit : ∀ name ∈ [("empty" : Text), "directory", "octets", "month", "sector"],
      (⟨name, none⟩ : Request).IsFit troublesome := by
    simp only [List.forall_mem_cons, List.not_mem_nil, false_imp_iff, implies_true, and_true]
    refine ⟨?_, ?_, ?_, ?_, ?_⟩ <;> exact ⟨by decide, by decide +kernel, nofun⟩
  obtain ⟨-, -, -, commands⟩ :=
    fails_cleanly_iff Yaml.reader Program.takesSettings_shell troublesome "empty"
  refine ⟨refused, (commands (fit _ List.mem_cons_self)).2.2 _ refused, ?_⟩
  have escapes : ∀ name ∈ [("directory" : Text), "octets", "month", "sector"],
      ∃ failure, load Yaml.reader troublesome (Path.ofText name) = .error failure ∧
        ∀ fault, failure ≠ .invalid fault := by
    simp only [List.forall_mem_cons, List.not_mem_nil, false_imp_iff, implies_true,
      and_true]
    refine ⟨⟨.unreadable (.disk (.refused .isDirectory (Path.ofText "directory"))), ?_⟩,
      ⟨.unreadable (.undecodable ⟨0, [0xFF], .start⟩), ?_⟩,
      ⟨.impossible "ValueError", ?_⟩,
      ⟨.unreadable (.disk (.brokenOff .faulty)), ?_⟩⟩ <;>
      exact ⟨by decide +kernel, fun _ => nofun⟩
  intro name member reported
  obtain ⟨failure, unloaded, unclean⟩ := escapes name member
  obtain ⟨ends, -, -, commands⟩ :=
    fails_cleanly_iff Yaml.reader Program.takesSettings_shell troublesome name
  have readable := ((commands (fit _ (List.mem_cons_of_mem _ member))).1.mp reported).1
  rcases ends.mpr readable with ⟨_, loaded⟩ | ⟨fault, refused⟩
  · simp [unloaded] at loaded
  · exact unclean fault (Except.error.inj (unloaded.symm.trans refused))

end Configuration

end SchemaCompose
