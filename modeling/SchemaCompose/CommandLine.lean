import SchemaCompose.Configuration.Scaffold
import SchemaCompose.Mix.Request

/-!
# Command line

The arguments make an order, the order is carried out on a disk, and a report says what
to print and how to exit.  `mix` runs the jobs of a configuration, `generate-config`
writes a template of one.  How the arguments and the text of a configuration are read,
and what can be printed, is left to what the command runs in.
-/

namespace SchemaCompose

/-- What the arguments ask for. -/
inductive Order where
  /-- Run the jobs of a configuration. -/
  | mix (request : Request)
  /-- Write a template to a path. -/
  | generate (path : Text)
deriving DecidableEq, Repr, Inhabited

/-- How the reading of arguments ends without an order. -/
inductive Refused where
  /-- The arguments are wrong, with the code to exit with. -/
  | usage (exitCode : Nat)
  /-- A text about the program is asked for. -/
  | help
  /-- The reading is broken off from outside. -/
  | aborted
  /-- A path among the arguments cannot be followed. -/
  | path (error : DiskError)
deriving DecidableEq, Repr, Inhabited

/-- What a command runs in: how the text of a configuration is read, the level of log
records and the order that arguments make, and the lines that standard output takes. -/
structure Shell (Value : Type) where
  reader : Reader Value
  order : Disk → List Text → Except Refused (Level × Order)
  prints : Text → Bool

/-- What is printed at the end, and the code to exit with. -/
structure Report where
  exitCode : Nat := 0
  /-- The lines of standard output. -/
  output : List Text := []
  /-- The lines of the error output. -/
  errors : List Text := []
deriving DecidableEq, Repr, Inhabited

/-- What ends a command without a report. -/
inductive CommandFailure where
  /-- A request that is not carried out, which is no fault of the configuration. -/
  | request (failure : RequestFailure)
  /-- A line that standard output does not take, behind what was printed before. -/
  | unprintable (output errors : List Text) (line : Text)
deriving DecidableEq, Repr, Inhabited

namespace CommandFailure

/-- The wording of a failure. -/
def message : CommandFailure → Text
  | .request failure => failure.message
  | .unprintable _ _ line => "a line cannot be printed: " ++ Text.quoted line

end CommandFailure

namespace Report

/-- The line of a log record. -/
def logLine (record : Record) : Text :=
  record.level.name ++ " " ++ record.origin ++ ": " ++ record.message

/-- The lines of the records that are at least as grave as a level. -/
def logLines (level : Level) (records : List Record) : List Text :=
  (records.filter fun record => level.rank ≤ record.level.rank).map logLine

/-- The line about the outcomes that failed. -/
def failureLine (failed : List Outcome) : Text :=
  Text.ofNat failed.length ++ " mixer(s) could not be written: " ++
    Text.join [';', ' '] (failed.map fun outcome =>
      outcome.outputPath.text ++ ": " ++
        (outcome.error.map DiskError.message).getD [])

/-- The report on a run of jobs: the outputs that were written, and what became of
the others. -/
def ofRun (level : Level) (run : Run (List Outcome)) : Report :=
  let failed := run.result.filter (!·.succeeded)
  let log := logLines level run.records
  { exitCode := if failed = [] then 0 else 1
    output := (run.result.filter (·.succeeded)).map fun outcome =>
      outcome.outputPath.text
    errors := if failed = [] then log else log ++ [failureLine failed] }

/-- The report on what kept an order from being carried out. -/
def complaint (message : Text) : Report :=
  { exitCode := 1, errors := [message] }

end Report

namespace Shell

variable {Value : Type}

/-- Print the lines of a report behind a log. The first line that is not taken ends the
command, before anything is said about failures. -/
def print (shell : Shell Value) (log : List Text) (report : Report) :
    Except CommandFailure Report :=
  match report.output.dropWhile shell.prints with
  | [] => .ok report
  | line :: _ =>
    .error (.unprintable (report.output.takeWhile shell.prints) log line)

end Shell

namespace Order

variable {Value : Type} [Shown Char Value]

/-- Carry out an order: the disk afterwards and the report. What is no fault of the
configuration or of the disk ends without a report. -/
def run (shell : Shell Value) (disk : Disk) (level : Level) :
    Order → Disk × Except CommandFailure Report
  | .mix request =>
    match request.run shell.reader disk with
    | .ok run =>
      (run.disk,
        shell.print (Report.logLines level run.records) (Report.ofRun level run))
    | .error (.configuration (.invalid fault)) =>
      (disk, .ok (.complaint fault.message))
    | .error failure => (disk, .error (.request failure))
  | .generate path =>
    match disk.writeTemplate (Path.ofText path) with
    | (changed, .ok resolved) =>
      (changed, shell.print [] { output := [resolved.text] })
    | (changed, .error (.disk .embeddedNul)) =>
      (changed, .error (.request (.path .embeddedNul)))
    | (changed, .error failure) => (changed, .ok (.complaint failure.message))

end Order

/-- Carry out what the arguments ask for. -/
def runCommandLine {Value : Type} [Shown Char Value] (shell : Shell Value)
    (disk : Disk) (given : List Text) : Disk × Except CommandFailure Report :=
  match shell.order disk given with
  | .ok (level, order) => order.run shell disk level
  | .error (.usage exitCode) => (disk, .ok { exitCode })
  | .error .help => (disk, .ok {})
  | .error .aborted => (disk, .ok (.complaint "Aborted."))
  | .error (.path error) => (disk, .error (.request (.path error)))

end SchemaCompose
