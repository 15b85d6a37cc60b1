import SchemaCompose.Configuration.Fault
import SchemaCompose.Mix.Job

/-!
# Configurations

A configuration is a file and the jobs that it asks for.  The value that the text of
the file stands for is a mapping whose `mixers` are a list; every mixer has input
patterns, one or a list, and an output.
-/

namespace SchemaCompose

/-- A file and the jobs that it asks for. -/
structure Configuration (Letter : Type) where
  path : Path
  jobs : List (JobOver Letter)
deriving DecidableEq, Repr, Inhabited

namespace Configuration

variable {Letter Value : Type} [Alphabet Letter] [DecidableEq Letter]

/-- The trimmed text of a part of a mixer, which may not be blank. -/
def partText (index : Nat) (part : TextPart) :
    View Letter Value → Except ConfigurationFault (List Letter)
  | .text letters =>
    match Alphabet.trim letters with
    | [] => .error (.blank index part)
    | trimmed => .ok trimmed
  | _ => .error (.notText index part)

variable [Shown Letter Value]

/-- The patterns of an input that is a text or a list of texts. -/
def patterns (index : Nat) (input : View Letter Value) :
    Except ConfigurationFault (List (List Letter)) :=
  match input, input.items? with
  | .text letters, _ =>
    .ok (if Alphabet.trim letters = [] then [] else [Alphabet.trim letters])
  | _, some items => items.mapM (partText index .pattern)
  | _, none => .error (.inputNotText index)

/-- The input of a mixer, which has at least one pattern. -/
def inputs (index : Nat) :
    Option (View Letter Value) → Except ConfigurationFault (List (List Letter))
  | none => .error (.inputMissing index)
  | some input => do
    match ← patterns index input with
    | [] => throw (.inputEmpty index)
    | found => return found

/-- The job of a mixer. -/
def job (index : Nat) :
    View Letter Value → Except ConfigurationFault (JobOver Letter)
  | .mapping entries => do
    let mixer := View.mapping entries
    let inputs ← inputs index (mixer.present? "input")
    let output ← partText index .output ((mixer.get? "output").getD .null)
    return { inputs, output }
  | _ => .error (.mixerNotMapping index)

/-- The jobs of a row of mixers, where the first has the given number. -/
def jobsFrom : (index : Nat) → List (View Letter Value) →
    Except ConfigurationFault (List (JobOver Letter))
  | _, [] => .ok []
  | index, mixer :: mixers => do
    let first ← job index mixer
    let rest ← jobsFrom (index + 1) mixers
    return first :: rest

/-- The jobs of the mixers of a configuration. -/
def jobsOfMixers (mixers : View Letter Value) :
    Except ConfigurationFault (List (JobOver Letter)) :=
  match mixers.items? with
  | none => .error .mixersNotList
  | some [] => .error .mixersEmpty
  | some items => jobsFrom 0 items

/-- The jobs that a value asks for. Nothing counts as an empty mapping. -/
def jobsOf : View Letter Value → Except ConfigurationFault (List (JobOver Letter))
  | .null => .error .mixersMissing
  | .mapping entries =>
    match (View.mapping entries).present? "mixers" with
    | none => .error .mixersMissing
    | some mixers => jobsOfMixers mixers
  | _ => .error .rootNotMapping

/-- The configuration in the file at a path, whose text is read by a reader. -/
def load (reader : Reader Value) (disk : Disk) (path : Path) :
    Except ConfigurationFailure (Configuration Letter) := do
  match ← (disk.status path).mapError
    (ConfigurationFailure.unreadable ∘ ReadFailure.disk) with
  | none => throw (.invalid (.notFound path))
  | some _ =>
    let text ← (disk.readText path).mapError .unreadable
    let value ← (reader text).mapError ConfigurationFailure.ofRejection
    let jobs ← (jobsOf (Shown.view value)).mapError .invalid
    return { path, jobs }

end Configuration

end SchemaCompose
