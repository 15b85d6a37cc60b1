import SchemaCompose.CommandLine
import SchemaCompose.Text.Word

/-!
# Arguments of the program

The arguments are options with values, flags, and arguments that belong to no option.
The program itself takes a level for its log; behind the name of a command stand the
options of that command, which all take paths.
-/

namespace SchemaCompose.Program

/-- What the arguments of one command hold: the options with their values in order,
whether a flag is among them, and the arguments that belong to no option. -/
structure Arguments where
  options : List (Text × Text) := []
  flagged : Bool := false
  rest : List Text := []
deriving DecidableEq, Repr, Inhabited

/-- The options that a command takes, the flags that only print something, and
whether options may stand behind other arguments. -/
structure Accepted where
  options : List Text
  flags : List Text
  interspersed : Bool
deriving DecidableEq, Repr, Inhabited

namespace Arguments

/-- An argument that is an option: a dash and something behind it. -/
def isOption : Text → Bool
  | '-' :: _ :: _ => true
  | _ => false

/-- The flag of a single letter. -/
def letterFlag : Char := 'h'

/-- Read the arguments of a command. A value may be joined to its option by an
equals sign; two dashes end the options. An option that is not accepted, or lacks
its value, makes all unreadable. -/
def read (accepted : Accepted) : List Text → Option Arguments
  | [] => some {}
  | argument :: arguments =>
    if argument = ("--" : Text) then some { rest := arguments }
    else if !isOption argument then
      if accepted.interspersed then
        (read accepted arguments).map fun read =>
          { read with rest := argument :: read.rest }
      else some { rest := argument :: arguments }
    else
      match Text.cutAt '=' argument with
      | (name, joined) =>
        if accepted.options.contains name then
          match joined, arguments with
          | some value, arguments =>
            (read accepted arguments).map fun read =>
              { read with options := (name, value) :: read.options }
          | none, value :: arguments =>
            (read accepted arguments).map fun read =>
              { read with options := (name, value) :: read.options }
          | none, [] => none
        else if (accepted.flags.contains name && joined.isNone) ||
            (!Text.startsWith "--" argument &&
              (argument.drop 1).all (· = letterFlag)) then
          (read accepted arguments).map fun read => { read with flagged := true }
        else none

/-- The value of an option: that of its last mention. -/
def last? (name : Text) (arguments : Arguments) : Option Text :=
  arguments.options.reverse.lookup name

/-- The value of every option that is mentioned, in the order of first mention. -/
def settled (arguments : Arguments) : Registry Text Text :=
  arguments.options.foldl (fun settled (name, value) => settled.put name value) []

end Arguments

/-- The level of a name, in any case of its letters. -/
def levelOfName? (name : Text) : Option Level :=
  [.debug, .info, .warning, .error].find? fun level =>
    level.name = name.map Char.toUpper

/-- The code to exit with when the arguments are wrong. -/
def usageExitCode : Nat := 2

/-- The arguments of a command, unless a flag among them asks for a text. -/
def argumentsOf (accepted : Accepted) (given : List Text) :
    Except Refused Arguments :=
  match Arguments.read accepted given with
  | none => .error (.usage usageExitCode)
  | some arguments => if arguments.flagged then .error .help else .ok arguments

/-- Check the path given to an option. No file there may be closed, and the base
directory may not be a file. -/
def checkPath (disk : Disk) (option path : Text) : Except Refused Unit :=
  if path.contains '\x00' then .error (.path .embeddedNul)
  else if disk.isClosed path then .error (.usage usageExitCode)
  else
    match disk.find path with
    | .ok (.file _) =>
      if option = ("--base-dir" : Text) then .error (.usage usageExitCode) else .ok ()
    | _ => .ok ()

/-- The arguments of a command that takes only paths. -/
def paths (disk : Disk) (options : List Text) (given : List Text) :
    Except Refused Arguments := do
  let arguments ← argumentsOf
    { options, flags := ["--help"], interspersed := true } given
  arguments.settled.forM fun (option, path) => checkPath disk option path
  if arguments.rest = [] then return arguments else throw (.usage usageExitCode)

/-- The order that a command and its arguments make. A command that does not start
like a word is taken for a call for help. -/
def orderOfCommand (disk : Disk) (command : Text) (given : List Text) :
    Except Refused Order :=
  if command = ("mix" : Text) then do
    let arguments ← paths disk ["--config", "--base-dir"] given
    return .mix {
      configuration := (arguments.last? "--config").getD defaultConfigurationName
      base := arguments.last? "--base-dir" }
  else if command = ("generate-config" : Text) then do
    let arguments ← paths disk ["--output"] given
    return .generate ((arguments.last? "--output").getD defaultConfigurationName)
  else
    match command with
    | c :: _ =>
      if Text.isWord c && c ≠ '_' then .error (.usage usageExitCode) else .error .help
    | [] => .error (.usage usageExitCode)

/-- The level of log records and the order that all arguments make. -/
def order (disk : Disk) (given : List Text) :
    Except Refused (Level × Order) := do
  if given = [] then throw .help
  let arguments ← argumentsOf
    { options := ["--log-level"], flags := ["--help", "--version"],
      interspersed := false } given
  match levelOfName? ((arguments.last? "--log-level").getD Level.info.name) with
  | none => throw (.usage usageExitCode)
  | some level =>
    match arguments.rest with
    | [] => throw (.usage usageExitCode)
    | command :: rest => return (level, ← orderOfCommand disk command rest)

end SchemaCompose.Program
