import SchemaCompose.Mix.Document

/-!
# Configuration templates

A template is a configuration to be filled in.  It is never written over something
that is there.
-/

namespace SchemaCompose

/-- The name of a configuration where none is given. -/
def defaultConfigurationName : Text :=
  "schemamix.config.yaml"

/-- The template. -/
def configurationTemplate : Text :=
  Text.unlines [
    "# Mixer configuration template for schemamix.",
    "# Replace every <REQUIRED> placeholder before running mix.",
    "# Relative paths resolve against the base directory (default: this file's directory).",
    "",
    "mixers:",
    "  # Each mixer composes its input schemas, in the listed order, into one output schema.",
    "  # Later inputs win when the same field of the same model is declared twice.",
    "  - input:",
    "      - \"<REQUIRED>\"",
    "      # - \"prisma/contexts/**/*.prisma\"",
    "    output: \"<REQUIRED>\"",
    ""]

/-- Why no template is written. -/
inductive ScaffoldFailure where
  /-- Something stands at the path already. -/
  | occupied (resolved : Path)
  /-- The disk refuses it. -/
  | disk (error : DiskError)
deriving DecidableEq, Repr, Inhabited

namespace ScaffoldFailure

/-- The wording of a failure. -/
def message : ScaffoldFailure → Text
  | .occupied resolved =>
    "Mixer configuration file already exists: " ++ resolved.text
  | .disk error => error.message

end ScaffoldFailure

namespace Disk

/-- Write the template to a path where nothing stands yet, and give the path from the
root to it. -/
def writeTemplate (disk : Disk) (path : Path) : Disk × Except ScaffoldFailure Path :=
  match disk.status path with
  | .error error => (disk, .error (.disk error))
  | .ok (some _) =>
    match disk.resolve path with
    | .ok resolved => (disk, .error (.occupied resolved))
    | .error error => (disk, .error (.disk error))
  | .ok none =>
    match disk.writeText path configurationTemplate with
    | (changed, .ok ()) => (changed, (changed.resolve path).mapError .disk)
    | (changed, .error error) => (changed, .error (.disk error))

end Disk

end SchemaCompose
