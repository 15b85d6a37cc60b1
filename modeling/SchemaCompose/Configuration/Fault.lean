import SchemaCompose.Configuration.Value
import SchemaCompose.Mix.Document

/-!
# Faults of a configuration

Every reason for which a configuration is refused, with its wording in one place.
-/

namespace SchemaCompose

/-- A part of a mixer that holds text. -/
inductive TextPart where
  /-- An entry of the list of input patterns. -/
  | pattern
  /-- The output. -/
  | output
deriving DecidableEq, Repr, Inhabited

namespace TextPart

/-- The name of a part. -/
def name : TextPart → Text
  | .pattern => "input entries"
  | .output => "output"

end TextPart

/-- Why a configuration is refused. Mixers are counted from zero. -/
inductive ConfigurationFault where
  /-- There is no file. -/
  | notFound (path : Path)
  /-- The text of the file is not well-formed. -/
  | malformed (account : Text)
  /-- The file holds something else than a mapping. -/
  | rootNotMapping
  /-- There are no mixers. -/
  | mixersMissing
  /-- The mixers are no list. -/
  | mixersNotList
  /-- The list of mixers is empty. -/
  | mixersEmpty
  /-- A mixer is no mapping. -/
  | mixerNotMapping (index : Nat)
  /-- A mixer has no input. -/
  | inputMissing (index : Nat)
  /-- The input of a mixer is neither text nor a list. -/
  | inputNotText (index : Nat)
  /-- The input of a mixer has no pattern. -/
  | inputEmpty (index : Nat)
  /-- A part of a mixer is no text. -/
  | notText (index : Nat) (part : TextPart)
  /-- A part of a mixer is blank. -/
  | blank (index : Nat) (part : TextPart)
deriving DecidableEq, Repr, Inhabited

namespace ConfigurationFault

/-- The name of a mixer. -/
def mixer (index : Nat) : Text :=
  "mixers[" ++ Text.ofNat index ++ "]"

/-- The wording of a fault. -/
def message : ConfigurationFault → Text
  | .notFound path => "Configuration file not found: " ++ path.text
  | .malformed account => "Failed to parse configuration file: " ++ account
  | .rootNotMapping => "Configuration root must be a mapping."
  | .mixersMissing => "Configuration section 'mixers' is required."
  | .mixersNotList => "mixers must be a list of mixer definitions."
  | .mixersEmpty => "mixers must contain at least one mixer."
  | .mixerNotMapping index =>
    "Configuration section '" ++ mixer index ++ "' must be a mapping."
  | .inputMissing index => mixer index ++ ".input is required."
  | .inputNotText index =>
    mixer index ++ ".input must be a string or list of strings."
  | .inputEmpty index => mixer index ++ ".input must contain at least one pattern."
  | .notText index part => mixer index ++ "." ++ part.name ++ " must be a string."
  | .blank index part => mixer index ++ "." ++ part.name ++ " must not be empty."

end ConfigurationFault

/-- Why no configuration is loaded. -/
inductive ConfigurationFailure where
  /-- The configuration is refused. -/
  | invalid (fault : ConfigurationFault)
  /-- Its file cannot be read. -/
  | unreadable (failure : ReadFailure)
  /-- A value in it cannot be made. -/
  | impossible (error : Text)
deriving DecidableEq, Repr, Inhabited

namespace ConfigurationFailure

/-- The failure that a rejected text amounts to. A text that is not well-formed is
refused. -/
def ofRejection : Rejection → ConfigurationFailure
  | .malformed account => .invalid (.malformed account)
  | .impossible error => .impossible error

/-- The wording of a failure. -/
def message : ConfigurationFailure → Text
  | .invalid fault => fault.message
  | .unreadable failure => failure.message
  | .impossible error => error

end ConfigurationFailure

end SchemaCompose
