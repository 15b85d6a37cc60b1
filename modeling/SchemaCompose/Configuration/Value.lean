import SchemaCompose.Text.Basic

/-!
# Values in a configuration

What the text of a configuration stands for is read by other means.  Here a value is
known by what it shows of itself: its kind, its letters or octets, and the values that
it is made of.  These are looked at in the same way, so that a value may as well lie
within itself.
-/

namespace SchemaCompose

/-- The letters that the texts of values are made of. Every character is one of them;
there may be others, such as halves of a character. -/
class Alphabet (Letter : Type) where
  /-- The letter of a character. -/
  ofChar : Char → Letter
  /-- A letter of white space. -/
  isBlank : Letter → Bool

instance : Alphabet Char where
  ofChar := id
  isBlank := Text.isBlank

namespace Alphabet

variable {Letter : Type} [Alphabet Letter]

/-- A text in the letters of an alphabet. -/
def spell (text : Text) : List Letter :=
  text.map ofChar

/-- Letters without the white space at either end. -/
def trim (letters : List Letter) : List Letter :=
  ((letters.dropWhile isBlank).reverse.dropWhile isBlank).reverse

end Alphabet

/-- What a value shows of itself. Which number or which moment it is, is never asked
for. -/
inductive View (Letter Value : Type) where
  | null
  | truth (holds : Bool)
  | number
  | moment
  | text (letters : List Letter)
  | octets (row : List UInt8)
  | set
  | sequence (items : List Value)
  | mapping (entries : List (Value × Value))
deriving Repr, Inhabited

/-- Values that show what they are. -/
class Shown (Letter : outParam Type) (Value : Type) where
  view : Value → View Letter Value

/-- Why a text stands for no value. -/
inductive Rejection where
  /-- The text is not well-formed, of which there is an account. -/
  | malformed (account : Text)
  /-- A value in it cannot be made, which is an error of the given name. -/
  | impossible (error : Text)
deriving DecidableEq, Repr, Inhabited

/-- A reading of texts as values. -/
abbrev Reader (Value : Type) := Text → Except Rejection Value

namespace View

variable {Letter Value : Type} [Shown Letter Value]

/-- What the items of a value show, if it has a sequence of them. Octets are a sequence
of numbers. -/
def items? : View Letter Value → Option (List (View Letter Value))
  | .sequence items => some (items.map Shown.view)
  | .octets row => some (row.map fun _ => .number)
  | _ => none

variable [Alphabet Letter] [DecidableEq Letter]

/-- What stands under a text key of a mapping; a key that is repeated has its last
value. -/
def get? (key : Text) : View Letter Value → Option (View Letter Value)
  | .mapping entries =>
    (entries.reverse.find? fun entry =>
      match Shown.view entry.1 with
      | .text letters => letters = Alphabet.spell key
      | _ => false).map fun entry => Shown.view entry.2
  | _ => none

/-- What stands under a key, where nothing counts as absent. -/
def present? (key : Text) (value : View Letter Value) : Option (View Letter Value) :=
  match value.get? key with
  | some .null => none
  | found => found

end View

end SchemaCompose
