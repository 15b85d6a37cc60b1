import SchemaCompose.Configuration.Value
import SchemaCompose.Text.Utf8

/-!
# Characters of YAML

The classes of characters that YAML tells apart, and what a text may go on with
behind a token.  Every way of ending a line counts as a line feed but the line and
the paragraph separator, which stand for themselves.
-/

namespace SchemaCompose.Yaml

/-- Why a text stands for no value. -/
inductive Fault where
  /-- The text breaks a rule of YAML, or a tag does not fit what it stands
  before. -/
  | malformed
  /-- An escape names a number that belongs to no character. -/
  | noSuchCharacter
  /-- An escape names a number beyond every machine integer. -/
  | numberTooLarge
  /-- A number has no digits at all. -/
  | emptyNumber
  /-- Text under a tag for numbers is no number. -/
  | notNumber
  /-- Text under the tag for truth values is none. -/
  | notTruth
  /-- Text under the tag for moments is none. -/
  | notMoment
  /-- A date or a time of day that no calendar has. -/
  | impossibleMoment
deriving DecidableEq, Repr, Inhabited

namespace Fault

/-- The rejection of a text that a fault leads to. -/
def rejection : Fault → Rejection
  | .malformed => .malformed "the text breaks a rule of YAML"
  | .emptyNumber => .impossible "IndexError"
  | .numberTooLarge => .impossible "OverflowError"
  | .notTruth => .impossible "KeyError"
  | .notMoment => .impossible "AttributeError"
  | .noSuchCharacter | .notNumber | .impossibleMoment => .impossible "ValueError"

end Fault

/-- The code points that a text may hold. -/
def allowedRanges : List (Nat × Nat) :=
  [(0x09, 0x0A), (0x0D, 0x0D), (0x20, 0x7E), (0x85, 0x85), (0xA0, 0xD7FF),
   (0xE000, 0xFFFD), (0x10000, 0x10FFFF)]

/-- A character that a text may hold. -/
def isAllowed (c : Char) : Bool :=
  Text.inRanges allowedRanges c.toNat

/-- A text with its ends of lines written in one way. -/
def normalized (text : Text) : Text :=
  (Utf8.normalizeNewlines text).map fun c => if c = '\x85' then '\n' else c

/-- A character that ends a line. -/
def isBreak (c : Char) : Bool :=
  c = '\n' || c = '\u2028' || c = '\u2029'

/-- A space or a tab. -/
def isWhite (c : Char) : Bool :=
  c = ' ' || c = '\t'

/-- White space or the end of a line. -/
def isGap (c : Char) : Bool :=
  isWhite c || isBreak c

/-- A letter, digit, dash or underscore of ASCII. -/
def isNameCharacter (c : Char) : Bool :=
  c.isAlphanum || c = '-' || c = '_'

/-- A character that a tag may hold. -/
def isTagCharacter (c : Char) : Bool :=
  c.isAlphanum || "-;/?:@&=+$,_.!~*'()[]%".toList.contains c

/-- A hexadecimal digit of ASCII. -/
def isHexDigit (c : Char) : Bool :=
  c.isDigit || ('a' ≤ c && c ≤ 'f') || ('A' ≤ c && c ≤ 'F')

/-- The text ends, or goes on with a character of a class. -/
def endsOr (holds : Char → Bool) (text : Text) : Bool :=
  match text with
  | [] => true
  | c :: _ => holds c

/-- The text ends or goes on with white space. -/
def atGap (text : Text) : Bool :=
  endsOr isGap text

/-- The text ends, or goes on with a space or another line. -/
def atSpace (text : Text) : Bool :=
  endsOr (fun c => c = ' ' || isBreak c) text

/-- The line ends here. -/
def atBreak (text : Text) : Bool :=
  endsOr isBreak text

/-- The text goes on with a mark of three characters that stands alone. -/
def atMark (mark text : Text) : Bool :=
  match Text.after? mark text with
  | some rest => atGap rest
  | none => false

/-- The text goes on with the start or the end of a document. -/
def atSeparator (text : Text) : Bool :=
  atMark "---" text || atMark "..." text

/-- The rest of the line and the end of it, if it holds nothing but a comment. -/
def emptyLine (text : Text) : Except Fault Text :=
  let behind := text.dropWhile (· = ' ')
  let rest :=
    if behind.head? = some '#' then behind.dropWhile (!isBreak ·) else behind
  if atBreak rest then .ok (rest.drop 1) else .error .malformed

end SchemaCompose.Yaml
