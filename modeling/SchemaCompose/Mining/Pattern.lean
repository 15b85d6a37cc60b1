import SchemaCompose.Text.Word

/-!
# Attribute patterns

Some attributes are recovered from the lines of a document by their shape alone.
Each recogniser here reads one shape at the start of a text; `firstMatch` tries it
at every place of a line, from the left.
-/

namespace SchemaCompose.Mining

open Text

/-- What a recogniser finds at the leftmost place where it finds something. It is
told the character in front of the place. -/
def firstMatch {α : Type} (recognise : (before : Option Char) → Text → Option α) :
    (before : Option Char) → Text → Option α
  | before, [] => recognise before []
  | before, c :: rest =>
    match recognise before (c :: rest) with
    | some found => some found
    | none => firstMatch recognise (some c) rest

/-- The quoted argument of a column mapping. Two at-signs make another attribute of
it. -/
def columnName? (before : Option Char) (text : Text) : Option Text := do
  guard (before ≠ some '@')
  let behind ← after? "@map(" text
  let behind ← after? "\"" (trimStart behind)
  let name := behind.takeWhile (· ≠ '"')
  let behind ← after? "\"" (behind.dropWhile (· ≠ '"'))
  guard ((trimStart behind).head? = some ')')
  return name

/-- The parenthesised arguments that a text starts with; nothing if they are never
closed. -/
def parenthesised (text : Text) : Text :=
  match text with
  | '(' :: inner =>
    match inner.dropWhile (· ≠ ')') with
    | [] => []
    | _ => '(' :: inner.takeWhile (· ≠ ')') ++ [')']
  | _ => []

/-- A native type with its arguments. -/
def nativeType? (text : Text) : Option Text := do
  let behind ← after? "@db." text
  let name := behind.takeWhile isWord
  guard (!name.isEmpty)
  return name ++ parenthesised (behind.dropWhile isWord)

/-- What a change of a referenced key may do. -/
def relationActions : List Text :=
  ["Cascade", "NoAction", "Restrict", "SetDefault", "SetNull"]

/-- The action on update. -/
def onUpdate? (text : Text) : Option Text := do
  let behind ← after? "onUpdate:" text
  let behind := trimStart behind
  relationActions.find? fun action => (after? action behind).any atWordEnd

/-- A letter without its case, where the long s counts as an s. -/
def foldCase (c : Char) : Char :=
  if c = 'ſ' then 's' else c.toLower

/-- A comment that starts with a directive of the given name, where letters are
compared after `fold`. -/
def isDirective (fold : Char → Char) (name text : Text) : Bool :=
  match after? "//" text with
  | none => false
  | some behind =>
    match after? "@" (trimStart behind) with
    | none => false
    | some behind =>
      (behind.take name.length).map fold = name &&
        atWordEnd (behind.drop name.length)

/-- A directive of the given name stands somewhere in the line, in any case of its
letters. -/
def hasDirective (name line : Text) : Bool :=
  (firstMatch (fun _ text => guard (isDirective Char.toLower name text))
    none line).isSome

/-- The comment marks its model as a stub. -/
def isStubComment (line : Text) : Bool :=
  isDirective foldCase "stub" line

/-- The text up to its last closing parenthesis; none if it has none. -/
def throughLastClosing (text : Text) : Option Text :=
  match text.reverse.dropWhile (· ≠ ')') with
  | [] => none
  | kept => some kept.reverse

/-- An index attribute, up to the last closing parenthesis of its line. -/
def extraIndex? (text : Text) : Option Text := do
  let behind ← after? "@@index(" text
  let inner ← throughLastClosing behind
  return "@@index(" ++ inner

/-- The longest start of a name, not empty, that a brace cuts off. -/
def nameBeforeBrace (name : Text) : Option Text :=
  match name.reverse.dropWhile (· ≠ '{') with
  | _ :: c :: kept => some (c :: kept).reverse
  | _ => none

/-- The name in the header of a model. -/
def modelName? (line : Text) : Option Text := do
  let behind ← after? "model" line
  guard (behind.head?.any isBlank)
  let behind := trimStart behind
  let name := behind.takeWhile (!isBlank ·)
  guard (!name.isEmpty)
  if (trimStart (behind.dropWhile (!isBlank ·))).head? = some '{' then return name
  else nameBeforeBrace name

end SchemaCompose.Mining
