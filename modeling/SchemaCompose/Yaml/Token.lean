import SchemaCompose.Text.Digit
import SchemaCompose.Yaml.Character

/-!
# Tokens of YAML

The tokens that a text is cut into, and the readers of those that are names:
anchors, aliases, tags and directives.
-/

namespace SchemaCompose.Yaml

/-- A handle and the suffix behind it, or a suffix alone that is the whole tag. -/
structure TagName where
  handle : Option Text
  suffix : Text
deriving DecidableEq, Repr, Inhabited

/-- What a directive says. -/
inductive Directive where
  /-- The version of YAML, by its first number. -/
  | version (major : Nat)
  /-- What a handle of tags stands for. -/
  | handle (name expansion : Text)
  /-- A directive of no known meaning. -/
  | unknown
deriving DecidableEq, Repr, Inhabited

/-- A token. -/
inductive Token where
  | directive (directive : Directive)
  | documentStart
  | documentEnd
  | streamEnd
  | blockSequenceStart
  | blockMappingStart
  | blockEnd
  | flowSequenceStart
  | flowSequenceEnd
  | flowMappingStart
  | flowMappingEnd
  | blockEntry
  | flowEntry
  | key
  | value
  | alias (name : Text)
  | anchor (name : Text)
  | tag (name : TagName)
  | scalar (text : Text) (isPlain : Bool)
  /-- Here the text breaks a rule, so that no further token can be read. -/
  | broken (fault : Fault)
deriving DecidableEq, Repr, Inhabited

namespace Token

/-- A run of characters of a class, which is not empty. -/
def nonempty (holds : Char → Bool) (text : Text) : Except Fault (Text × Text) :=
  match text.takeWhile holds with
  | [] => .error .malformed
  | run => .ok (run, text.dropWhile holds)

/-- The text, if a condition on it holds. -/
def require (holds : Text → Bool) (text : Text) : Except Fault Text :=
  if holds text then .ok text else .error .malformed

/-- The name of an anchor or an alias, read from behind its mark. -/
def anchorName (text : Text) : Except Fault (Text × Text) := do
  let (name, behind) ← nonempty isNameCharacter text
  let rest ← require
    (endsOr fun c => isGap c || "?:,]\x7d%@\x60".toList.contains c) behind
  return (name, rest)

/-- A handle of tags, with the marks around its name. The first mark alone is a
handle in front of a space. -/
def handle : Text → Except Fault (Text × Text)
  | '!' :: rest =>
    if rest.head? = some ' ' then .ok (['!'], rest)
    else
      match rest.dropWhile isNameCharacter with
      | '!' :: behind =>
        .ok ('!' :: rest.takeWhile isNameCharacter ++ ['!'], behind)
      | _ => .error .malformed
  | _ => .error .malformed

/-- The octets of a row of percent escapes. -/
def escapedOctets : Text → Except Fault (List UInt8 × Text)
  | '%' :: high :: low :: rest =>
    if isHexDigit high && isHexDigit low then do
      let code :=
        Text.numberOfDigits 16 ([high, low].filterMap (Text.digitOfBase? 16))
      let (octets, behind) ← escapedOctets rest
      return (UInt8.ofNat code :: octets, behind)
    else .error .malformed
  | '%' :: _ => .error .malformed
  | rest => .ok ([], rest)

/-- The characters of a tag; `fuel` bounds their number. -/
def tagCharacters : (fuel : Nat) → Text → Except Fault (Text × Text)
  | 0, rest => .ok ([], rest)
  | _, [] => .ok ([], [])
  | fuel + 1, c :: rest =>
    if c = '%' then do
      let (octets, behind) ← escapedOctets (c :: rest)
      let decoded ← (Utf8.decode octets).mapError fun _ => .malformed
      let (more, rest) ← tagCharacters fuel behind
      return (decoded ++ more, rest)
    else if isTagCharacter c then do
      let (more, rest) ← tagCharacters fuel rest
      return (c :: more, rest)
    else .ok ([], c :: rest)

/-- The characters of a tag, of which there is at least one. -/
def tagText (text : Text) : Except Fault (Text × Text) :=
  if endsOr (!isTagCharacter ·) text then .error .malformed
  else tagCharacters text.length text

/-- A tag, read from behind its first mark. -/
def tagName (text : Text) : Except Fault (TagName × Text) := do
  let (name, rest) ← (do
    match text with
    | '<' :: whole =>
      match ← tagText whole with
      | (suffix, '>' :: rest) => pure ({ handle := none, suffix }, rest)
      | _ => throw .malformed
    | _ =>
      if atGap text then pure ({ handle := none, suffix := ['!'] }, text)
      else if (text.takeWhile fun c => c ≠ ' ' && !isBreak c).contains '!' then
        let (handle, behind) ← handle ('!' :: text)
        let (suffix, rest) ← tagText behind
        pure ({ handle := some handle, suffix }, rest)
      else
        let (suffix, rest) ← tagText text
        pure ({ handle := some ['!'], suffix }, rest)
    : Except Fault (TagName × Text))
  return (name, ← require atSpace rest)

/-- The digits that a number may have at most. -/
def digitLimit : Nat := 4300

/-- A number of a version. -/
def versionNumber (text : Text) : Except Fault (Nat × Text) := do
  let (digits, rest) ← nonempty Char.isDigit text
  if digitLimit < digits.length then throw .notNumber
  return (Text.numberOfDigits 10 (digits.filterMap Text.digitValue?), rest)

/-- What a directive says behind its name. -/
def directiveContent (name rest : Text) : Except Fault (Directive × Text) := do
  let content := rest.dropWhile (· = ' ')
  if name = ("YAML" : Text) then
    match ← versionNumber content with
    | (major, '.' :: behind) =>
      let (_, rest) ← versionNumber behind
      return (.version major, ← require atSpace rest)
    | _ => throw .malformed
  else if name = ("TAG" : Text) then
    match ← handle content with
    | (handle, ' ' :: behind) =>
      let (expansion, rest) ← tagText (behind.dropWhile (· = ' '))
      return (.handle handle expansion, ← require atSpace rest)
    | _ => throw .malformed
  else return (.unknown, rest.dropWhile (!isBreak ·))

/-- A directive with the rest of its line, read from behind its mark. -/
def directiveLine (text : Text) : Except Fault (Directive × Text) := do
  let (name, behind) ← nonempty isNameCharacter text
  let (content, rest) ← directiveContent name (← require atSpace behind)
  return (content, ← emptyLine rest)

end Token

end SchemaCompose.Yaml
