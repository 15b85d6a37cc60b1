import SchemaCompose.Registry
import SchemaCompose.Yaml.Scalar.Block
import SchemaCompose.Yaml.Scalar.Plain
import SchemaCompose.Yaml.Scalar.Quoted
import SchemaCompose.Yaml.Token

/-!
# Layout

Outside of brackets, indentation opens and closes collections, and a colon turns
the token before it into a key.  Whether a token is a key is known only when the
colon is found, so the place of each token that may become one is kept, and the
mark of a key is put in front of it later.
-/

namespace SchemaCompose.Yaml

/-- A place in a text: characters and line ends before it, and the column. -/
structure Place where
  index : Nat := 0
  line : Nat := 0
  column : Nat := 0
deriving DecidableEq, Repr, Inhabited

namespace Place

/-- The place behind a character. A byte order mark takes no column. -/
def next (place : Place) (c : Char) : Place :=
  if isBreak c then
    { index := place.index + 1, line := place.line + 1, column := 0 }
  else
    { place with
      index := place.index + 1
      column := if c = '\uFEFF' then place.column else place.column + 1 }

end Place

/-- A token that becomes a key if a colon follows: how many tokens are before it,
where it starts, and whether the layout leaves it no other choice. -/
structure Candidate where
  before : Nat
  place : Place
  required : Bool
deriving DecidableEq, Repr, Inhabited

/-- The state of cutting a text into tokens. -/
structure Layout where
  /-- The text that is left. -/
  rest : Text
  /-- The place where it starts. -/
  place : Place := {}
  /-- The tokens so far, last first. -/
  tokens : List Token := []
  /-- How many tokens there are. -/
  count : Nat := 0
  /-- The columns of the open block collections, innermost first. -/
  columns : List Nat := []
  /-- The depth of open brackets. -/
  depth : Nat := 0
  /-- A key may start here. -/
  keyAllowed : Bool := true
  /-- The tokens that may become keys, by the depth of the brackets they stand
  in. -/
  candidates : Registry Nat Candidate := []
deriving Repr, Inhabited

namespace Layout

/-- A token that may be a key is given up after this many characters. -/
def keyLimit : Nat := 1024

/-- The least column of what belongs to the innermost block collection and is no
entry of it. -/
def least (layout : Layout) : Nat :=
  match layout.columns with
  | [] => 0
  | column :: _ => column + 1

/-- One more token. -/
def push (token : Token) (layout : Layout) : Layout :=
  { layout with tokens := token :: layout.tokens, count := layout.count + 1 }

/-- A token put in front of all but the first `before` tokens. -/
def insert (before : Nat) (token : Token) (layout : Layout) : Layout :=
  let later := layout.tokens.take (layout.count - before)
  let earlier := layout.tokens.drop (layout.count - before)
  { layout with tokens := later ++ token :: earlier, count := layout.count + 1 }

/-- Go on to what is left of the text. -/
def moveTo (rest : Text) (layout : Layout) : Layout :=
  let passed := layout.rest.take (layout.rest.length - rest.length)
  { layout with rest, place := passed.foldl Place.next layout.place }

/-- A candidate cannot become a key any more: its line has ended or it is too far
back. -/
def isStale (layout : Layout) (candidate : Candidate) : Bool :=
  candidate.place.line ≠ layout.place.line ||
    keyLimit < layout.place.index - candidate.place.index

/-- Give up the candidates that cannot become keys any more. None of them may be
required. -/
def dropStale (layout : Layout) : Except Fault Layout :=
  if layout.candidates.any fun entry =>
      layout.isStale entry.2 && entry.2.required then
    .error .malformed
  else
    .ok { layout with
      candidates := layout.candidates.filter fun entry => !layout.isStale entry.2 }

/-- Give up the candidate in the current brackets, which may not be required. -/
def dropCandidate (layout : Layout) : Except Fault Layout :=
  match layout.candidates.find? layout.depth with
  | none => .ok layout
  | some candidate =>
    if candidate.required then .error .malformed
    else .ok { layout with candidates := layout.candidates.erase layout.depth }

/-- The next token may become a key, if one is allowed here. -/
def markCandidate (layout : Layout) : Except Fault Layout :=
  if layout.keyAllowed then do
    let layout ← layout.dropCandidate
    let candidate : Candidate := {
      before := layout.count
      place := layout.place
      required :=
        layout.depth = 0 && layout.columns.head? = some layout.place.column }
    return { layout with
      candidates := layout.candidates.put layout.depth candidate }
  else .ok layout

/-- Close the block collections that satisfy a condition on their column, from the
innermost on. -/
def closeWhile (closes : Nat → Bool) : List Nat → Layout → Layout
  | column :: columns, layout =>
    if closes column then closeWhile closes columns (layout.push .blockEnd)
    else { layout with columns := column :: columns }
  | [], layout => { layout with columns := [] }

/-- Close the block collections that are indented deeper than a column. Brackets
keep all open. -/
def unwind (column : Nat) (layout : Layout) : Layout :=
  if layout.depth = 0 then closeWhile (column < ·) layout.columns layout else layout

/-- Close all block collections. Brackets keep all open. -/
def unwindAll (layout : Layout) : Layout :=
  if layout.depth = 0 then closeWhile (fun _ => true) layout.columns layout
  else layout

/-- The column is deeper than that of every open block collection. -/
def opens (layout : Layout) (column : Nat) : Bool :=
  layout.depth = 0 && layout.least ≤ column

/-- Open a block collection at a column that is deeper than every open one, by a
token in front of all but the first `before`. -/
def openAt (column before : Nat) (token : Token) (layout : Layout) : Layout :=
  if layout.opens column then
    { layout.insert before token with columns := column :: layout.columns }
  else layout

/-- Pass over spaces, comments and line ends; the flags say whether a comment goes
on, and in the end whether a line was ended. -/
def skipped : (inComment : Bool) → Text → Bool × Text
  | _, [] => (false, [])
  | inComment, c :: rest =>
    if isBreak c then (true, (skipped false rest).2)
    else if inComment then skipped true rest
    else if c = ' ' then skipped false rest
    else if c = '#' then skipped true rest
    else (false, c :: rest)

/-- Go on to the next token. Behind a line end outside of brackets a key may
start. -/
def skip (layout : Layout) : Layout :=
  let start :=
    match layout.place.index, layout.rest with
    | 0, '\uFEFF' :: rest => rest
    | _, rest => rest
  let (crossed, rest) := skipped false start
  let keyAllowed := layout.keyAllowed || (crossed && layout.depth = 0)
  { layout.moveTo rest with keyAllowed }

/-- A token of a number of characters. -/
def take (length : Nat) (token : Token) (layout : Layout) : Layout :=
  (layout.push token).moveTo (layout.rest.drop length)

/-- Read a directive. -/
def directive (layout : Layout) (behind : Text) : Except Fault Layout := do
  let layout ← layout.unwindAll.dropCandidate
  let (directive, rest) ← Token.directiveLine behind
  return ({ layout with keyAllowed := false }.push (.directive directive)).moveTo
    rest

/-- Read the mark of the start or the end of a document. -/
def separator (token : Token) (layout : Layout) : Except Fault Layout := do
  let layout ← layout.unwindAll.dropCandidate
  return { layout with keyAllowed := false }.take 3 token

/-- Read the end of the text. -/
def finish (layout : Layout) : Except Fault Layout := do
  let layout ← layout.unwindAll.dropCandidate
  return { layout with keyAllowed := false, candidates := [] }.push .streamEnd

/-- Read an opening bracket. -/
def openBracket (token : Token) (layout : Layout) : Except Fault Layout := do
  let layout ← layout.markCandidate
  return { layout with depth := layout.depth + 1, keyAllowed := true }.take 1 token

/-- Read a closing bracket, which needs an open one. -/
def closeBracket (token : Token) (layout : Layout) : Except Fault Layout := do
  let layout ← layout.dropCandidate
  match layout.depth with
  | 0 => throw .malformed
  | depth + 1 => return { layout with depth, keyAllowed := false }.take 1 token

/-- Read a comma between brackets. -/
def comma (layout : Layout) : Except Fault Layout := do
  let layout ← layout.dropCandidate
  return { layout with keyAllowed := true }.take 1 .flowEntry

/-- Read the dash of an entry. -/
def dash (layout : Layout) : Except Fault Layout := do
  if layout.depth = 0 && !layout.keyAllowed then throw .malformed
  let layout ←
    (layout.openAt layout.place.column layout.count .blockSequenceStart).dropCandidate
  return { layout with keyAllowed := true }.take 1 .blockEntry

/-- Read the question mark of a key. -/
def question (layout : Layout) : Except Fault Layout := do
  if layout.depth = 0 && !layout.keyAllowed then throw .malformed
  let layout ←
    (layout.openAt layout.place.column layout.count .blockMappingStart).dropCandidate
  return { layout with keyAllowed := layout.depth = 0 }.take 1 .key

/-- Read the colon of a value. The candidate in front of it becomes a key. -/
def colon (layout : Layout) : Except Fault Layout := do
  match layout.candidates.find? layout.depth with
  | some candidate =>
    let keyed :=
      ({ layout with candidates := layout.candidates.erase layout.depth }.insert
          candidate.before .key).openAt
        candidate.place.column candidate.before .blockMappingStart
    return { keyed with keyAllowed := false }.take 1 .value
  | none =>
    if layout.depth = 0 && !layout.keyAllowed then throw .malformed
    let opened := layout.openAt layout.place.column layout.count .blockMappingStart
    return { opened with keyAllowed := opened.depth = 0 }.take 1 .value

/-- Read a token that may become a key. -/
def keyToken (layout : Layout) (reading : Except Fault (Token × Text)) :
    Except Fault Layout := do
  let layout ← layout.markCandidate
  let (token, rest) ← reading
  return ({ layout with keyAllowed := false }.push token).moveTo rest

/-- Read a block scalar. -/
def block (folded : Bool) (behind : Text) (layout : Layout) :
    Except Fault Layout := do
  let layout ← layout.dropCandidate
  let (text, rest) ← blockScalar folded layout.least behind
  return ({ layout with keyAllowed := true }.push (.scalar text false)).moveTo rest

/-- Read a plain scalar. A key may follow if a line ended behind it. -/
def plain (layout : Layout) : Except Fault Layout := do
  let layout ← layout.markCandidate
  let scalar := plainScalar (layout.depth ≠ 0) layout.least layout.rest
  return ({ layout with keyAllowed := scalar.crossed }.push
    (.scalar scalar.text true)).moveTo scalar.rest

/-- The characters that no plain scalar starts with. -/
def indicators : List Char :=
  "-?:,[]\x7b\x7d#&*!|>'\"%@\x60".toList

/-- A plain scalar starts here. -/
def startsPlain (layout : Layout) (c : Char) (rest : Text) : Bool :=
  !(isGap c || indicators.contains c) ||
    (!atGap rest && (c = '-' || (layout.depth = 0 && (c = '?' || c = ':'))))

/-- Read the token that a character starts. -/
def token (layout : Layout) (c : Char) (rest : Text) : Except Fault Layout :=
  let inBrackets := layout.depth ≠ 0
  if layout.place.column = 0 && c = '%' then layout.directive rest
  else if layout.place.column = 0 && atMark "---" layout.rest then
    layout.separator .documentStart
  else if layout.place.column = 0 && atMark "..." layout.rest then
    layout.separator .documentEnd
  else
    match c with
    | '[' => layout.openBracket .flowSequenceStart
    | '\x7b' => layout.openBracket .flowMappingStart
    | ']' => layout.closeBracket .flowSequenceEnd
    | '\x7d' => layout.closeBracket .flowMappingEnd
    | ',' => layout.comma
    | '*' => layout.keyToken
        ((Token.anchorName rest).map fun (name, rest) => (Token.alias name, rest))
    | '&' => layout.keyToken
        ((Token.anchorName rest).map fun (name, rest) => (Token.anchor name, rest))
    | '!' => layout.keyToken
        ((Token.tagName rest).map fun (name, rest) => (Token.tag name, rest))
    | '\'' | '"' => layout.keyToken
        ((quotedScalar c rest).map fun (text, rest) => (Token.scalar text false, rest))
    | _ =>
      if c = '-' && atGap rest then layout.dash
      else if c = '?' && (inBrackets || atGap rest) then layout.question
      else if c = ':' && (inBrackets || atGap rest) then layout.colon
      else if c = '|' && !inBrackets then layout.block false rest
      else if c = '>' && !inBrackets then layout.block true rest
      else if layout.startsPlain c rest then layout.plain
      else .error .malformed

/-- Read one more token, with the ends of collections before it. -/
def step (layout : Layout) : Except Fault Layout := do
  let layout ← layout.skip.dropStale
  let layout := layout.unwind layout.place.column
  match layout.rest with
  | [] => layout.finish
  | c :: rest => layout.token c rest

/-- How many tokens are settled: those before the first that may still become a
key. -/
def settled (layout : Layout) : Nat :=
  layout.candidates.foldl (fun least entry => min least entry.2.before) layout.count

/-- The tokens of the text that is left; `fuel` bounds how many are read. Where the
text breaks a rule, the settled tokens are followed by the fault. -/
def run : (fuel : Nat) → Layout → List Token
  | 0, _ => [.broken .malformed]
  | fuel + 1, layout =>
    let read := do
      let layout ← layout.dropStale
      return (layout.settled, layout.step)
    match read with
    | .error fault => layout.tokens.reverse ++ [.broken fault]
    | .ok (settled, .error fault) =>
      layout.tokens.reverse.take settled ++ [.broken fault]
    | .ok (_, .ok next) =>
      if next.tokens.head? = some .streamEnd then next.tokens.reverse
      else run fuel next

end Layout

/-- The tokens of a text. A character that no text may hold breaks it at once. -/
def tokens (text : Text) : List Token :=
  let text := normalized text
  if text.all isAllowed then Layout.run (text.length + 1) { rest := text }
  else [.broken .malformed]

end SchemaCompose.Yaml
