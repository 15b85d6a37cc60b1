import SchemaCompose.Yaml.Character

/-!
# Plain scalars

A plain scalar has no quotes.  It ends before a colon that ends a key, before a
comment and, inside brackets, before a bracket, a comma or a question mark; it goes
on over line ends while the lines are indented.
-/

namespace SchemaCompose.Yaml.Plain

/-- A character that has a meaning of its own inside brackets. -/
def isBracketMark (c : Char) : Bool :=
  c = ',' || c = '[' || c = ']' || c = '\x7b' || c = '\x7d'

/-- A colon in front of this text ends a key. -/
def endsKey (inBrackets : Bool) (text : Text) : Bool :=
  endsOr (fun c => isGap c || (inBrackets && isBracketMark c)) text

/-- The characters up to white space or a mark that ends the scalar. -/
def run (inBrackets : Bool) : Text → Text × Text
  | [] => ([], [])
  | c :: rest =>
    if isGap c || (c = ':' && endsKey inBrackets rest) ||
        (inBrackets && (isBracketMark c || c = '?')) then ([], c :: rest)
    else
      let (more, behind) := run inBrackets rest
      (c :: more, behind)

/-- White space between two runs: what it stands for, the column behind it if a
line ended in it, and the text from there. -/
structure Gap where
  joint : Text
  column : Option Nat
  rest : Text
deriving DecidableEq, Repr

/-- The line ends behind a first one. At a document separator there is nothing to
join. -/
def furtherBreaks : (column : Nat) → Text → Option Text × Nat × Text
  | column, [] => (some [], column, [])
  | column, c :: rest =>
    if c = ' ' then furtherBreaks (column + 1) rest
    else if isBreak c then
      if atSeparator rest then (none, 0, rest)
      else
        let (breaks, column, behind) := furtherBreaks 0 rest
        (breaks.map (c :: ·), column, behind)
    else (some [], column, c :: rest)

/-- The white space at the front of a text. -/
def gap (text : Text) : Gap :=
  let white := text.takeWhile (· = ' ')
  match text.dropWhile (· = ' ') with
  | [] => { joint := white, column := none, rest := [] }
  | c :: rest =>
    if isBreak c then
      if atSeparator rest then { joint := [], column := some 0, rest }
      else
        match furtherBreaks 0 rest with
        | (none, column, behind) =>
          { joint := [], column := some column, rest := behind }
        | (some breaks, column, behind) =>
          let joint :=
            if c ≠ '\n' then c :: breaks else if breaks = [] then [' '] else breaks
          { joint, column := some column, rest := behind }
    else { joint := white, column := none, rest := c :: rest }

/-- A plain scalar: its text, whether a line ended behind it, and the text that
follows. -/
structure Scalar where
  text : Text
  crossed : Bool
  rest : Text
deriving DecidableEq, Repr

/-- The runs of a scalar from a gap on; `fuel` bounds their number. -/
def runs (inBrackets : Bool) (least : Nat) : (fuel : Nat) → Gap → Scalar
  | 0, before =>
    { text := [], crossed := before.column.isSome, rest := before.rest }
  | fuel + 1, before =>
    match run inBrackets before.rest with
    | ([], _) =>
      { text := [], crossed := before.column.isSome, rest := before.rest }
    | (characters, behind) =>
      let next := gap behind
      let outdented := !inBrackets && next.column.any (· < least)
      if next.joint = [] || next.rest.head? = some '#' || outdented then
        { text := before.joint ++ characters, crossed := next.column.isSome
          rest := next.rest }
      else
        let more := runs inBrackets least fuel next
        { more with text := before.joint ++ characters ++ more.text }

end Plain

/-- The plain scalar at the front of a text. Outside of brackets its further lines
are indented at least to the column `least`. -/
def plainScalar (inBrackets : Bool) (least : Nat) (text : Text) : Plain.Scalar :=
  Plain.runs inBrackets least text.length
    { joint := [], column := none, rest := text }

end SchemaCompose.Yaml
