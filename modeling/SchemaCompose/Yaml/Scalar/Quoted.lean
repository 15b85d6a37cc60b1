import SchemaCompose.Text.Digit
import SchemaCompose.Yaml.Character

/-!
# Quoted scalars

Between single quotes a quote is written twice; between double quotes a backslash
starts an escape.  In both a line end with the white space around it stands for a
space, and further line ends for themselves.
-/

namespace SchemaCompose.Yaml.Quoted

/-- The characters that a backslash and one more character stand for. -/
def escapes : List (Char × Char) :=
  [('0', '\x00'), ('a', '\x07'), ('b', '\x08'), ('t', '\t'), ('\t', '\t'),
   ('n', '\n'), ('v', '\x0B'), ('f', '\x0C'), ('r', '\r'), ('e', '\x1B'),
   (' ', ' '), ('"', '"'), ('\\', '\\'), ('/', '/'), ('N', '\x85'),
   ('_', '\u00A0'), ('L', '\u2028'), ('P', '\u2029')]

/-- How many hexadecimal digits follow a letter. -/
def digitsOf : Char → Option Nat
  | 'x' => some 2
  | 'u' => some 4
  | 'U' => some 8
  | _ => none

/-- The character of a code point. Half a character is none here. -/
def character (code : Nat) : Except Fault Char :=
  if 0x80000000 ≤ code then .error .numberTooLarge
  else if code.isValidChar then .ok (Char.ofNat code)
  else .error .noSuchCharacter

/-- The character that hexadecimal digits name. -/
def numbered (count : Nat) (text : Text) : Except Fault (Char × Text) := do
  let digits := text.take count
  if digits.length = count && digits.all isHexDigit then
    let c ← character
      (Text.numberOfDigits 16 (digits.filterMap (Text.digitOfBase? 16)))
    return (c, text.drop count)
  else throw .malformed

/-- The line ends that follow a line end, and the text behind the white space of
the last line. A document may not end among them. -/
def furtherBreaks : (lineStart : Bool) → Text → Except Fault (Text × Text)
  | _, [] => .ok ([], [])
  | lineStart, c :: rest =>
    if lineStart && atSeparator (c :: rest) then .error .malformed
    else if isWhite c then furtherBreaks false rest
    else if isBreak c then do
      let (breaks, behind) ← furtherBreaks true rest
      return (c :: breaks, behind)
    else .ok ([], c :: rest)

/-- White space inside quotes: kept within a line, folded where a line ends. -/
def gap (text : Text) : Except Fault (Text × Text) := do
  let white := text.takeWhile isWhite
  match text.dropWhile isWhite with
  | [] => throw .malformed
  | c :: rest =>
    if isBreak c then
      let (breaks, behind) ← furtherBreaks true rest
      let folded :=
        if c ≠ '\n' then c :: breaks else if breaks = [] then [' '] else breaks
      return (folded, behind)
    else return (white, c :: rest)

/-- What a backslash between double quotes stands for. -/
def escape : Text → Except Fault (Text × Text)
  | [] => .error .malformed
  | c :: rest =>
    match escapes.lookup c, digitsOf c with
    | some meant, _ => .ok ([meant], rest)
    | none, some count =>
      (numbered count rest).map fun (meant, behind) => ([meant], behind)
    | none, none => if isBreak c then furtherBreaks true rest else .error .malformed

/-- The text up to the closing quote; `fuel` bounds its length. -/
def body (quote : Char) : (fuel : Nat) → Text → Except Fault (Text × Text)
  | 0, _ => .error .malformed
  | _, [] => .error .malformed
  | fuel + 1, c :: rest =>
    let continued (piece : Text) (behind : Text) : Except Fault (Text × Text) :=
      (body quote fuel behind).map fun (more, rest) => (piece ++ more, rest)
    if isGap c then do
      let (piece, behind) ← gap (c :: rest)
      continued piece behind
    else if c = '\\' && quote = '"' then do
      let (piece, behind) ← escape rest
      continued piece behind
    else if c = quote then
      match quote, rest with
      | '\'', '\'' :: behind => continued ['\''] behind
      | _, _ => .ok ([], rest)
    else continued [c] rest

end Quoted

/-- A quoted scalar, read from behind its opening quote. -/
def quotedScalar (quote : Char) (text : Text) : Except Fault (Text × Text) :=
  Quoted.body quote text.length text

end SchemaCompose.Yaml
