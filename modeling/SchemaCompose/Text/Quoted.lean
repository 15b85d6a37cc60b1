import SchemaCompose.Text.Printable

/-!
# Quoted text in diagnostics

Diagnostics show text between quotes so that its ends and its odd characters can be
seen.  Single quotes are used unless the text holds one and no double quote.
-/

namespace SchemaCompose.Text

/-- The last `width` hexadecimal digits of a number, with leading zeros. -/
def hexDigits : (width number : Nat) → Text
  | 0, _ => []
  | width + 1, number =>
    hexDigits width (number / 16) ++ [Nat.digitChar (number % 16)]

/-- How one character is shown between the given quotes. -/
def quotedChar (quote c : Char) : Text :=
  if c = quote || c = '\\' then ['\\', c]
  else if c = '\n' then ['\\', 'n']
  else if c = '\t' then ['\\', 't']
  else if c = '\r' then ['\\', 'r']
  else if isPrintable c then [c]
  else if c.toNat < 0x100 then '\\' :: 'x' :: hexDigits 2 c.toNat
  else if c.toNat < 0x10000 then '\\' :: 'u' :: hexDigits 4 c.toNat
  else '\\' :: 'U' :: hexDigits 8 c.toNat

/-- The quotes that are put around a text. -/
def quoteFor (text : Text) : Char :=
  if text.contains '\'' && !text.contains '"' then '"' else '\''

/-- Text between quotes. -/
def quoted (text : Text) : Text :=
  let quote := quoteFor text
  quote :: text.flatMap (quotedChar quote) ++ [quote]

/-- A row of shown values between parentheses; a row of one keeps a comma behind
it. -/
def shownRow : List Text → Text
  | [] => ['(', ')']
  | [only] => '(' :: only ++ [',', ')']
  | several => '(' :: join [',', ' '] several ++ [')']

end SchemaCompose.Text
