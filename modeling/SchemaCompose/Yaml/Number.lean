import SchemaCompose.Yaml.Token

/-!
# Numbers of YAML

The forms that make a plain scalar a number, and the test of a text that stands
under a tag for numbers.  Both allow underscores between digits and groups of sixty
behind colons.
-/

namespace SchemaCompose.Yaml

/-- A sign. -/
def isSign (c : Char) : Bool :=
  c = '+' || c = '-'

/-- The text without a sign in front. -/
def withoutSign : Text → Text
  | c :: rest => if isSign c then rest else c :: rest
  | [] => []

/-- A digit or an underscore. -/
def isDigitOrUnderscore (c : Char) : Bool :=
  c.isDigit || c = '_'

/-- One group of a number to the base sixty. -/
def isSixtieth : Text → Bool
  | [c] => c.isDigit
  | [tens, ones] => '0' ≤ tens && tens ≤ '5' && ones.isDigit
  | _ => false

/-- Groups of sixty, each behind a colon; there is at least one. -/
def isSexagesimalTail (text : Text) : Bool :=
  match Text.pieces ':' text with
  | [] :: group :: groups => (group :: groups).all isSixtieth
  | _ => false

/-- The tail of a number behind its exponent mark, or nothing. -/
def isExponent : Text → Bool
  | [] => true
  | mark :: sign :: digits =>
    (mark = 'e' || mark = 'E') && isSign sign && digits ≠ [] &&
      digits.all Char.isDigit
  | _ => false

/-- The form of an integer: binary, octal, decimal, hexadecimal or sexagesimal. -/
def isIntegerForm (text : Text) : Bool :=
  match withoutSign text with
  | [] => false
  | ['0'] => true
  | '0' :: 'b' :: digits =>
    digits ≠ [] && digits.all fun c => c = '0' || c = '1' || c = '_'
  | '0' :: 'x' :: digits =>
    digits ≠ [] && digits.all fun c => isHexDigit c || c = '_'
  | '0' :: digits => digits.all fun c => ('0' ≤ c && c ≤ '7') || c = '_'
  | c :: rest =>
    c.isDigit &&
      match rest.dropWhile isDigitOrUnderscore with
      | [] => true
      | tail => isSexagesimalTail tail

/-- The form of a number with a point. -/
def isPointForm (text : Text) : Bool :=
  match Text.cutAt '.' text with
  | (_, none) => false
  | ([], some fraction) =>
    match fraction with
    | c :: rest => c.isDigit && isExponent (rest.dropWhile isDigitOrUnderscore)
    | [] => false
  | (whole, some fraction) =>
    match withoutSign whole with
    | [] => false
    | c :: rest =>
      c.isDigit &&
        match rest.dropWhile isDigitOrUnderscore with
        | [] => isExponent (fraction.dropWhile isDigitOrUnderscore)
        | tail => isSexagesimalTail tail && fraction.all isDigitOrUnderscore

/-- The names of what is no finite number. -/
def infinityNames : List Text := [".inf", ".Inf", ".INF"]

/-- The names of what is no number at all. -/
def notNumberNames : List Text := [".nan", ".NaN", ".NAN"]

/-- The form of a number that is no integer. -/
def isRealForm (text : Text) : Bool :=
  isPointForm text || infinityNames.contains (withoutSign text) ||
    notNumberNames.contains text

/-- A row of digits of a base, of which there is at least one. -/
def areDigits (base : Nat) (text : Text) : Bool :=
  text ≠ [] && text.all fun c => (Text.digitOfBase? base c).isSome

/-- The letters that may stand in front of the digits of a base. -/
def baseMarks : Nat → List Char
  | 2 => ['b', 'B']
  | 8 => ['o', 'O']
  | 16 => ['x', 'X']
  | _ => []

/-- An integer of a base: blanks around it, a sign and a mark of the base are
allowed. -/
def isInteger (base : Nat) (text : Text) : Bool :=
  match withoutSign (Text.trim text) with
  | '0' :: mark :: digits =>
    if (baseMarks base).contains mark then areDigits base digits
    else areDigits base ('0' :: mark :: digits)
  | digits => areDigits base digits

/-- A decimal integer with not too many digits. -/
def isDecimal (text : Text) : Bool :=
  isInteger 10 text &&
    (text.filter fun c => (Text.digitValue? c).isSome).length ≤ Token.digitLimit

/-- The digits of a decimal fraction: a point may stand between them. -/
def areFractionDigits (text : Text) : Bool :=
  let isDigit (c : Char) : Bool := (Text.digitValue? c).isSome
  match Text.cutAt '.' text with
  | (whole, none) => whole ≠ [] && whole.all isDigit
  | (whole, some fraction) =>
      whole ++ fraction ≠ [] && (whole ++ fraction).all isDigit

/-- A real number: blanks around it, a sign and an exponent are allowed, and names
for what is not finite. -/
def isReal (text : Text) : Bool :=
  let number := withoutSign (Text.trim (text.map Char.toLower))
  [("inf" : Text), "infinity", "nan"].contains number ||
    match Text.cutAt 'e' number with
    | (digits, none) => areFractionDigits digits
    | (digits, some exponent) =>
      areFractionDigits digits && areDigits 10 (withoutSign exponent)

/-- A text under the tag for integers is one. -/
def checkInteger (text : Text) : Except Fault Unit :=
  let number := text.filter (· ≠ '_')
  let digits := withoutSign number
  let require (holds : Bool) : Except Fault Unit :=
    if holds then .ok () else .error .notNumber
  if number = [] || digits = [] then .error .emptyNumber
  else
    match digits with
    | ['0'] => .ok ()
    | '0' :: 'b' :: rest => require (isInteger 2 rest)
    | '0' :: 'x' :: rest => require (isInteger 16 rest)
    | '0' :: _ => require (isInteger 8 digits)
    | _ =>
      if digits.contains ':' then require ((Text.pieces ':' digits).all isDecimal)
      else require (isDecimal digits)

/-- A text under the tag for real numbers is one. -/
def checkReal (text : Text) : Except Fault Unit :=
  let number := (text.filter (· ≠ '_')).map Char.toLower
  let digits := withoutSign number
  if number = [] then .error .emptyNumber
  else if digits = (".inf" : Text) || digits = (".nan" : Text) then .ok ()
  else if (Text.pieces ':' digits).all isReal then .ok ()
  else .error .notNumber

end SchemaCompose.Yaml
