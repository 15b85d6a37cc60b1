import SchemaCompose.Text.Digit
import SchemaCompose.Yaml.Character

/-!
# Dates and times of YAML

A moment is a date, or a date and a time of day with an optional fraction and an
optional distance from universal time.
-/

namespace SchemaCompose.Yaml

/-- A distance from universal time, in hours and minutes to either side. -/
structure Offset where
  hours : Nat
  minutes : Nat
deriving DecidableEq, Repr, Inhabited

/-- A time of day, and how far it is from universal time if that is given in
numbers. -/
structure TimeOfDay where
  hour : Nat
  minute : Nat
  second : Nat
  offset : Option Offset
deriving DecidableEq, Repr, Inhabited

/-- A date, with a time of day or without. -/
structure Moment where
  year : Nat
  month : Nat
  day : Nat
  time : Option TimeOfDay
deriving DecidableEq, Repr, Inhabited

namespace Moment

/-- The number of at least `least` and at most `most` digits of ASCII at the front
of a text. -/
def digits? (least most : Nat) (text : Text) : Option (Nat × Text) :=
  let run := (text.take most).takeWhile Char.isDigit
  if least ≤ run.length then
    some
      (Text.numberOfDigits 10 (run.filterMap Text.digitValue?), text.drop run.length)
  else none

/-- A distance from universal time, behind its sign. -/
def offset? (text : Text) : Option Offset := do
  let (hours, behind) ← digits? 1 2 text
  match behind with
  | [] => some { hours, minutes := 0 }
  | ':' :: rest =>
    match ← digits? 2 2 rest with
    | (minutes, []) => some { hours, minutes }
    | _ => none
  | _ => none

/-- What follows a time of day: nothing, the mark of universal time or a distance
from it. -/
def zone? (text : Text) : Option (Option Offset) :=
  match text with
  | [] => some none
  | _ =>
    match text.dropWhile isWhite with
    | ['Z'] => some none
    | '+' :: rest => (offset? rest).map some
    | '-' :: rest => (offset? rest).map some
    | _ => none

/-- A time of day with all that follows it. -/
def time? (text : Text) : Option TimeOfDay := do
  let (hour, rest) ← digits? 1 2 text
  let (minute, rest) ← digits? 2 2 (← Text.after? [':'] rest)
  let (second, rest) ← digits? 2 2 (← Text.after? [':'] rest)
  let behind := match rest with
    | '.' :: fraction => fraction.dropWhile Char.isDigit
    | other => other
  let offset ← zone? behind
  return { hour, minute, second, offset }

/-- What separates a date from a time of day. -/
def timeStart? : Text → Option Text
  | 'T' :: rest => some rest
  | 't' :: rest => some rest
  | c :: rest => if isWhite c then some (rest.dropWhile isWhite) else none
  | [] => none

/-- The moment that a text writes. -/
def ofText? (text : Text) : Option Moment := do
  let (year, rest) ← digits? 4 4 text
  let (month, rest) ← digits? 1 2 (← Text.after? ['-'] rest)
  let (day, rest) ← digits? 1 2 (← Text.after? ['-'] rest)
  match rest with
  | [] => some { year, month, day, time := none }
  | _ => some { year, month, day, time := some (← time? (← timeStart? rest)) }

/-- The form of a moment. A date alone has two digits for the month and the day. -/
def isForm (text : Text) : Bool :=
  match ofText? text with
  | some moment => moment.time.isSome || text.length = 10
  | none => false

/-- A year with a day between February and March. -/
def isLeap (year : Nat) : Bool :=
  year % 4 = 0 && (year % 100 ≠ 0 || year % 400 = 0)

/-- The days of a month. -/
def daysIn (year month : Nat) : Nat :=
  if month = 2 then if isLeap year then 29 else 28
  else if [4, 6, 9, 11].contains month then 30
  else 31

/-- The calendar has the date, the day has the time, and the distance is less than
a day. -/
def isPossible (moment : Moment) : Bool :=
  1 ≤ moment.year && 1 ≤ moment.month && moment.month ≤ 12 && 1 ≤ moment.day &&
    moment.day ≤ daysIn moment.year moment.month &&
    moment.time.all fun time =>
      time.hour < 24 && time.minute < 60 && time.second < 60 &&
        time.offset.all fun offset => offset.hours * 60 + offset.minutes < 24 * 60

end Moment

/-- A text under the tag for moments is one, and a possible one. -/
def checkMoment (text : Text) : Except Fault Unit :=
  match Moment.ofText? text with
  | none => .error .notMoment
  | some moment => if moment.isPossible then .ok () else .error .impossibleMoment

end SchemaCompose.Yaml
