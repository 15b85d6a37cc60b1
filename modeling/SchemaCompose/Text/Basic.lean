/-!
# Text

Text is the list of its characters, so that every scanner of this library is a
recursion on what it reads.  This file holds the character class of blanks,
trimming, and the few cuts that the scanners share: at a prefix, at a character,
and at a run of characters.
-/

namespace SchemaCompose

/-- Text as the sequence of its characters. -/
abbrev Text := List Char

/-- Texts that compare as the same are equal: what deciding membership in a list of texts
rests on. -/
instance lawfulText : LawfulBEq Text :=
  inferInstance

/-- A literal stands for the characters it holds. -/
instance literalText : Coe String Text where
  coe := String.toList

/-- A literal may stand for optional text that is present. -/
instance literalOptionalText : Coe String (Option Text) where
  coe literal := some literal.toList

namespace Text

/-- Membership of a code point in a list of closed ranges. -/
def inRanges (ranges : List (Nat × Nat)) (code : Nat) : Bool :=
  ranges.any fun range => range.1 ≤ code && code ≤ range.2

/-- The code points of white space: the spaces, the line boundaries and the
separators. -/
def blankRanges : List (Nat × Nat) :=
  [(0x09, 0x0D), (0x1C, 0x20), (0x85, 0x85), (0xA0, 0xA0), (0x1680, 0x1680),
   (0x2000, 0x200A), (0x2028, 0x2029), (0x202F, 0x202F), (0x205F, 0x205F),
   (0x3000, 0x3000)]

/-- A character of white space. -/
def isBlank (c : Char) : Bool :=
  inRanges blankRanges c.toNat

/-- Text without the white space it starts with. -/
def trimStart (text : Text) : Text :=
  text.dropWhile isBlank

/-- Text without the white space it ends with. -/
def trimEnd (text : Text) : Text :=
  (text.reverse.dropWhile isBlank).reverse

/-- Text without white space at either end. -/
def trim (text : Text) : Text :=
  trimEnd (trimStart text)

/-- What stands behind `lead`, if the text starts with it. -/
def after? : (lead text : Text) → Option Text
  | [], text => some text
  | _ :: _, [] => none
  | expected :: lead, c :: text => if c = expected then after? lead text else none

@[simp]
theorem after?_append (lead rest : Text) :
    after? lead (lead ++ rest) = some rest := by
  induction lead with
  | nil => rfl
  | cons c lead ih => simp [after?, ih]

theorem eq_append_of_after? {lead text rest : Text}
    (found : after? lead text = some rest) : text = lead ++ rest := by
  induction lead generalizing text with
  | nil => simpa [after?] using found
  | cons expected lead ih =>
    cases text with
    | nil => simp [after?] at found
    | cons c text =>
      by_cases same : c = expected
      · subst same
        rw [List.cons_append, ← ih (by simpa [after?] using found)]
      · simp [after?, same] at found

/-- The text starts with `lead`. -/
def startsWith (lead text : Text) : Bool :=
  (after? lead text).isSome

/-- The text up to the first `mark`, and what follows that mark if there is one. -/
def cutAt (mark : Char) : Text → Text × Option Text
  | [] => ([], none)
  | c :: rest =>
    if c = mark then ([], some rest)
    else
      let (before, behind) := cutAt mark rest
      (c :: before, behind)

/-- The pieces between the occurrences of `mark`; there is always at least one. -/
def pieces (mark : Char) : Text → List Text
  | [] => [[]]
  | c :: rest =>
    if c = mark then [] :: pieces mark rest
    else
      match pieces mark rest with
      | [] => [[c]]
      | piece :: others => (c :: piece) :: others

/-- Parts in order with `separator` between neighbours. -/
def join (separator : Text) : List Text → Text
  | [] => []
  | [part] => part
  | part :: next :: parts => part ++ separator ++ join separator (next :: parts)

/-- Present text that is not empty. -/
def isSet : Option Text → Bool
  | some (_ :: _) => true
  | _ => false

/-- The digits of a number. -/
def ofNat (number : Nat) : Text :=
  Nat.toDigits 10 number

end Text

end SchemaCompose
