import SchemaCompose.Text.Basic

/-!
# Lines

A text is cut into lines at every line boundary; the boundary belongs to no line,
and a boundary at the very end opens no further line.
-/

namespace SchemaCompose.Text

/-- The code points that end a line. -/
def lineEndRanges : List (Nat × Nat) :=
  [(0x0A, 0x0D), (0x1C, 0x1E), (0x85, 0x85), (0x2028, 0x2029)]

/-- A character that ends a line. -/
def isLineEnd (c : Char) : Bool :=
  inRanges lineEndRanges c.toNat

/-- Every character that ends a line is white space. -/
theorem isBlank_of_isLineEnd {c : Char} (ends : isLineEnd c = true) :
    isBlank c = true := by
  simp [isLineEnd, lineEndRanges, isBlank, blankRanges, inRanges] at ends ⊢
  omega

/-- The lines of a text. A carriage return with a line feed behind it is one
boundary. -/
def lines : Text → List Text
  | [] => []
  | '\r' :: '\n' :: rest => [] :: lines rest
  | c :: rest =>
    if isLineEnd c then [] :: lines rest
    else
      match lines rest with
      | [] => [[c]]
      | line :: others => (c :: line) :: others

@[simp]
theorem lines_nil : lines [] = [] := by
  simp [lines]

/-- Lines in order, each closed by a line feed except the last. -/
def unlines (parts : List Text) : Text :=
  join ['\n'] parts

end SchemaCompose.Text
