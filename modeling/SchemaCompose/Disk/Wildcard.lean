import SchemaCompose.Text.Basic

/-!
# Wildcards

A wildcard stands for the names it matches: `*` for any run of characters, `?` for
one, and a bracket for one character of a set.  A bracket that is never closed
stands for itself.
-/

namespace SchemaCompose

/-- A character of a set, or a range of them. -/
inductive Span where
  | single (c : Char)
  | range (low high : Char)
deriving DecidableEq, Repr, Inhabited

/-- One element of a wildcard. -/
inductive Glyph where
  /-- Any run of characters. -/
  | star
  /-- Any one character. -/
  | any
  /-- Just this character. -/
  | exactly (c : Char)
  /-- One character inside the spans, or outside of all of them. -/
  | set (negated : Bool) (spans : List Span)
deriving DecidableEq, Repr, Inhabited

namespace Span

/-- The characters of a span. -/
def holds (c : Char) : Span → Bool
  | .single expected => c = expected
  | .range low high => low ≤ c && c ≤ high

end Span

namespace Glyph

/-- The characters that one element matches on its own; a run is none. -/
def holds (c : Char) : Glyph → Bool
  | .star => false
  | .any => true
  | .exactly expected => c = expected
  | .set negated spans => spans.any (·.holds c) != negated

end Glyph

namespace Wildcard

/-- A text uses wildcards. -/
def isUsed (text : Text) : Bool :=
  text.any fun c => c = '*' || c = '?' || c = '['

/-- The inside of a bracket and what follows it. A closing bracket that comes
first, also behind an exclamation mark, belongs to the inside. -/
def bracket? (text : Text) : Option (Text × Text) :=
  let upToClose (lead text : Text) : Option (Text × Text) :=
    match Text.cutAt ']' text with
    | (inside, some rest) => some (lead ++ inside, rest)
    | (_, none) => none
  match text with
  | '!' :: ']' :: rest => upToClose ['!', ']'] rest
  | '!' :: rest => upToClose ['!'] rest
  | ']' :: rest => upToClose [']'] rest
  | rest => upToClose [] rest

/-- The texts between the dashes that make ranges. A dash makes one only behind a
character, and not where the range before it ends; `held` counts the characters
that have to go by first. -/
def chunks : (held : Nat) → Text → List Text
  | _, [] => [[]]
  | held, c :: rest =>
    if c = '-' && held = 0 then [] :: chunks 2 rest
    else
      match chunks (held - 1) rest with
      | [] => [[c]]
      | chunk :: others => (c :: chunk) :: others

/-- A dash at the very end is a character of the chunk before it. -/
def closeChunks : List Text → List Text
  | [] => []
  | [chunk] => [chunk]
  | [chunk, []] => [chunk ++ ['-']]
  | chunk :: next :: others => chunk :: closeChunks (next :: others)

/-- Ranges whose ends are in the wrong order hold nothing: both ends go away. -/
def dropReversed : List Text → List Text
  | [] => []
  | chunk :: others =>
    match dropReversed others with
    | [] => [chunk]
    | next :: rest =>
      match chunk.getLast?, next with
      | some low, high :: behind =>
        if high < low then (chunk.dropLast ++ behind) :: rest
        else chunk :: next :: rest
      | _, _ => chunk :: next :: rest

/-- The spans of chunks: between neighbours there is a range, and all else are
single characters. -/
def spansOf : List Text → List Span
  | [] => []
  | [chunk] => chunk.map .single
  | chunk :: next :: others =>
    match chunk.getLast?, next with
    | some low, high :: behind =>
      chunk.dropLast.map .single ++ .range low high :: spansOf (behind :: others)
    | _, _ => chunk.map .single ++ spansOf (next :: others)
termination_by chunks => chunks.length

/-- The set that the inside of a bracket writes. -/
def setOf (inside : Text) : Glyph :=
  let leading := if inside.head? = some '!' then 2 else 1
  match dropReversed (closeChunks (chunks leading inside)) with
  | ['!'] :: [] => .any
  | ('!' :: chunk) :: others => .set true (spansOf (chunk :: others))
  | chunks => .set false (spansOf chunks)

/-- The elements of a wildcard; `fuel` bounds their number. -/
def glyphs : (fuel : Nat) → Text → List Glyph
  | 0, _ => []
  | _, [] => []
  | fuel + 1, '*' :: rest => .star :: glyphs fuel rest
  | fuel + 1, '?' :: rest => .any :: glyphs fuel rest
  | fuel + 1, '[' :: rest =>
    match bracket? rest with
    | some (inside, behind) => setOf inside :: glyphs fuel behind
    | none => .exactly '[' :: glyphs fuel rest
  | fuel + 1, c :: rest => .exactly c :: glyphs fuel rest

/-- A name is matched by a row of elements. -/
def matchesFrom : List Glyph → Text → Bool
  | [], name => name.isEmpty
  | .star :: glyphs, [] => matchesFrom glyphs []
  | .star :: glyphs, c :: name =>
    matchesFrom glyphs (c :: name) || matchesFrom (.star :: glyphs) name
  | _ :: _, [] => false
  | glyph :: glyphs, c :: name => glyph.holds c && matchesFrom glyphs name

end Wildcard

/-- A name is matched by a wildcard. -/
def matchesWildcard (pattern name : Text) : Bool :=
  Wildcard.matchesFrom (Wildcard.glyphs pattern.length pattern) name

end SchemaCompose
