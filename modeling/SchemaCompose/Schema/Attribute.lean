import SchemaCompose.Schema.Argument
import SchemaCompose.Schema.Basic
import SchemaCompose.Text.Word

/-!
# Attributes

An attribute is a name behind one or two at-signs, with or without arguments
between parentheses.  The scanner cuts a text into its attributes; brackets and
strings in the arguments are kept whole.
-/

namespace SchemaCompose

/-- One attribute. The arguments are the trimmed text between its parentheses. -/
structure Attribute where
  name : Text
  arguments : Option Text := none
deriving DecidableEq, Repr, Inhabited

namespace Attribute

/-- A character of an attribute's name. -/
def isNameChar (c : Char) : Bool :=
  Text.isWord c || c = '.'

/-- The name behind the at-signs that a text starts with, and what follows it. -/
def bareName? : Text → Option (Text × Text)
  | [] => none
  | c :: rest =>
    if Text.isNameStart c then
      some (c :: rest.takeWhile isNameChar, rest.dropWhile isNameChar)
    else none

/-- The attribute name that a text starts with, and what follows it. -/
def name? : Text → Option (Text × Text)
  | '@' :: '@' :: rest =>
    (bareName? rest).map fun (name, behind) => ('@' :: '@' :: name, behind)
  | '@' :: rest => (bareName? rest).map fun (name, behind) => ('@' :: name, behind)
  | _ => none

/-- What stands before the bracket that closes an argument list, and what stands
behind it. The text starts behind the opening bracket, and `depth` more brackets
are open. -/
def untilClosing (depth : Nat) (state : LiteralState) : Text → Option (Text × Text)
  | [] => none
  | c :: rest =>
    let go (depth : Nat) : Option (Text × Text) :=
      (untilClosing depth (state.next c) rest).map fun (inner, behind) =>
        (c :: inner, behind)
    if state = .outside ∧ (c = '(' ∨ c = '[') then go (depth + 1)
    else if state = .outside ∧ (c = ')' ∨ c = ']') then
      match depth with
      | 0 => some ([], rest)
      | depth + 1 => go depth
    else go depth

theorem length_lt_of_bareName? {text name behind : Text}
    (found : bareName? text = some (name, behind)) :
    behind.length < text.length := by
  cases text with
  | nil => simp [bareName?] at found
  | cons c rest =>
    by_cases start : Text.isNameStart c = true
    · have shorter := (List.dropWhile_sublist isNameChar (l := rest)).length_le
      simp only [bareName?, start, if_true, Option.some.injEq,
        Prod.mk.injEq] at found
      simp only [← found.2, List.length_cons]
      omega
    · simp [bareName?, start] at found

theorem length_lt_of_name? {text name behind : Text}
    (found : name? text = some (name, behind)) : behind.length < text.length := by
  unfold name? at found
  split at found
  all_goals first
    | contradiction
    | obtain ⟨⟨bare, remaining⟩, scanned, same⟩ := Option.map_eq_some_iff.1 found
      have shorter := length_lt_of_bareName? scanned
      simp only [Prod.mk.injEq] at same
      simp only [← same.2, List.length_cons]
      omega

theorem length_lt_of_untilClosing {depth : Nat} {state : LiteralState}
    {text inner behind : Text}
    (found : untilClosing depth state text = some (inner, behind)) :
    behind.length < text.length := by
  induction text generalizing depth state inner behind with
  | nil => simp [untilClosing] at found
  | cons c rest ih =>
    have shorter : ∀ {further : Nat},
        (untilClosing further (state.next c) rest).map
            (fun (pair : Text × Text) => (c :: pair.1, pair.2)) =
          some (inner, behind) →
        behind.length < (c :: rest).length := by
      intro further mapped
      obtain ⟨⟨before, remaining⟩, scanned, same⟩ := Option.map_eq_some_iff.1 mapped
      have below := ih scanned
      simp only [Prod.mk.injEq] at same
      simp only [← same.2, List.length_cons]
      omega
    unfold untilClosing at found
    split at found
    · exact shorter found
    · split at found
      · cases depth with
        | zero =>
          simp only [Option.some.injEq, Prod.mk.injEq] at found
          simp [← found.2]
        | succ depth => exact shorter found
      · exact shorter found

/-- The attributes of a text, which holds nothing else but white space between
them. -/
def scan (text : Text) : Except Fault (List Attribute) :=
  match text with
  | [] => .ok []
  | c :: rest =>
    if Text.isBlank c then scan rest
    else
      match _named : name? (c :: rest) with
      | none => .error (.unexpectedToken (Text.trim (c :: rest)))
      | some (name, '(' :: inside) =>
        match _closed : untilClosing 0 .outside inside with
        | none => .error .unclosedArguments
        | some (inner, behind) =>
          (scan behind).map (⟨name, some (Text.trim inner)⟩ :: ·)
      | some (name, behind) => (scan behind).map (⟨name, none⟩ :: ·)
termination_by text.length
decreasing_by
  · simp
  · have left := length_lt_of_name? _named
    have right := length_lt_of_untilClosing _closed
    simp only [List.length_cons] at left right ⊢
    omega
  · exact length_lt_of_name? _named

/-- The arguments of an attribute; no list counts as an empty one. -/
def split (source : Attribute) : Except Fault (List Text) :=
  Arguments.split (source.arguments.getD [])

/-- The first argument of an attribute, without the key that may stand before it. -/
def positional (source : Attribute) : Except Fault Text := do
  match ← source.split with
  | [] => .error (.missingArgument source.name)
  | first :: _ =>
    if Text.startsWith "name:" first || Text.startsWith "fields:" first then
      return Text.trim ((Text.cutAt ':' first).2.getD [])
    else return first

/-- The value under a key, if the attribute has it. -/
def named? (key : Text) (source : Attribute) : Except Fault (Option Text) :=
  source.split.map (Arguments.named? key)

/-- The list under a key; an absent one is empty. -/
def listNamed (key : Text) (source : Attribute) : Except Fault (List Text) := do
  match ← source.named? key with
  | some value => Arguments.listOf value
  | none => return []

/-- The key that a compound attribute declares: its fields by key or position, and
its name. -/
def compoundKey (source : Attribute) : Except Fault CompoundKey := do
  let fields ←
    match ← source.named? "fields" with
    | some value => Arguments.listOf value
    | none => source.positional >>= Arguments.listOf
  return { fields, name := ← source.named? "name" }

/-- The relation that a relation attribute declares. A first argument without a key
names it. -/
def relation (source : Attribute) : Except Fault Relation := do
  let arguments ← source.split
  let keyed := Arguments.named? "name" arguments
  let name :=
    match arguments with
    | first :: _ => if first.contains ':' then keyed else some (Text.unquote first)
    | [] => keyed
  return {
    name
    fields := ← source.listNamed "fields"
    references := ← source.listNamed "references"
    onDelete := Arguments.named? "onDelete" arguments }

end Attribute

end SchemaCompose
