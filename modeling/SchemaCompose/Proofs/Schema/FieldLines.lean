import Mathlib.Control.Basic
import Mathlib.Data.List.TakeWhile
import Mathlib.Data.Option.Basic
import SchemaCompose.Proofs.Schema.Balanced
import SchemaCompose.Schema.Parse

/-!
# The parts of a field line

A field line is a name, white space, a type, the marks that stand behind the type and
the attributes.  The parts that are read from a text are those that it is written from,
as long as each part ends where the next one starts (`FieldLine.ofText?_eq_some_iff`).
-/

namespace SchemaCompose

/-- A type that is written with its database name because it is not supported. -/
def IsUnsupported (type : Text) : Prop :=
  ∃ argument : Text, '"' ∉ argument ∧ type = "Unsupported(\"" ++ argument ++ "\")"

namespace FieldLine

variable {parts : FieldLine} {type rest gap content : Text}

/-! ## Types -/

/-- A name is no unsupported type, for that has a bracket behind its word. -/
theorem unsupported?_of_isName
    (isName : Text.IsName type)
    (ends : ∀ c ∈ rest.head?, c ≠ '(' ∧ Text.isWord c = false) :
    unsupported? (type ++ rest) = none := by
  rw [unsupported?]
  cases behind : Text.after? "Unsupported(\"" (type ++ rest) with
  | none => rfl
  | some inside =>
      have whole : type ++ rest = "Unsupported".toList ++ '(' :: '"' :: inside :=
        (Text.eq_append_of_after? behind).trans rfl
      have word : ∀ c ∈ "Unsupported".toList, Text.isWord c = true := by decide
      have read := Text.takeWhile_append_of_head word
        (show ∀ c ∈ ('(' :: '"' :: inside).head?, Text.isWord c = false by
          rintro c ⟨⟩
          decide)
      have written :=
        Text.takeWhile_append_of_head isName.isWord fun c first => (ends c first).2
      rw [whole, read.2] at written
      exact absurd rfl (ends '(' (by rw [← written.2]; rfl)).1

theorem unsupported?_append
    {argument : Text} (plain : '"' ∉ argument) (rest : Text) :
    unsupported? ("Unsupported(\"" ++ argument ++ "\")" ++ rest) =
      some ("Unsupported(\"" ++ argument ++ "\")", rest) := by
  obtain ⟨taken, dropped⟩ := takeWhile_append_quote plain (')' :: rest)
  have whole : "Unsupported(\"" ++ argument ++ "\")" ++ rest =
      "Unsupported(\"".toList ++ (argument ++ '"' :: ')' :: rest) := by
    simp
  rw [whole, unsupported?, Text.after?_append]
  simp only [Option.bind_eq_bind, Option.bind_some, taken, dropped]
  simp [Text.after?]

/-- A type is read back where no word and no argument list goes on behind it. -/
theorem type?_append
    (isType : Text.IsName type ∨ IsUnsupported type)
    (ends : ∀ c ∈ rest.head?, c ≠ '(' ∧ Text.isWord c = false) :
    type? (type ++ rest) = some (type, rest) := by
  rcases isType with isName | ⟨argument, plain, rfl⟩
  · have atEnd : Text.atWordEnd rest = true :=
      Text.atWordEnd_iff.mpr fun c first => (ends c first).2
    rw [type?, unsupported?_of_isName isName ends, isName.identifier?_append atEnd]
    rfl
  · rw [type?, unsupported?_append plain]
    rfl

theorem exists_of_unsupported?
    {text behind : Text} (found : unsupported? text = some (type, behind)) :
    IsUnsupported type ∧ text = type ++ behind := by
  simp only [unsupported?, Option.bind_eq_bind, Option.bind_eq_some_iff] at found
  obtain ⟨inside, opened, further, closed, same⟩ := found
  obtain ⟨rfl, rfl⟩ := Prod.mk.inj (Option.some.inj same)
  have plain : '"' ∉ inside.takeWhile (· ≠ '"') := fun quote => by
    simpa using List.mem_takeWhile_imp quote
  have whole := List.takeWhile_append_dropWhile (p := (· ≠ '"')) (l := inside)
  rw [Text.eq_append_of_after? closed] at whole
  refine ⟨⟨inside.takeWhile (· ≠ '"'), plain, rfl⟩, ?_⟩
  calc
    text = "Unsupported(\"" ++ inside := Text.eq_append_of_after? opened
    _ = "Unsupported(\"" ++ (inside.takeWhile (· ≠ '"') ++ ("\")" ++ further)) := by
      rw [whole]
    _ = _ := by simp

/-- The type of a field line is a name or unsupported, and the line goes on behind
it. -/
theorem exists_of_type?
    {text behind : Text} (found : type? text = some (type, behind)) :
    (Text.IsName type ∨ IsUnsupported type) ∧ text = type ++ behind := by
  unfold type? at found
  cases unsupported : unsupported? text with
  | some pair =>
      rw [unsupported] at found
      obtain rfl : pair = (type, behind) := by simpa using found
      obtain ⟨isUnsupported, whole⟩ := exists_of_unsupported? unsupported
      exact ⟨Or.inr isUnsupported, whole⟩
  | none =>
      rw [unsupported] at found
      have identifier : Text.identifier? text = some (type, behind) := by
        simpa using found
      obtain ⟨isName, whole, _⟩ := Text.isName_of_identifier? identifier
      exact ⟨Or.inl isName, whole⟩

/-- A type starts with something that is seen. -/
theorem exists_cons_of_isType (isType : Text.IsName type ∨ IsUnsupported type) :
    ∃ c others, type = c :: others ∧ Text.isBlank c = false := by
  rcases isType with isName | ⟨argument, _, written⟩
  · obtain ⟨c, others, rfl⟩ := List.exists_cons_of_ne_nil isName.ne_nil
    exact ⟨c, others, rfl, isName.not_isBlank c List.mem_cons_self⟩
  · exact ⟨'U', _, written, by decide⟩

/-! ## Marks -/

/-- The marks of a list and of an optional field. -/
def marks (parts : FieldLine) : Text :=
  (if parts.isList then ['[', ']'] else []) ++ if parts.isOptional then ['?'] else []

theorem mem_of_mem_marks {c : Char} (member : c ∈ parts.marks) : c ∈ ['[', ']', '?'] := by
  rcases List.mem_append.mp member with list | optional
  · have known : c ∈ ['[', ']'] := List.mem_ite_nil_right.mp list |>.2
    exact List.mem_append_left ['?'] known
  · have known : c ∈ ['?'] := List.mem_ite_nil_right.mp optional |>.2
    exact List.mem_append_right ['[', ']'] known

/-- Behind a type stands a mark, or what comes next. -/
theorem head?_marks_append {c : Char} (first : c ∈ (parts.marks ++ rest).head?) :
    c ∈ ['[', ']', '?'] ∨ c ∈ rest.head? := by
  rw [Option.mem_def, List.head?_append, Option.or_eq_some_iff] at first
  rcases first with mark | ⟨_, behind⟩
  · exact Or.inl (mem_of_mem_marks (List.mem_of_mem_head? mark))
  · exact Or.inr behind

/-! ## Lines -/

/-- The line that is written from the parts, with a gap behind the name. -/
def row (parts : FieldLine) (gap : Text) : Text :=
  parts.name ++ (gap ++ (parts.type ++ (parts.marks ++ parts.attributes)))

/-- Each part of the written line ends where the next one starts. -/
structure IsReadable (parts : FieldLine) (gap : Text) : Prop where
  name : Text.IsName parts.name
  filled : gap ≠ []
  blank : ∀ c ∈ gap, Text.isBlank c = true
  type : type? (parts.type ++ (parts.marks ++ parts.attributes)) =
    some (parts.type, parts.marks ++ parts.attributes)
  /-- The attributes do not start with the mark of a list. -/
  single : parts.isList = false → parts.isOptional = false →
    Text.after? "[]" parts.attributes = none
  /-- The attributes do not start with the mark of an optional field. -/
  required : parts.isOptional = false → Text.after? "?" parts.attributes = none

theorem IsReadable.isType (readable : parts.IsReadable gap) :
    Text.IsName parts.type ∨ IsUnsupported parts.type :=
  (exists_of_type? readable.type).1

/-- Attributes that go on with no word, argument list or mark leave the type readable. -/
theorem isReadable
    (name : Text.IsName parts.name) (filled : gap ≠ [])
    (blank : ∀ c ∈ gap, Text.isBlank c = true)
    (isType : Text.IsName parts.type ∨ IsUnsupported parts.type)
    (ends : ∀ c ∈ parts.attributes.head?, Text.isWord c = false ∧ c ∉ ['(', '[', '?']) :
    parts.IsReadable gap := by
  have noMark : ∀ mark ∈ ['[', '?'], parts.attributes.head? ≠ some mark :=
    fun mark known first => (ends mark first).2 (List.mem_cons_of_mem '(' known)
  refine ⟨name, filled, blank, type?_append isType fun c first => ?_,
    fun _ _ => Text.after?_of_head? rfl (noMark '[' (by decide)),
    fun _ => Text.after?_of_head? rfl (noMark '?' (by decide))⟩
  rcases head?_marks_append first with mark | behind
  · exact (show ∀ c ∈ ['[', ']', '?'], c ≠ '(' ∧ Text.isWord c = false by decide) c mark
  · obtain ⟨word, other⟩ := ends c behind
    exact ⟨List.ne_of_not_mem_cons other, word⟩

/-- White space and the sign of an attribute end what stands in front of them. -/
theorem ends_of_isBlank {c : Char} (apart : Text.isBlank c = true ∨ c = '@') :
    Text.isWord c = false ∧ c ∉ ['(', '[', '?'] := by
  rcases apart with blank | rfl
  · have visible : ∀ d ∈ ['(', '[', '?'], Text.isBlank d = false := by decide
    exact ⟨Text.not_isWord_of_isBlank blank, fun other => by simp [visible c other] at blank⟩
  · decide

/-- A text whose parts are read is the line that they are written on. -/
theorem exists_of_ofText?_eq_some (read : ofText? content = some parts) :
    ∃ gap, parts.IsReadable gap ∧ content = parts.row gap := by
  simp only [ofText?, Option.bind_eq_bind, Option.bind_eq_some_iff,
    Option.guard_eq_some'] at read
  obtain ⟨⟨name, behind⟩, identifier, _, spaced, ⟨type, further⟩, typed, same⟩ := read
  obtain ⟨isName, rfl, _⟩ := Text.isName_of_identifier? identifier
  obtain ⟨_, parted⟩ := exists_of_type? typed
  -- What stands behind the type shows which marks there are.
  have marked : parts.name = name ∧ parts.type = type ∧
      further = parts.marks ++ parts.attributes ∧
      (parts.isList = false → parts.isOptional = false →
        Text.after? "[]" parts.attributes = none) ∧
      (parts.isOptional = false → Text.after? "?" parts.attributes = none) := by
    cases listed : Text.after? "[]" further with
    | none =>
        simp only [listed] at same
        cases optional : Text.after? "?" further with
        | none =>
            simp only [optional] at same
            cases same
            exact ⟨rfl, rfl, rfl, fun _ _ => listed, fun _ => optional⟩
        | some rest =>
            simp only [optional] at same
            cases same
            exact ⟨rfl, rfl, Text.eq_append_of_after? optional, nofun, nofun⟩
    | some unlisted =>
        simp only [listed] at same
        have list := Text.eq_append_of_after? listed
        cases optional : Text.after? "?" unlisted with
        | none =>
            simp only [optional] at same
            cases same
            exact ⟨rfl, rfl, list, nofun, fun _ => optional⟩
        | some rest =>
            simp only [optional] at same
            cases same
            rw [Text.eq_append_of_after? optional] at list
            exact ⟨rfl, rfl, list, nofun, nofun⟩
  obtain ⟨rfl, rfl, rfl, single, required⟩ := marked
  have whole := List.takeWhile_append_dropWhile (p := Text.isBlank) (l := behind)
  rw [← Text.trimStart, parted] at whole
  refine ⟨behind.takeWhile Text.isBlank, ⟨isName, ?_, fun c => List.mem_takeWhile_imp,
    parted ▸ typed, single, required⟩, by rw [row, whole]⟩
  cases behind with
  | nil => contradiction
  | cons c behind => simp [List.takeWhile_cons_of_pos (p := Text.isBlank) spaced]

/-- The parts of a readable line are read back. -/
theorem ofText?_row (readable : parts.IsReadable gap) :
    ofText? (parts.row gap) = some parts := by
  obtain ⟨c, others, rfl⟩ := List.exists_cons_of_ne_nil readable.filled
  have spaced : Text.isBlank c = true := readable.blank c List.mem_cons_self
  have atEnd : Text.atWordEnd
      (c :: others ++ (parts.type ++ (parts.marks ++ parts.attributes))) = true := by
    rw [Text.atWordEnd_iff]
    rintro d ⟨⟩
    exact Text.not_isWord_of_isBlank spaced
  have start : Text.trimStart
      (c :: others ++ (parts.type ++ (parts.marks ++ parts.attributes))) =
        parts.type ++ (parts.marks ++ parts.attributes) := by
    obtain ⟨d, word, written, visible⟩ := exists_cons_of_isType readable.isType
    rw [Text.trimStart_append_of_blank readable.blank, written, List.cons_append,
      Text.trimStart_cons_of_not_blank visible]
  rw [ofText?, row, readable.name.identifier?_append atEnd]
  simp only [Option.bind_eq_bind, Option.bind_some, start, readable.type]
  obtain ⟨name, type, isList, isOptional, attributes⟩ := parts
  cases isList <;> cases isOptional
  case false.false =>
    have single : Text.after? ['[', ']'] attributes = none := readable.single rfl rfl
    have required : Text.after? ['?'] attributes = none := readable.required rfl
    simp [marks, single, required, spaced]
  case true.false =>
    have required : Text.after? ['?'] attributes = none := readable.required rfl
    simp [marks, Text.after?, required, spaced]
  case false.true => simp [marks, Text.after?, spaced]
  case true.true => simp [marks, Text.after?, spaced]

/-- The parts of a text are those that it is written from. -/
theorem ofText?_eq_some_iff :
    ofText? content = some parts ↔
      ∃ gap, parts.IsReadable gap ∧ content = parts.row gap := by
  constructor
  · exact exists_of_ofText?_eq_some
  · rintro ⟨gap, readable, rfl⟩
    exact ofText?_row readable

/-- The line that parts are read from, without what the parts say of its marks. -/
theorem exists_of_ofText? (read : ofText? content = some parts) :
    Text.IsName parts.name ∧ (Text.IsName parts.type ∨ IsUnsupported parts.type) ∧
      ∃ gap marks, content = parts.name ++ gap ++ parts.type ++ marks ++ parts.attributes ∧
        gap ≠ [] ∧ (∀ c ∈ gap, Text.isBlank c = true) ∧ ∀ c ∈ marks, c ∈ ['[', ']', '?'] := by
  obtain ⟨gap, readable, rfl⟩ := ofText?_eq_some_iff.mp read
  exact ⟨readable.name, readable.isType, gap, parts.marks, by simp [row],
    readable.filled, readable.blank, fun _ => mem_of_mem_marks⟩

end FieldLine

end SchemaCompose
