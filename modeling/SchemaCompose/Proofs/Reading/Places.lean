import SchemaCompose.Proofs.Reading.AcceptedBodies
import SchemaCompose.Proofs.Reading.Documents
import SchemaCompose.Proofs.RoundTrip.Fields

/-!
# Places of attributes

An attribute with arguments may stand in a line behind other attributes and in front of
others, and a comment may follow.  Whatever its arguments hold, if they are balanced then
the comment begins where it would begin without the attribute, and the scanner reads the
attributes around it as before (`Attribute.Surrounds.code_eq`,
`Attribute.Surrounds.scan_eq`).
-/

namespace SchemaCompose

/-! ## The code of a line -/

/-- Behind plain characters a scanner stands outside of literals or inside of one, as it did
in front of them. -/
theorem LiteralState.run_of_plain
    (state : LiteralState) {text : Text} (plain : Quotable text) (filled : text ≠ []) :
    state.run text = if state = .outside then .outside else .inside := by
  induction text generalizing state with
  | nil => contradiction
  | cons c text ih =>
      rw [Quotable, List.forall_mem_cons] at plain
      have next : state.next c = if state = .outside then .outside else .inside := by
        cases state with
        | outside => simp [LiteralState.next, plain.1]
        | inside => simp [LiteralState.next, plain.1]
        | escaped => rfl
      rw [run_cons, next]
      cases text with
      | nil => rfl
      | cons d text =>
          rw [ih _ plain.2 (by simp)]
          by_cases outside : state = .outside
          · simp [outside]
          · simp [outside]

namespace Text

/-- Where arguments begin does not depend on the name in front of them, and neither does
where the comment begins, even if a literal was left open before. -/
theorem code_append_opening
    {front name : Text} (silent : beforeComment .outside front = front)
    (isName : Attribute.IsName name) (rest : Text) :
    code (front ++ (name ++ '(' :: rest)) = front ++ (name ++ '(' ::
      trimEnd (beforeComment
        (if LiteralState.run .outside front = .outside then .outside else .inside)
        rest)) := by
  have plain : ∀ c ∈ name ++ ['('], c ∉ ['"', '\\', '/'] := by
    rw [List.forall_mem_append]
    exact ⟨isName.apart (by decide), by decide⟩
  have state := LiteralState.run_of_plain (LiteralState.run .outside front)
    (fun c member => ⟨fun same => plain c member (by simp [same]),
      fun same => plain c member (by simp [same])⟩) (show name ++ ['('] ≠ [] by simp)
  have opening : beforeComment (LiteralState.run .outside front) (name ++ ['(']) =
      name ++ ['('] :=
    beforeComment_of_no_slash fun slash => plain '/' slash (by decide)
  obtain ⟨others, first⟩ := isName.exists_cons
  have regroup : ∀ text : Text, front ++ (name ++ '(' :: text) =
      front ++ (name ++ ['(']) ++ text := by
    simp
  have silentOpening : beforeComment .outside (front ++ (name ++ ['('])) =
      front ++ (name ++ ['(']) := by
    rw [beforeComment_append silent (Or.inr (by simp [first])), opening]
  have ends : ∀ c ∈ (front ++ (name ++ ['('])).getLast?, isBlank c = false := by
    intro c last
    rw [List.getLast?_append, List.getLast?_append] at last
    obtain rfl : '(' = c := by simpa using last
    decide
  rw [regroup, code, beforeComment_append silentOpening (Or.inl (by simp)),
    LiteralState.run_append, state, trimEnd_append_of_visible ends]
  exact (regroup _).symm

end Text

/-! ## Rows of attributes -/

namespace Attribute

variable {text lead behind name inner : Text} {sources leading trailing : List Attribute}

theorem Spells.scan_append {row : List (Text × Attribute)} (spells : Spells text row)
    (ends : ∀ c ∈ behind.head?, Text.isBlank c = true ∨ c = '@') :
    scan (text ++ behind) = (scan behind).map (row.map Prod.snd ++ ·) := by
  induction spells with
  | nil =>
      cases scanned : scan behind with
      | error fault => simp [scanned, Except.map]
      | ok sources => simp [scanned, Except.map]
  | gap isBlank _ ih => rw [List.cons_append, scan_cons_of_blank isBlank, ih]
  | @entry cut text source row spelled further ih =>
      have first : ∀ c ∈ (text ++ behind).head?, Text.isBlank c = true ∨ c = '@' := by
        cases text with
        | nil => exact ends
        | cons c text => exact further.head_cases
      rw [List.append_assoc, spelled.scan_append first, ih]
      cases scan behind with
      | error fault => rfl
      | ok sources => rfl

/-- Attributes are scanned behind others as they are scanned by themselves. -/
theorem scan_append_of_scan (scanned : scan text = .ok sources)
    (ends : ∀ c ∈ behind.head?, Text.isBlank c = true ∨ c = '@') :
    scan (text ++ behind) = (scan behind).map (sources ++ ·) := by
  obtain ⟨row, spells, rfl⟩ := exists_spells_of_scan scanned
  exact spells.scan_append ends

/-- A row of attributes begins with white space or with an attribute. -/
theorem head_cases_of_scan (scanned : scan text = .ok sources)
    (ends : ∀ c ∈ behind.head?, Text.isBlank c = true ∨ c = '@') :
    ∀ c ∈ (text ++ behind).head?, Text.isBlank c = true ∨ c = '@' := by
  obtain ⟨row, spells, _⟩ := exists_spells_of_scan scanned
  cases text with
  | nil => exact ends
  | cons c text => exact spells.head_cases

theorem IsName.head_cases_append (isName : IsName name) (rest : Text) :
    ∀ c ∈ (name ++ rest).head?, Text.isBlank c = true ∨ c = '@' := by
  obtain ⟨others, rfl⟩ := isName.exists_cons
  rintro c ⟨⟩
  exact Or.inr rfl

/-- An attribute with arguments. -/
abbrev call (name inner : Text) : Attribute :=
  ⟨name, some inner⟩

/-- What is left of an attribute and of what follows it, once the comment is taken off,
does not depend on the name of the attribute. -/
theorem exists_code_call
    {front : Text} (silent : Text.beforeComment .outside front = front)
    (arguments behind : Text) :
    ∃ inner, inner <+: arguments ++ ')' :: behind ∧ ∀ name, IsName name →
      Text.code (front ++ (call name arguments).write ++ behind) =
        front ++ (name ++ '(' :: inner) := by
  refine ⟨Text.trimEnd (Text.beforeComment
      (if LiteralState.run .outside front = .outside then .outside else .inside)
      (arguments ++ ')' :: behind)),
    (Text.prefix_trimEnd _).trans (Text.prefix_beforeComment _ _), fun name isName => ?_⟩
  rw [← Text.code_append_opening silent isName (arguments ++ ')' :: behind)]
  simp [write]

theorem scan_call_append
    (scanned : scan lead = .ok leading) (isName : IsName name)
    (nested : nesting 0 .outside inner = some (0, .outside)) (behind : Text) :
    scan (lead ++ (call name inner).write ++ behind) =
      (scan behind).map fun trailing =>
        leading ++ call name (Text.trim inner) :: trailing := by
  have own : (call name inner).write ++ behind = name ++ ('(' :: inner ++ ')' :: behind) := by
    simp [write]
  rw [List.append_assoc, own, scan_append_of_scan scanned (isName.head_cases_append _),
    ← List.append_assoc, scan_of_name_with_arguments isName nested (Or.inl rfl)]
  cases scan behind with
  | error fault => rfl
  | ok trailing => rfl

theorem head_cases_call
    (scanned : scan lead = .ok leading) (isName : IsName name) (inner behind : Text) :
    ∀ c ∈ (lead ++ (call name inner).write ++ behind).head?,
      Text.isBlank c = true ∨ c = '@' := by
  have whole : lead ++ (call name inner).write ++ behind =
      lead ++ (name ++ '(' :: (inner ++ ')' :: behind)) := by
    simp [write]
  rw [whole]
  exact head_cases_of_scan scanned (isName.head_cases_append _)

theorem isWritten_call (isName : IsName name) (balanced : Balanced inner) :
    (call name inner).IsWritten :=
  ⟨isName, by rintro _ ⟨⟩; exact balanced⟩

/-- In a line an attribute may stand behind the attributes `leading`, which make up `lead`,
and in front of the attributes `trailing`, which are all of `behind` up to its comment. -/
@[mk_iff]
structure Surrounds (lead behind : Text) (leading trailing : List Attribute) : Prop where
  silent : Text.beforeComment .outside lead = lead
  leads : scan lead = .ok leading
  trails : scan (Text.code behind) = .ok trailing

instance (lead behind : Text) (leading trailing : List Attribute) :
    Decidable (Surrounds lead behind leading trailing) :=
  decidable_of_iff' _ (surrounds_iff lead behind leading trailing)

namespace Surrounds

variable (surrounds : Surrounds lead behind leading trailing)

include surrounds

theorem head_cases : ∀ c ∈ lead.head?, Text.isBlank c = true ∨ c = '@' := by
  have first := head_cases_of_scan surrounds.leads (show ∀ c ∈ [].head?, _ by simp)
  rwa [List.append_nil] at first

theorem run_eq : LiteralState.run .outside lead = .outside := by
  obtain ⟨row, spells, _⟩ := exists_spells_of_scan surrounds.leads
  exact spells.run_eq

/-- Behind a text that closes its literals, the comment begins behind the attribute and the
attributes that follow it. -/
theorem code_eq
    {front : Text} (silent : Text.beforeComment .outside front = front)
    (closed : LiteralState.run .outside front = .outside)
    (isName : IsName name) (balanced : Balanced inner) :
    Text.code (front ++ (lead ++ (call name inner).write ++ behind)) =
      front ++ (lead ++ (call name inner).write ++ Text.code behind) := by
  have written := isWritten_call isName balanced
  have own := balanced_write written
  obtain ⟨others, first⟩ := exists_cons_write written
  have apart : lead.head? ≠ some '/' := by
    intro slash
    rcases surrounds.head_cases '/' slash with blank | sign
    · contradiction
    · contradiction
  have silentLead : Text.beforeComment .outside (front ++ lead) = front ++ lead := by
    rw [Text.beforeComment_append silent (Or.inr apart), closed, surrounds.silent]
  have closedLead : LiteralState.run .outside (front ++ lead) = .outside := by
    rw [LiteralState.run_append, closed, surrounds.run_eq]
  have silentOwn : Text.beforeComment .outside (front ++ lead ++ (call name inner).write) =
      front ++ lead ++ (call name inner).write := by
    rw [Text.beforeComment_append silentLead (Or.inr (by rw [first]; simp)), closedLead,
      own.silent]
  have closedOwn :
      LiteralState.run .outside (front ++ lead ++ (call name inner).write) = .outside := by
    rw [LiteralState.run_append, closedLead, own.run_eq]
  have regroup : ∀ rest : Text, front ++ (lead ++ (call name inner).write ++ rest) =
      front ++ lead ++ (call name inner).write ++ rest := by
    simp
  rw [regroup, regroup, Text.code_append_of_closed silentOwn closedOwn]
  intro c last
  rw [write, List.getLast?_append, List.getLast?_append] at last
  obtain rfl : ')' = c := by simpa using last
  decide

theorem scan_eq (isName : IsName name) (balanced : Balanced inner) :
    scan (lead ++ (call name inner).write ++ Text.code behind) =
      .ok (leading ++ call name (Text.trim inner) :: trailing) := by
  rw [scan_call_append surrounds.leads isName balanced.nested, surrounds.trails]
  rfl

end Surrounds

end Attribute

/-! ## Fields -/

namespace FieldLine

variable {head rest : Text} {parts : FieldLine}

/-- What stands between the name of a field and its attributes. -/
@[mk_iff]
structure IsHead (head : Text) (parts : FieldLine) : Prop where
  declares : ofText? head = some parts
  bare : parts.attributes = []

instance (head : Text) (parts : FieldLine) : Decidable (IsHead head parts) :=
  decidable_of_iff' _ (isHead_iff head parts)

/-- Attributes behind the head of a field line are its attributes. -/
theorem IsHead.ofText?_append (isHead : IsHead head parts)
    (ends : ∀ c ∈ rest.head?, Text.isBlank c = true ∨ c = '@') :
    ofText? (head ++ rest) = some { parts with attributes := rest } := by
  obtain ⟨gap, readable, rfl⟩ := ofText?_eq_some_iff.mp isHead.declares
  refine ofText?_eq_some_iff.mpr ⟨gap, isReadable readable.name readable.filled
    readable.blank readable.isType fun c first => ends_of_isBlank (ends c first), ?_⟩
  simp [row, marks, isHead.bare]

/-- No comment begins in the head of a field line. -/
theorem IsHead.silent (isHead : IsHead head parts) :
    Text.beforeComment .outside head = head := by
  obtain ⟨isName, isType, gap, marks, whole, _, blank, known⟩ :=
    exists_of_ofText? isHead.declares
  rw [whole, isHead.bare, List.append_nil]
  have slashName : '/' ∉ parts.name := isName.not_mem (by decide)
  have slashGap : '/' ∉ gap := fun slash => absurd (blank '/' slash) (by decide)
  have slashMarks : '/' ∉ marks := fun slash => absurd (known '/' slash) (by decide)
  rcases isType with isWord | ⟨argument, plain, unsupported⟩
  · have slashType : '/' ∉ parts.type := isWord.not_mem (by decide)
    apply Text.beforeComment_of_no_slash
    simp [slashName, slashGap, slashType, slashMarks]
  · -- A slash in the argument stands inside its literal.
    have regroup : parts.name ++ gap ++ parts.type ++ marks =
        (parts.name ++ gap ++ "Unsupported(") ++
          '"' :: (argument ++ '"' :: ')' :: marks) := by
      simp [unsupported]
    have front : Text.beforeComment .outside (parts.name ++ gap ++ "Unsupported(") =
        parts.name ++ gap ++ "Unsupported(" := by
      apply Text.beforeComment_of_no_slash
      simp [slashName, slashGap]
    have quoteGap : '"' ∉ gap := fun quote => absurd (blank '"' quote) (by decide)
    have outside : LiteralState.run .outside (parts.name ++ gap ++ "Unsupported(") =
        .outside := by
      apply LiteralState.run_outside_of_no_quote
      simp [isName.not_mem (show Text.isWord '"' = false by decide), quoteGap]
    have behind : Text.beforeComment (LiteralState.run .inside argument)
        ('"' :: ')' :: marks) = '"' :: ')' :: marks :=
      Text.beforeComment_of_no_slash (by simp [slashMarks])
    rw [regroup, Text.beforeComment_append front (Or.inr (by simp)), outside,
      Text.beforeComment, if_neg (by simp)]
    show _ ++ '"' :: Text.beforeComment .inside _ = _
    rw [Text.beforeComment_of_inside (by simp) plain, behind]

theorem IsHead.declares_append (isHead : IsHead head parts)
    (ends : ∀ c ∈ rest.head?, Text.isBlank c = true ∨ c = '@') {line : Line}
    (code : line.code = head ++ rest) :
    FieldLine.ofText? line.code = some { parts with attributes := rest } ∧
      line.isField = true ∧ line.fieldName? = some parts.name := by
  have declares := isHead.ofText?_append ends
  rw [← code] at declares
  have isField := Line.isField_of_ofText? declares
  exact ⟨declares, isField, by rw [Line.fieldName?, isField, if_pos rfl, declares]; rfl⟩

/-- The field of a line before its attributes are read. -/
def field (parts : FieldLine) (kind : FieldKind) (documentation : Option Text) : Field where
  name := parts.name
  type := parts.type
  kind := kind
  isList := parts.isList
  isRequired := !parts.isOptional && !parts.isList
  documentation := documentation

/-- Behind the head of a field line its attributes are read one by one. -/
theorem IsHead.read_append (isHead : IsHead head parts) {names : DeclaredNames}
    {kind : FieldKind} (known : names.kindOf? parts.type = some kind)
    (ends : ∀ c ∈ rest.head?, Text.isBlank c = true ∨ c = '@') {sources : List Attribute}
    (scanned : Attribute.scan rest = .ok sources) (documentation : Option Text) :
    Field.read names documentation (head ++ rest) =
      sources.foldlM Field.withAttribute (parts.field kind documentation) := by
  simp only [Field.read, isHead.ofText?_append ends, known, scanned, Reading.ok_bind, field]

end FieldLine

end SchemaCompose
