import SchemaCompose.Proofs.Mining.Cuts
import SchemaCompose.Proofs.Reading.Spelling
import SchemaCompose.Proofs.Schema.FieldLines

/-!
# Bodies of accepted blocks

A line of a body that the reader accepts is never taken for a part of the layout:
it does not start with a closing brace, and it is not the header of a model
(`isEntry_of_mem_body`).  What starts a line decides both, since a comment comes
behind it.
-/

namespace SchemaCompose

/-! ## The start of a line -/

namespace Text

/-- What a line starts with is code, if it holds no slash and no quote. -/
theorem code_append
    {lead : Text} (slash : '/' ∉ lead) (quote : '"' ∉ lead)
    (visible : ∀ c ∈ lead.getLast?, isBlank c = false) (rest : Text) :
    code (lead ++ rest) = lead ++ code rest := by
  refine code_append_of_closed (beforeComment_of_no_slash slash)
    (LiteralState.run_outside_of_no_quote quote) (fun c last => ⟨visible c last, ?_⟩) rest
  rintro rfl
  exact slash (List.mem_of_getLast? last)

end Text

namespace Attribute

/-- A text that is scanned starts with a blank or an at-sign. -/
theorem head_of_scan
    {c : Char} {rest : Text} {sources : List Attribute}
    (scanned : scan (c :: rest) = .ok sources) :
    Text.isBlank c = true ∨ c = '@' := by
  obtain ⟨row, spells, _⟩ := exists_spells_of_scan scanned
  exact spells.head_cases c rfl

theorem scan_append_of_blank
    {gap : Text} (blank : ∀ c ∈ gap, Text.isBlank c = true) (rest : Text) :
    scan (gap ++ rest) = scan rest := by
  induction gap with
  | nil => rfl
  | cons c gap ih =>
      rw [List.forall_mem_cons] at blank
      rw [List.cons_append, scan_cons_of_blank blank.1, ih blank.2]

end Attribute

namespace Text

theorem isNameStart_of_identifier?
    {c : Char} {rest name behind : Text}
    (found : identifier? (c :: rest) = some (name, behind)) :
    isNameStart c = true := by
  rw [identifier?] at found
  split_ifs at found with starts
  exact starts

/-! ## Headers -/

/-- The text starts like the header of the model of a name. -/
def IsHeaderOf (name text : Text) : Prop :=
  ∃ gap between tail, gap ≠ [] ∧ (∀ c ∈ gap, isBlank c = true) ∧
    (∀ c ∈ between, isBlank c = true) ∧
    text = "model" ++ gap ++ name ++ between ++ '\x7b' :: tail

theorem isHeaderOf_of_modelName?
    {row name : Text} (found : Mining.modelName? row = some name) :
    IsHeaderOf name row := by
  obtain ⟨behind, between, tail, rfl, blank, _, start, gap⟩ :=
    Mining.exists_of_modelName? found
  have whole := List.takeWhile_append_dropWhile (p := isBlank) (l := behind)
  rw [← trimStart, start] at whole
  refine ⟨behind.takeWhile isBlank, between, tail, ?_,
    fun c member => List.mem_takeWhile_imp member, gap, ?_⟩
  · obtain ⟨c, further, rfl⟩ : ∃ c further, behind = c :: further := by
      cases behind with
      | nil => simp at blank
      | cons c further => exact ⟨c, further, rfl⟩
    rw [List.takeWhile_cons, if_pos (by simpa using blank)]
    simp
  · conv_lhs => rw [← whole]
    simp

theorem IsHeaderOf.code
    {row name : Text} (isName : IsName name) (isHeader : IsHeaderOf name row) :
    IsHeaderOf name (code row) := by
  obtain ⟨gap, between, tail, filled, blank, blankBehind, rfl⟩ := isHeader
  have apart : ∀ d : Char, isBlank d = false → isWord d = false →
      d ∉ "model\x7b".toList →
      d ∉ "model" ++ gap ++ name ++ between ++ ['\x7b'] := by
    intro d visible other absent member
    have inGap : d ∉ gap := fun inside => by
      rw [blank d inside] at visible
      contradiction
    have inBetween : d ∉ between := fun inside => by
      rw [blankBehind d inside] at visible
      contradiction
    have inName : d ∉ name := isName.not_mem other
    have outside := absent
    simp only [List.mem_append, List.mem_singleton] at member outside
    rcases member with (((inside | inside) | inside) | inside) | inside
    · exact absent (List.mem_append_left ['\x7b'] inside)
    · exact inGap inside
    · exact inName inside
    · exact inBetween inside
    · exact absent (by rw [inside]; decide)
  have split : "model" ++ gap ++ name ++ between ++ '\x7b' :: tail =
      ("model" ++ gap ++ name ++ between ++ ['\x7b']) ++ tail := by
    simp
  have visible : ∀ c ∈ ("model" ++ gap ++ name ++ between ++ ['\x7b']).getLast?,
      isBlank c = false := by
    intro c last
    rw [List.getLast?_concat] at last
    cases last
    decide
  refine ⟨gap, between, Text.code tail, filled, blank, blankBehind, ?_⟩
  rw [split, code_append (apart '/' (by decide) (by decide) (by decide))
    (apart '"' (by decide) (by decide) (by decide)) visible]
  simp

/-- The words of a header can be cut off one by one. -/
theorem IsHeaderOf.parts
    {name text : Text} (isName : IsName name) (isHeader : IsHeaderOf name text) :
    ∃ behind between tail, text = "model".toList ++ behind ∧
      behind.head?.any isBlank = true ∧
      trimStart behind = name ++ (between ++ '\x7b' :: tail) ∧
      (∀ c ∈ between, isBlank c = true) ∧
      identifier? (name ++ (between ++ '\x7b' :: tail)) =
        some (name, between ++ '\x7b' :: tail) := by
  obtain ⟨gap, between, tail, filled, blank, blankBehind, rfl⟩ := isHeader
  obtain ⟨c, further, rfl⟩ := List.exists_cons_of_ne_nil filled
  have ends : atWordEnd (between ++ '\x7b' :: tail) = true := by
    rw [atWordEnd_iff]
    cases between with
    | nil =>
        rintro d ⟨⟩
        decide
    | cons d between =>
        rintro e ⟨⟩
        exact not_isWord_of_isBlank (blankBehind _ List.mem_cons_self)
  have start : trimStart (c :: further ++ (name ++ (between ++ '\x7b' :: tail))) =
      name ++ (between ++ '\x7b' :: tail) := by
    rw [trimStart_append_of_blank blank]
    apply trimStart_of_head
    intro d head
    exact not_isBlank_of_isWord (isName.head?_append _ d head)
  exact ⟨c :: further ++ (name ++ (between ++ '\x7b' :: tail)), between, tail,
    by simp, by simpa using blank c List.mem_cons_self, start, blankBehind,
    isName.identifier?_append ends⟩

theorem identifier?_keyword
    {behind : Text} (blank : behind.head?.any isBlank = true) :
    identifier? ("model".toList ++ behind) = some ("model".toList, behind) := by
  have keyword : IsName "model".toList := by decide
  apply keyword.identifier?_append
  rw [atWordEnd_iff]
  intro c head
  apply not_isWord_of_isBlank
  rw [head] at blank
  exact blank

end Text

/-! ## Lines that are accepted -/

/-- The code of a line that belongs to a body. -/
structure IsBodyCode (code : Text) : Prop where
  opened : code.head? ≠ some '}'
  unheaded : ∀ name, Text.IsName name → ¬ Text.IsHeaderOf name code

theorem isBodyCode_nil : IsBodyCode [] := by
  refine ⟨by simp, ?_⟩
  rintro name _ ⟨gap, between, tail, _, _, _, same⟩
  simp at same

theorem isBodyCode_of_scan
    {code : Text} {sources : List Attribute}
    (scanned : Attribute.scan code = .ok sources) : IsBodyCode code := by
  constructor
  · intro closing
    obtain ⟨rest, rfl⟩ := List.head?_eq_some_iff.mp closing
    rcases Attribute.head_of_scan scanned with blank | mark
    · contradiction
    · contradiction
  · rintro name _ ⟨gap, between, tail, _, _, _, rfl⟩
    rcases Attribute.head_of_scan scanned with blank | mark
    · contradiction
    · contradiction

/-- A line that starts with an identifier does not close a block. -/
theorem opened_of_identifier?
    {code name behind : Text} (found : Text.identifier? code = some (name, behind)) :
    code.head? ≠ some '}' := by
  intro closing
  obtain ⟨rest, rfl⟩ := List.head?_eq_some_iff.mp closing
  have starts := Text.isNameStart_of_identifier? found
  contradiction

/-- A brace behind a name is no attribute. -/
theorem not_scan_brace
    {gap tail : Text} (blank : ∀ c ∈ gap, Text.isBlank c = true)
    {sources : List Attribute} :
    Attribute.scan (gap ++ '\x7b' :: tail) ≠ .ok sources := by
  intro scanned
  rw [Attribute.scan_append_of_blank blank] at scanned
  rcases Attribute.head_of_scan scanned with blank | mark
  · contradiction
  · contradiction

theorem isBodyCode_of_ofText?
    {code : Text} {line : FieldLine} {sources : List Attribute}
    (parts : FieldLine.ofText? code = some line)
    (scanned : Attribute.scan line.attributes = .ok sources) :
    IsBodyCode code := by
  obtain ⟨gap, readable, whole⟩ := FieldLine.ofText?_eq_some_iff.mp parts
  refine ⟨whole ▸ readable.name.head?_ne (by decide) _, ?_⟩
  rintro name isName ⟨space, between, tail, filled, blank, blankBehind, header⟩
  -- A header is a field line whose attributes are a brace.
  let model : FieldLine := ⟨"model", name, false, false, between ++ '\x7b' :: tail⟩
  have ends : ∀ c ∈ model.attributes.head?,
      Text.isWord c = false ∧ c ∉ ['(', '[', '?'] := by
    intro c first
    cases between with
    | nil =>
        obtain rfl : '\x7b' = c := Option.some.inj first
        decide
    | cons d between =>
        obtain rfl : d = c := Option.some.inj first
        exact FieldLine.ends_of_isBlank (Or.inl (blankBehind d List.mem_cons_self))
  have isModel : Text.IsName model.name := show Text.IsName "model".toList by decide
  have headed : FieldLine.ofText? code = some model :=
    FieldLine.ofText?_eq_some_iff.mpr ⟨space,
      FieldLine.isReadable isModel filled blank (Or.inl isName) ends,
      header.trans (by simp [FieldLine.row, FieldLine.marks, model])⟩
  obtain rfl : line = model := Option.some.inj (parts.symm.trans headed)
  exact not_scan_brace blankBehind scanned

theorem isBodyCode_of_identifier?
    {code first behind : Text} (identifier : Text.identifier? code = some (first, behind))
    (apart : ∀ name rest, Text.IsName name →
      Text.trimStart behind ≠ name ++ rest) :
    IsBodyCode code := by
  refine ⟨opened_of_identifier? identifier, ?_⟩
  intro name isName isHeader
  obtain ⟨rest, between, tail, rfl, keyword, start, _⟩ := isHeader.parts isName
  rw [Text.identifier?_keyword keyword] at identifier
  cases identifier
  exact apart name _ isName start

theorem isBodyCode_of_value
    {code first behind : Text} {sources : List Attribute}
    (identifier : Text.identifier? code = some (first, behind))
    (scanned : Attribute.scan behind = .ok sources) : IsBodyCode code := by
  apply isBodyCode_of_identifier? identifier
  intro name rest isName start
  have whole := List.takeWhile_append_dropWhile (p := Text.isBlank) (l := behind)
  rw [← Text.trimStart, start] at whole
  rw [← whole, Attribute.scan_append_of_blank
    fun c member => List.mem_takeWhile_imp member] at scanned
  obtain ⟨c, others, rfl⟩ := List.exists_cons_of_ne_nil isName.ne_nil
  have word := isName.isWord c List.mem_cons_self
  rcases Attribute.head_of_scan scanned with blank | rfl
  · rw [Text.not_isWord_of_isBlank blank] at word
    contradiction
  · contradiction

theorem isBodyCode_of_property
    {code : Text} {property : Text × Text}
    (found : Properties.line? code = some property) : IsBodyCode code := by
  simp only [Properties.line?, Option.bind_eq_bind, Option.bind_eq_some_iff] at found
  obtain ⟨⟨key, behind⟩, identifier, further⟩ := found
  apply isBodyCode_of_identifier? identifier
  intro name rest isName start
  have letter := isName.head?_ne (show Text.isWord '=' = false by decide) rest
  rw [← start] at letter
  split at further
  · rename_i value equals
    rw [equals] at letter
    contradiction
  · contradiction

/-- A line that a body may hold, and that is no part of the layout. -/
structure Line.IsEntry (line : Line) : Prop where
  opened : line.text.head? ≠ some '}'
  unheaded : Mining.IsUnheaded line.text

theorem Line.code_of_closing
    {line : Line} (closing : line.text.head? = some '}') :
    ∃ rest, line.code = '}' :: rest := by
  obtain ⟨rest, row⟩ := List.head?_eq_some_iff.mp closing
  refine ⟨Text.code rest, ?_⟩
  rw [Line.code, row]
  exact Text.code_append (show '/' ∉ ['}'] by decide) (by decide) (by decide) rest

theorem Line.isEntry_of_code {line : Line} (isBodyCode : IsBodyCode line.code) :
    line.IsEntry := by
  constructor
  · intro closing
    obtain ⟨rest, code⟩ := Line.code_of_closing closing
    exact isBodyCode.opened (by rw [code]; rfl)
  · intro name found isName
    have isHeader := (Text.isHeaderOf_of_modelName? found).code isName
    exact isBodyCode.unheaded name isName isHeader

/-! ## Bodies that are accepted -/

theorem Model.isBodyCode_of_step
    {names : DeclaredNames} {reading next : Model.Reading} {line : Line}
    (read : reading.step names line = .ok next) : IsBodyCode line.code := by
  rcases Reading.step_cases read with
    ⟨_, documented, _⟩ | ⟨empty, _⟩ | ⟨_, _, scanned, _⟩ | ⟨_, readField, _⟩
  · rw [Block.code_of_documentation? documented]
    exact isBodyCode_nil
  · rw [empty]
    exact isBodyCode_nil
  · exact isBodyCode_of_scan scanned
  · obtain ⟨_, _, _, parts, _, scanned, _⟩ := Field.exists_of_read readField
    exact isBodyCode_of_ofText? parts scanned

theorem SchemaEnum.isBodyCode_of_step
    {enum next : SchemaEnum} {line : Line} (read : enum.step line = .ok next) :
    IsBodyCode line.code := by
  rcases step_cases read with
    ⟨empty, _⟩ | ⟨_, _, scanned, _⟩ | ⟨_, _, _, _, identifier, scanned, _⟩
  · rw [empty]
    exact isBodyCode_nil
  · exact isBodyCode_of_scan scanned
  · exact isBodyCode_of_value identifier scanned

theorem Properties.isBodyCode_of_step
    {kind : BlockKind} {properties next : Properties} {line : Line}
    (read : Properties.step kind properties line = .ok next) :
    IsBodyCode line.code := by
  rcases step_cases read with ⟨empty, _⟩ | ⟨_, _, property, _⟩
  · rw [empty]
    exact isBodyCode_nil
  · exact isBodyCode_of_property property

theorem Properties.isBodyCode_of_ofBlock
    {block : Block} {found : Text × Properties}
    (read : Properties.ofBlock block = .ok found) :
    ∀ line ∈ block.body, IsBodyCode line.code := by
  intro line member
  obtain ⟨_, folded, _⟩ := Reading.bind_eq_ok.mp read
  obtain ⟨_, _, stepped⟩ := Reading.exists_step_of_mem folded member
  exact isBodyCode_of_step stepped

/-- No line of an accepted body is taken for a part of the layout. -/
theorem Declaration.isEntry_of_mem_body
    {names : DeclaredNames} {block : Block} {declaration : Declaration}
    (read : Declaration.ofBlock names block = .ok declaration) :
    ∀ line ∈ block.body, line.IsEntry := by
  intro line member
  apply Line.isEntry_of_code
  unfold Declaration.ofBlock at read
  split at read
  all_goals
    obtain ⟨own, readOwn, _⟩ := Reading.map_eq_ok.mp read
  · obtain ⟨_, folded, _⟩ := Reading.bind_eq_ok.mp readOwn
    obtain ⟨_, _, stepped⟩ := Reading.exists_step_of_mem folded member
    exact Model.isBodyCode_of_step stepped
  · obtain ⟨_, _, stepped⟩ := Reading.exists_step_of_mem readOwn member
    exact SchemaEnum.isBodyCode_of_step stepped
  · obtain ⟨_, readProperties, _⟩ := Reading.bind_eq_ok.mp readOwn
    exact Properties.isBodyCode_of_ofBlock readProperties line member
  · obtain ⟨_, readProperties, _⟩ := Reading.bind_eq_ok.mp readOwn
    exact Properties.isBodyCode_of_ofBlock readProperties line member

/-! ## Names of fields -/

/-- The name of the field that the code of a line declares, if it declares one. -/
def fieldName? (code : Text) : Option Text :=
  (FieldLine.ofText? code).map (·.name)

namespace Model

theorem fieldName?_of_scan
    {code : Text} {sources : List Attribute}
    (scanned : Attribute.scan code = .ok sources) : fieldName? code = none := by
  have none : Text.identifier? code = none := by
    cases code with
    | nil => rfl
    | cons c rest =>
        have other : Text.isNameStart c = false := by
          by_contra starts
          rw [Bool.not_eq_false] at starts
          have word := Text.isWord_of_isNameStart starts
          rcases Attribute.head_of_scan scanned with blank | rfl
          · rw [Text.not_isWord_of_isBlank blank] at word
            contradiction
          · contradiction
        rw [Text.identifier?, other]
        rfl
  rw [fieldName?, FieldLine.ofText?, none]
  rfl

theorem fields_of_foldlM_withAttribute
    {model final : Model} {sources : List Attribute}
    (read : sources.foldlM withAttribute model = .ok final) :
    final.fields = model.fields := by
  apply Reading.foldlM_keeps
    (fun state : Model => state.fields = model.fields) ?_ rfl read
  intro state source next holds stepped
  rcases withAttribute_cases stepped with
    ⟨_, _, rfl⟩ | ⟨_, _, rfl⟩ | ⟨_, _, rfl⟩ | rfl
  all_goals exact holds

theorem fieldNames_of_step
    {names : DeclaredNames} {reading next : Model.Reading} {line : Line}
    (read : reading.step names line = .ok next) :
    next.model.fields.map (·.name) =
      reading.model.fields.map (·.name) ++ (fieldName? line.code).toList := by
  have silent : line.code = [] → fieldName? line.code = none := by
    intro empty
    rw [empty]
    rfl
  rcases Reading.step_cases read with
    ⟨_, documented, rfl⟩ | ⟨empty, rfl⟩ | ⟨_, _, scanned, withSources, rfl⟩ |
      ⟨field, readField, _, rfl⟩
  · rw [silent (Block.code_of_documentation? documented)]
    simp
  · rw [silent empty]
    simp
  · rw [fieldName?_of_scan scanned, fields_of_foldlM_withAttribute withSources]
    simp
  · obtain ⟨parts, _, _, found, _, _, withSources⟩ := Field.exists_of_read readField
    have kept : field.name = parts.name :=
      congrArg Field.name (Field.bare_of_foldlM_withAttribute withSources)
    rw [fieldName?, found, List.map_append]
    simpa using kept

/-- The names of the fields are declared by the lines of the block, one by one. -/
theorem fieldNames_of_ofBlock
    {names : DeclaredNames} {block : Block} {model : Model}
    (read : Model.ofBlock names block = .ok model) :
    model.fields.map (·.name) = (block.body.map (·.code)).filterMap fieldName? := by
  have run : ∀ (body : List Line) (reading final : Model.Reading),
      body.foldlM (Reading.step names) reading = .ok final →
      final.model.fields.map (·.name) =
        reading.model.fields.map (·.name) ++ (body.map (·.code)).filterMap fieldName? := by
    intro body
    induction body with
    | nil =>
        intro reading final folded
        cases folded
        simp
    | cons line body ih =>
        intro reading final folded
        rw [List.foldlM_cons, Reading.bind_eq_ok] at folded
        obtain ⟨next, stepped, further⟩ := folded
        rw [ih next final further, fieldNames_of_step stepped, List.append_assoc]
        congr 1
        cases declared : fieldName? line.code with
        | none => simp [declared]
        | some name => simp [declared]
  obtain ⟨reading, folded, same⟩ := Reading.bind_eq_ok.mp read
  rw [← Reading.pure_eq_ok.mp same, run _ _ _ folded]
  rfl

end Model

end SchemaCompose
