import SchemaCompose.Proofs.Mining.IndexLines
import SchemaCompose.Proofs.Mining.Ownership

/-!
# What is kept of the rows of a block

Every field has one line in its block, and no other row of the block is kept under its
name but a header.  So a field has what its line gives, or nothing but what stands behind
the header (`Block.IsCutOut.extras_cases`), and a model has the indexes that its lines
show (`Block.IsCutOut.extraIndexes_eq`).
-/

namespace SchemaCompose

namespace Mining

variable {row name : Text} {rows : List Text}

/-! ## What is kept of a row -/

theorem extraIndexes_keepLine (mined : MinedModel) (row : Text) :
    (keepLine mined row).extraIndexes =
      mined.extraIndexes ++ (indexOf? row).toList := by
  rw [keepLine, indexOf?]
  split_ifs with comment
  · simp
  · cases firstMatch (fun _ => extraIndex?) none row with
    | some index => rfl
    | none =>
        dsimp only
        split_ifs
        · simp
        · simp

theorem extraIndexes_ofLines (rows : List Text) :
    (ofLines rows).extraIndexes = rows.flatMap fun row => (indexOf? row).toList := by
  have run : ∀ mined : MinedModel, (rows.foldl keepLine mined).extraIndexes =
      mined.extraIndexes ++ rows.flatMap fun row => (indexOf? row).toList := by
    induction rows with
    | nil => simp
    | cons row rows ih =>
        intro mined
        rw [List.foldl_cons, ih, extraIndexes_keepLine, List.flatMap_cons,
          List.append_assoc]
  exact run {}

/-- The row is kept under another name, or it is a comment. -/
def IsElsewhere (name row : Text) : Prop :=
  isComment row = true ∨ row.takeWhile (!Text.isBlank ·) ≠ name

theorem find?_keepLine_of_elsewhere
    (elsewhere : IsElsewhere name row) (mined : MinedModel) :
    (keepLine mined row).fields.find? name = mined.fields.find? name := by
  rw [keepLine]
  split_ifs with comment
  · rfl
  · cases firstMatch (fun _ => extraIndex?) none row with
    | some index => rfl
    | none =>
        dsimp only
        split_ifs
        · rfl
        · rcases elsewhere with isComment | other
          · contradiction
          · exact Registry.find?_put_of_ne (Ne.symm other) _ _

theorem find?_foldl_keepLine_of_elsewhere
    (elsewhere : ∀ row ∈ rows, IsElsewhere name row) (mined : MinedModel) :
    (rows.foldl keepLine mined).fields.find? name = mined.fields.find? name := by
  induction rows generalizing mined with
  | nil => rfl
  | cons row rows ih =>
      rw [List.forall_mem_cons] at elsewhere
      rw [List.foldl_cons, ih elsewhere.2, find?_keepLine_of_elsewhere elsewhere.1]

/-- Between rows that are kept elsewhere a row is kept under its first word, unless
nothing is recovered from it. -/
theorem find?_ofLines
    {header : Text} {above below : List Text}
    (elsewhere : ∀ other ∈ above ++ below, IsElsewhere name other)
    (plain : row.head? ≠ some '/')
    (noIndex : firstMatch (fun _ => extraIndex?) none row = none)
    (key : row.takeWhile (!Text.isBlank ·) = name) :
    (ofLines (header :: (above ++ row :: below))).fields.find? name =
      if (extrasOf row).isEmpty then (keepLine {} header).fields.find? name
      else some (extrasOf row) := by
  rw [List.forall_mem_append] at elsewhere
  rw [ofLines, List.foldl_cons, List.foldl_append, List.foldl_cons,
    find?_foldl_keepLine_of_elsewhere elsewhere.2, keepLine_of_extras plain noIndex rfl]
  split_ifs
  · exact find?_foldl_keepLine_of_elsewhere elsewhere.1 _
  · rw [key]
    exact Registry.find?_put_self name _ _

/-- From a single row nothing is kept under a name but what the row gives. -/
theorem find?_keepLine_empty (row name : Text) :
    ((keepLine {} row).fields.find? name).getD {} = {} ∨
      ((keepLine {} row).fields.find? name).getD {} = extrasOf row := by
  rw [keepLine]
  split_ifs
  · exact Or.inl rfl
  · cases firstMatch (fun _ => extraIndex?) none row with
    | some index => exact Or.inl rfl
    | none =>
        dsimp only
        split_ifs
        · exact Or.inl rfl
        · by_cases same : row.takeWhile (!Text.isBlank ·) = name
          · rw [same, Registry.find?_put_self]
            exact Or.inr rfl
          · rw [Registry.find?_put_of_ne (Ne.symm same)]
            exact Or.inl rfl

end Mining

/-! ## The lines of a body -/

/-- A line of a block attribute is no comment. -/
theorem Line.isComment_of_startsWith
    (line : Line) (starts : Text.startsWith "@@" line.code = true) :
    Mining.isComment line.text = false := by
  obtain ⟨rest, found⟩ := Option.isSome_iff_exists.mp starts
  rw [← line.code_append_comment, Text.eq_append_of_after? found]
  rfl

/-- The line of a field starts with its name. -/
theorem Line.takeWhile_of_ofText?
    {line : Line} {parts : FieldLine}
    (declares : FieldLine.ofText? line.code = some parts) :
    line.text.takeWhile (!Text.isBlank ·) = parts.name ∧
      line.text.head? ≠ some '/' := by
  obtain ⟨isName, _, gap, marks, whole, filled, blank, _⟩ :=
    FieldLine.exists_of_ofText? declares
  obtain ⟨c, others, rfl⟩ := List.exists_cons_of_ne_nil filled
  have start : ∀ rest, Mining.StartsBlank (c :: others ++ rest) := by
    rintro rest d ⟨⟩
    exact blank c List.mem_cons_self
  have regroup : line.text = parts.name ++ (c :: others ++
      (parts.type ++ marks ++ parts.attributes ++ line.comment)) := by
    rw [← line.code_append_comment, whole]
    simp
  rw [regroup]
  exact ⟨(isName.takeWhile_visible (start _)).1, isName.head?_ne (by decide) _⟩

/-- A line of an accepted body that does not declare a field is kept elsewhere. -/
theorem Model.isElsewhere_of_step
    {names : DeclaredNames} {reading next : Model.Reading} {line : Line} {name : Text}
    (isName : Text.IsName name) (trimmed : Text.IsTrimmed line.text)
    (read : reading.step names line = .ok next)
    (other : fieldName? line.code ≠ some name) : Mining.IsElsewhere name line.text := by
  have silent : line.code = [] → Mining.IsElsewhere name line.text := by
    intro empty
    rcases Text.isSilent_of_code trimmed empty with blank | comment
    · refine Or.inr fun same => isName.ne_nil ?_
      rw [← same, blank]
      rfl
    · exact Or.inl comment
  rcases Reading.step_cases read with
    ⟨_, documented, _⟩ | ⟨empty, _⟩ | ⟨_, _, scanned, _⟩ | ⟨_, readField, _⟩
  · exact silent (Block.code_of_documentation? documented)
  · exact silent empty
  · cases code : line.code with
    | nil => exact silent code
    | cons c rest =>
        rw [code] at scanned
        have row : line.text = c :: (rest ++ line.comment) := by
          rw [← line.code_append_comment, code]
          rfl
        rw [row] at trimmed ⊢
        refine Or.inr fun same => ?_
        have visible := trimmed.not_blank_of_cons
        rcases Attribute.head_of_scan scanned with blank | rfl
        · rw [blank] at visible
          contradiction
        · rw [List.takeWhile_cons, if_pos (by decide)] at same
          have sign : '@' ∈ name := same ▸ List.mem_cons_self
          exact isName.not_mem (by decide) sign
  · obtain ⟨parts, _, _, declares, _⟩ := Field.exists_of_read readField
    rw [fieldName?, declares] at other
    refine Or.inr fun same => other ?_
    rw [← same, (Line.takeWhile_of_ofText? declares).1]
    rfl

namespace Model

variable {names : DeclaredNames} {block : Block} {model : Model}

theorem exists_step_of_ofBlock
    (read : Model.ofBlock names block = .ok model) {line : Line}
    (inBody : line ∈ block.body) :
    ∃ reading next, Reading.step names reading line = .ok next := by
  obtain ⟨_, folded, _⟩ := Reading.bind_eq_ok.mp read
  exact Reading.exists_step_of_mem folded inBody

theorem exists_line_of_field
    (read : Model.ofBlock names block = .ok model) {field : Field}
    (member : field ∈ model.fields) :
    ∃ line ∈ block.body, fieldName? line.code = some field.name := by
  have named : field.name ∈ model.fields.map (·.name) := List.mem_map_of_mem member
  rw [fieldNames_of_ofBlock read, List.mem_filterMap] at named
  obtain ⟨code, inCodes, declared⟩ := named
  obtain ⟨line, inBody, rfl⟩ := List.mem_map.mp inCodes
  exact ⟨line, inBody, declared⟩

/-- No other line of an accepted body declares the field. -/
theorem fieldName?_ne_of_split
    (read : Model.ofBlock names block = .ok model) {above below : List Line}
    {line : Line} {name : Text} (split : block.body = above ++ line :: below)
    (declared : fieldName? line.code = some name) :
    ∀ other ∈ above ++ below, fieldName? other.code ≠ some name := by
  have distinct : (model.fields.map (·.name)).Nodup := (wellFormed_of_ofBlock read).distinct
  rw [fieldNames_of_ofBlock read, split, List.map_append, List.map_cons,
    List.filterMap_append, List.filterMap_cons_some declared, List.nodup_middle,
    ← List.filterMap_append, ← List.map_append] at distinct
  intro other member same
  apply (List.nodup_cons.mp distinct).1
  exact List.mem_filterMap.mpr ⟨_, List.mem_map_of_mem member, same⟩

end Model

/-! ## What a block keeps -/

namespace Block

variable {text : Text} {schema : Schema} {before : List Block} {block : Block}
  {model : Model} {field : Field} {line : Line} {parts : FieldLine}
  {row : List (Text × Attribute)} {rows : Line → List (Text × Attribute)}

/-- The block is kept under its own name. -/
def IsHeaded (text : Text) (block : Block) : Prop :=
  Mining.headerName? (block.rows text) = some block.name

instance (text : Text) (block : Block) : Decidable (block.IsHeaded text) :=
  inferInstanceAs (Decidable (Mining.headerName? (block.rows text) = some block.name))

/-- What is kept of the rows of the block for its model. -/
def kept (text : Text) (block : Block) : MinedModel :=
  if block.IsHeaded text then Mining.ofLines (block.rows text) else {}

theorem kept_of_isHeaded (headed : block.IsHeaded text) :
    block.kept text = Mining.ofLines (block.rows text) :=
  if_pos headed

theorem kept_of_not_isHeaded (unheaded : ¬ block.IsHeaded text) :
    block.kept text = {} :=
  if_neg unheaded

/-- What is found under the name of the block is what is kept of its rows. -/
theorem IsCutOut.find?_eq_kept (cutOut : block.IsCutOut text schema before) :
    (((Mining.ofText text).find? block.name).getD {}).fields =
        (block.kept text).fields ∧
      (((Mining.ofText text).find? block.name).getD {}).extraIndexes =
        (block.kept text).extraIndexes := by
  rw [cutOut.find?_ofText]
  by_cases headed : Mining.headerName? (block.rows text) = some block.name
  · rw [if_pos headed, kept_of_isHeaded headed]
    exact ⟨rfl, rfl⟩
  · rw [if_neg headed, kept_of_not_isHeaded headed]
    exact ⟨rfl, rfl⟩

/-- A model is read from its block, and it has what is kept of the block's rows. -/
theorem IsCutOut.exists_of_mem_models
    (cutOut : block.IsCutOut text schema before) (member : model ∈ schema.models)
    (named : model.name = block.name) :
    ∃ names parsed, Model.ofBlock names block = .ok parsed ∧
      model.fields = parsed.fields.map (Field.inject (block.kept text).fields) ∧
      model.extraIndexes = (block.kept text).extraIndexes := by
  obtain ⟨names, parsed, read, rfl⟩ := cutOut.exists_of_mem member named
  obtain ⟨fields, indexes⟩ := cutOut.find?_eq_kept
  have same : parsed.name = block.name := named
  refine ⟨names, parsed, read, ?_, ?_⟩
  · rw [← fields, ← same]
    rfl
  · rw [← indexes, ← same]
    rfl

theorem IsCutOut.isTrimmed_of_mem_body
    (cutOut : block.IsCutOut text schema before) (inBody : line ∈ block.body) :
    Text.IsTrimmed line.text := by
  obtain ⟨_, _, _, _, _, place⟩ := cutOut.place
  have inText : line ∈ Line.ofText text := by
    rw [place.lines]
    simp [inBody]
  exact Line.isTrimmed_of_mem_ofText inText

/-- Under the name of a field its line is kept, or, where that gives nothing, what the
header gives for a field of that name. -/
theorem IsCutOut.find?_kept
    {names : DeclaredNames} (cutOut : block.IsCutOut text schema before)
    (read : Model.ofBlock names block = .ok model) (inBody : line ∈ block.body)
    (declares : FieldLine.ofText? line.code = some parts)
    (noIndex : ¬ "@@index(".toList <:+: line.text) (headed : block.IsHeaded text) :
    ∃ header, (block.rows text).head? = some header ∧
      (block.kept text).fields.find? parts.name =
        if (Mining.extrasOf line.text).isEmpty then
          (Mining.keepLine {} header).fields.find? parts.name
        else some (Mining.extrasOf line.text) := by
  obtain ⟨_, _, _, header, _, place⟩ := cutOut.place
  obtain ⟨above, below, split⟩ := List.append_of_mem inBody
  have declared : fieldName? line.code = some parts.name := by
    rw [fieldName?, declares]
    rfl
  -- An accepted body declares a field once, so no other line is kept under its name.
  have others := Model.fieldName?_ne_of_split read split declared
  obtain ⟨isName, _⟩ := FieldLine.exists_of_ofText? declares
  have elsewhere : ∀ row ∈ above.map (·.text) ++ below.map (·.text),
      Mining.IsElsewhere parts.name row := by
    rw [← List.map_append, List.forall_mem_map]
    intro other inOthers
    have otherInBody : other ∈ block.body := by
      rw [split]
      simp only [List.mem_append, List.mem_cons] at inOthers ⊢
      tauto
    obtain ⟨_, _, stepped⟩ := Model.exists_step_of_ofBlock read otherInBody
    exact Model.isElsewhere_of_step isName (cutOut.isTrimmed_of_mem_body otherInBody)
      stepped (others other inOthers)
  obtain ⟨key, plain⟩ := Line.takeWhile_of_ofText? declares
  have silent := Mining.isLed_extraIndex?.firstMatch_eq_none (by decide) noIndex none
  refine ⟨header.text, by rw [place.rows_eq]; rfl, ?_⟩
  rw [kept_of_isHeaded headed, place.rows_eq, split, List.map_append, List.map_cons]
  exact Mining.find?_ofLines elsewhere plain silent key

/-- A field has what its line gives, or nothing but the directives that stand behind the
header. -/
theorem IsCutOut.extras_cases
    (cutOut : block.IsCutOut text schema before) (member : model ∈ schema.models)
    (named : model.name = block.name) (inModel : field ∈ model.fields)
    (inBody : line ∈ block.body) (declares : FieldLine.ofText? line.code = some parts)
    (same : parts.name = field.name) (noIndex : ¬ "@@index(".toList <:+: line.text) :
    (block.IsHeaded text ∧ (Mining.extrasOf line.text).isEmpty = false ∧
        field.extras = Mining.extrasOf line.text) ∨
      (¬ block.IsHeaded text ∨ (Mining.extrasOf line.text).isEmpty = true) ∧
        (field.extras = {} ∨ ∃ header, (block.rows text).head? = some header ∧
          field.extras = Mining.extrasOf header) := by
  obtain ⟨names, parsed, read, fields, _⟩ := cutOut.exists_of_mem_models member named
  rw [fields] at inModel
  obtain ⟨own, _, rfl⟩ := List.mem_map.mp inModel
  rw [Field.inject]
  have ownName : parts.name = own.name := same
  by_cases headed : block.IsHeaded text
  · obtain ⟨header, first, found⟩ :=
      cutOut.find?_kept read inBody declares noIndex headed
    rw [← ownName, found]
    cases empty : (Mining.extrasOf line.text).isEmpty with
    | false => exact Or.inl ⟨headed, rfl, rfl⟩
    | true =>
        refine Or.inr ⟨Or.inr rfl, ?_⟩
        rcases Mining.find?_keepLine_empty header parts.name with nothing | whole
        · exact Or.inl nothing
        · exact Or.inr ⟨header, first, whole⟩
  · refine Or.inr ⟨Or.inl headed, Or.inl ?_⟩
    rw [kept_of_not_isHeaded headed]
    rfl

/-! ## Indexes of a block -/

/-- Each line of the block with a block attribute shows its indexes, and no other line
marks one. -/
def ShowsIndexes (block : Block) (rows : Line → List (Text × Attribute)) : Prop :=
  ∀ line ∈ block.body, line.code ≠ [] →
    if Text.startsWith "@@" line.code then line.ShowsIndexes (rows line)
    else ¬ "@@index(".toList <:+: line.text

/-- The indexes of the block, from its first line to its last. -/
def indexes (block : Block) (rows : Line → List (Text × Attribute)) : List Text :=
  block.body.flatMap fun line =>
    if Text.startsWith "@@" line.code then Attribute.indexes (rows line) else []

/-- What is recovered from the lines of a block are its indexes. -/
theorem flatMap_indexOf?
    (trimmed : ∀ line ∈ block.body, Text.IsTrimmed line.text)
    (shows : block.ShowsIndexes rows) :
    (block.body.flatMap fun line => (Mining.indexOf? line.text).toList) =
      block.indexes rows := by
  apply List.flatMap_congr
  intro line inBody
  by_cases empty : line.code = []
  · rw [Mining.indexOf?_of_isSilent (Text.isSilent_of_code (trimmed line inBody) empty),
      empty]
    rfl
  · have own := shows line inBody empty
    split_ifs at own ⊢ with starts
    · exact Mining.indexOf?_of_showsIndexes own (line.isComment_of_startsWith starts)
    · rw [Mining.indexOf?_of_unmarked own]
      rfl

/-- Each index of the block is an attribute that the reader finds on a line of the
block. -/
theorem exists_of_mem_indexes
    (shows : block.ShowsIndexes rows) {index : Text} (member : index ∈ block.indexes rows) :
    ∃ line ∈ block.body, Text.startsWith "@@" line.code = true ∧
      Attribute.scan line.code = .ok ((rows line).map Prod.snd) ∧
      ∃ entry ∈ rows line, entry.1 = index ∧ entry.2.name = "@@index" := by
  obtain ⟨line, inBody, found⟩ := List.mem_flatMap.mp member
  split_ifs at found with starts
  · have filled : line.code ≠ [] := by
      rintro empty
      rw [empty] at starts
      contradiction
    have own := shows line inBody filled
    rw [if_pos starts] at own
    exact ⟨line, inBody, starts, own.spells.scan_eq, Attribute.exists_of_mem_indexes found⟩
  · contradiction

theorem IsCutOut.extraIndexes_eq
    (cutOut : block.IsCutOut text schema before) (member : model ∈ schema.models)
    (named : model.name = block.name)
    (unmarked : ∀ header ∈ (block.rows text).head?, ¬ "@@index(".toList <:+: header)
    (shows : block.ShowsIndexes rows) :
    (block.IsHeaded text → model.extraIndexes = block.indexes rows) ∧
      (¬ block.IsHeaded text → model.extraIndexes = []) := by
  obtain ⟨_, _, _, _, extraIndexes⟩ := cutOut.exists_of_mem_models member named
  rw [extraIndexes]
  constructor
  · intro headed
    obtain ⟨_, _, _, header, _, place⟩ := cutOut.place
    rw [kept_of_isHeaded headed, place.rows_eq, Mining.extraIndexes_ofLines,
      List.flatMap_cons, List.flatMap_map,
      Mining.indexOf?_of_unmarked (unmarked _ (by rw [place.rows_eq]; rfl)),
      flatMap_indexOf? (fun line inBody => cutOut.isTrimmed_of_mem_body inBody) shows]
    rfl
  · intro unheaded
    rw [kept_of_not_isHeaded unheaded]

end Block

end SchemaCompose
