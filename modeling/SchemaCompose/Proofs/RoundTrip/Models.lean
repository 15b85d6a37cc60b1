import SchemaCompose.Proofs.RoundTrip.Blocks
import SchemaCompose.Proofs.RoundTrip.Fields

/-!
# Model blocks that are written out

The body of a model is its fields, each with its documentation above it, then a
blank row and the attributes of the model, and last the comment that marks a stub.
Reading the body gives the model back except for what is recovered from the rows by
their shape (`Model.ofBlock_blockText`).
-/

namespace SchemaCompose

namespace Model

variable {names : DeclaredNames} {model : Model}

/-- The attributes of a model, in the order in which they are written. -/
def attributes (model : Model) : List Attribute :=
  model.primaryKey.toList.map
    (fun key => ⟨"@@id", some (commaRow key.arguments)⟩) ++
    model.uniqueIndexes.map
      (fun key => ⟨"@@unique", some (commaRow key.arguments)⟩) ++
    model.extraIndexes.map (fun index => indexAttribute (Text.code index)) ++
    model.tableName.toList.map fun name => ⟨"@@map", some (inQuotes name)⟩

/-- The block of a model before it is written. -/
def blockText (model : Model) : BlockText where
  kind := .model
  name := model.name
  documentation := model.documentation
  body := model.bodyLines

/-! ## The rows -/

/-- The rows of the attributes of a model. Behind an index there may be a comment. -/
def attributeRows (model : Model) : List Text :=
  (model.primaryKey.toList.map (CompoundKey.render "@@id")) ++
    model.uniqueIndexes.map (CompoundKey.render "@@unique") ++
    model.extraIndexes ++
    whenSet model.tableName fun name => "@@map(" ++ inQuotes name ++ ")"

theorem attributeLines_eq (model : Model) :
    model.attributeLines =
      model.attributeRows ++ whenMarked model.isStub "//@stub" :=
  rfl

theorem isWritten_of_mem_attributes (writable : model.IsWritable) :
    ∀ source ∈ model.attributes, source.IsWritten := by
  have call : ∀ {name inner : Text}, Attribute.IsName name → Balanced inner →
      (Attribute.mk name (some inner)).IsWritten := by
    intro name inner isName balanced
    exact ⟨isName, by simpa using balanced⟩
  rw [attributes]
  simp only [List.forall_mem_append, List.forall_mem_map, Option.mem_toList]
  refine ⟨⟨⟨?_, ?_⟩, ?_⟩, ?_⟩
  · intro key member
    exact call (by decide)
      (Arguments.balanced_commaRow (writable.primaryKey key member).balanced)
  · intro key member
    exact call (by decide)
      (Arguments.balanced_commaRow (writable.uniqueIndexes key member).balanced)
  · intro index member
    refine ⟨show Attribute.IsName "@@index" by decide, ?_⟩
    intro inner inIndex
    exact (writable.extraIndexes index member).balanced inner inIndex
  · intro name member
    exact call (by decide)
      (balanced_inQuotes (writable.tableName name member).1.contained.isDelimited)

theorem isLine_compoundKey {key : CompoundKey} (writable : key.IsWritable) :
    Text.IsLine (commaRow key.arguments) := by
  apply Arguments.isLine_commaRow
  apply CompoundKey.forall_mem_arguments
  · exact Arguments.isLine_bracketed writable.fields
  · intro name member
    exact Arguments.isLine_keyed (by decide)
      (Arguments.isLine_inQuotes (writable.name name member).1.single)

/-- What holds of an attribute that is written holds of every row, except for the
indexes. -/
theorem forall_mem_attributeRows (writable : model.IsWritable)
    {Holds : Text → Prop}
    (written : ∀ source : Attribute, source.IsWritten →
      (∀ inner ∈ source.arguments, Text.IsLine inner) → Holds source.write)
    (index : ∀ index ∈ model.extraIndexes, Holds index) :
    ∀ row ∈ model.attributeRows, Holds row := by
  have keyed : ∀ label, Attribute.IsName label → ∀ key : CompoundKey,
      key.IsWritable → Holds (key.render label) := by
    intro label isName key readable
    rw [CompoundKey.render_eq]
    refine written _ ⟨isName, ?_⟩ ?_
    · simpa using Arguments.balanced_commaRow readable.balanced
    · simpa using isLine_compoundKey readable
  rw [attributeRows]
  simp only [List.forall_mem_append, List.forall_mem_map, Option.mem_toList]
  refine ⟨⟨⟨?_, ?_⟩, index⟩, forall_mem_whenSet ?_⟩
  · exact fun key member => keyed _ (by decide) key (writable.primaryKey key member)
  · exact fun key member => keyed _ (by decide) key (writable.uniqueIndexes key member)
  · intro name member
    have quoted := (writable.tableName name member).1
    refine written ⟨"@@map", some (inQuotes name)⟩
      ⟨show Attribute.IsName "@@map" by decide, ?_⟩ ?_
    · simpa using balanced_inQuotes quoted.contained.isDelimited
    · simpa using Arguments.isLine_inQuotes quoted.single

/-- The code of the rows is the attributes. -/
theorem map_code_attributeRows (writable : model.IsWritable) :
    model.attributeRows.map Text.code = model.attributes.map Attribute.write := by
  have call : ∀ {name inner : Text}, Attribute.IsName name → Balanced inner →
      Text.code (Attribute.mk name (some inner)).write =
        (Attribute.mk name (some inner)).write := by
    intro name inner isName balanced
    exact Attribute.code_write ⟨isName, by simpa using balanced⟩
  have keys : ∀ label, Attribute.IsName label → ∀ keys : List CompoundKey,
      (∀ key ∈ keys, key.IsWritable) →
      keys.map (fun key => Text.code (key.render label)) =
        keys.map fun key =>
          (Attribute.mk label (some (commaRow key.arguments))).write := by
    intro label isName keys readable
    apply List.map_congr_left
    intro key member
    rw [CompoundKey.render_eq,
      call isName (Arguments.balanced_commaRow (readable key member).balanced)]
  have indexes :
      model.extraIndexes.map Text.code =
      model.extraIndexes.map fun index =>
        (indexAttribute (Text.code index)).write := by
    apply List.map_congr_left
    intro index member
    exact (writable.extraIndexes index member).written.symm
  have table :
      (whenSet model.tableName fun name => "@@map(" ++ inQuotes name ++ ")").map
          Text.code =
        model.tableName.toList.map fun name =>
          (Attribute.mk "@@map" (some (inQuotes name))).write := by
    rw [whenSet_of_filled fun name member => (writable.tableName name member).2,
      List.map_map]
    apply List.map_congr_left
    intro name member
    have quoted := (writable.tableName name (Option.mem_toList.mp member)).1
    exact call (show Attribute.IsName "@@map" by decide)
      (balanced_inQuotes quoted.contained.isDelimited)
  rw [attributeRows, attributes]
  simp only [List.map_append, List.map_map, Function.comp_def, indexes, table]
  rw [keys "@@id" (by decide) _ fun key member =>
      writable.primaryKey key (Option.mem_toList.mp member),
    keys "@@unique" (by decide) _ writable.uniqueIndexes]

theorem startsWith_of_mem_attributes (model : Model) :
    ∀ source ∈ model.attributes, ∃ rest, source.write = '@' :: '@' :: rest := by
  rw [attributes]
  simp only [List.forall_mem_append, List.forall_mem_map]
  refine ⟨⟨⟨?_, ?_⟩, ?_⟩, ?_⟩
  · exact fun key _ => ⟨_, rfl⟩
  · exact fun key _ => ⟨_, rfl⟩
  · exact fun index _ => ⟨_, rfl⟩
  · exact fun name _ => ⟨_, rfl⟩

theorem isBodyRow_index {index : Text} (isIndexRow : IsIndexRow index) :
    IsBodyRow index := by
  have trimmed : Text.IsTrimmed index := by
    rw [← isIndexRow.closed]
    exact Text.IsTrimmed.around (show Text.IsTrimmed "@@index(".toList by decide)
      (by decide) (show Text.IsTrimmed ")".toList by decide) (by decide) _
  refine ⟨trimmed, isIndexRow.single, ?_⟩
  have sign : (indexAttribute index).write.head? = some '@' := rfl
  rw [← isIndexRow.closed, sign]
  decide

end Model

theorem Field.isBodyRow_render
    {field : Field} (writable : field.IsWritable) :
    IsBodyRow field.render := by
  refine ⟨Field.isTrimmed_render writable, Field.isLine_render writable, ?_⟩
  rw [Field.render_eq writable, Field.code, List.append_assoc]
  exact writable.name.head?_ne (by decide) _

namespace Model

variable {names : DeclaredNames} {model : Model}

theorem isReadable_blockText (writable : model.IsWritable) :
    model.blockText.IsReadable := by
  refine ⟨writable.name, writable.documentation, ?_⟩
  have blank : IsBodyRow [] := ⟨by decide, by decide, by decide⟩
  have stub : ∀ row ∈ whenMarked model.isStub "//@stub", IsBodyRow row :=
    forall_mem_whenMarked ⟨by decide, by decide, by decide⟩
  have attributeRows : ∀ row ∈ model.attributeLines, IsBodyRow row := by
    rw [attributeLines_eq, List.forall_mem_append]
    refine ⟨forall_mem_attributeRows writable ?_ ?_, stub⟩
    · exact fun source written single => Attribute.isBodyRow_write written single
    · exact fun index member => isBodyRow_index (writable.extraIndexes index member)
  have fieldRows : ∀ field ∈ model.fields,
      ∀ row ∈ documentationLines field.documentation ++ [field.render],
        IsBodyRow row := by
    intro field member
    have readable := writable.fields field member
    rw [List.forall_mem_append, documentationLines_eq, List.forall_mem_map]
    refine ⟨?_, List.forall_mem_singleton.mpr (Field.isBodyRow_render readable)⟩
    intro text inTexts
    obtain ⟨trimmed, single⟩ :=
      isTrimmed_documentationTexts readable.documentation text inTexts
    exact isBodyRow_documentationRow trimmed single
  show ∀ row ∈ model.bodyLines, IsBodyRow row
  rw [bodyLines, List.forall_mem_append]
  constructor
  · intro row member
    obtain ⟨field, inModel, inField⟩ := List.mem_flatMap.mp member
    exact fieldRows field inModel row inField
  · split
    · simp
    · exact List.forall_mem_cons.mpr ⟨blank, attributeRows⟩

end Model

/-! ## Reading the rows -/

/-- The field that is read without what is recovered from its row. -/
def Field.parsed (field : Field) : Field :=
  { field.reread with extras := {} }

/-- The model that is read without what is recovered from its rows. -/
def Model.parsed (model : Model) : Model :=
  { model.reread with
    fields := model.fields.map Field.parsed, extraIndexes := [], isStub := false }

namespace Model.Reading

variable {names : DeclaredNames} {line : Line} {reading : Model.Reading}

theorem step_documentation
    {text : Text} (row : line.text = documentationRow text)
    (trimmed : Text.IsTrimmed text)
    (reading : Model.Reading) :
    reading.step names line =
      .ok { reading with documentation := reading.documentation ++ [text] } := by
  simp only [step, Line.documentation?_of_row row trimmed]

theorem foldlM_documentation
    {texts : List Text} (trimmed : ∀ text ∈ texts, Text.IsTrimmed text)
    {lines : List Line}
    (rows : lines.map (·.text) = texts.map documentationRow) (model : Model) :
    lines.foldlM (step names) { model } =
      .ok { model, documentation := texts } := by
  apply foldlM_rows_of_step
    (fun before => ({ model, documentation := before } : Model.Reading)) _
    rows []
  intro text member line row before
  exact step_documentation row (trimmed text member) _

/-- A row that is blank or a comment is passed over. -/
theorem step_of_no_code
    (none : line.documentation? = none) (code : line.code = [])
    (reading : Model.Reading) :
    reading.step names line = .ok reading := by
  simp only [step, none, code, List.isEmpty_nil, if_true]

theorem step_field
    {field : Field} (writable : field.IsWritable) (resolved : field.IsResolved names)
    (row : line.text = field.render)
    (reading : Model.Reading)
    (new : field.name ∉ reading.model.fields.map (·.name)) :
    reading.step names line =
      .ok { model := { reading.model with
              fields := reading.model.fields ++
                [{ field.parsed with
                  documentation := joinDocumentation reading.documentation }] }
            documentation := [] } := by
  have start : ∀ mark, Text.isWord mark = false → field.code.head? ≠ some mark := by
    intro mark punctuation
    rw [Field.code]
    exact writable.name.head?_ne punctuation _
  have none : line.documentation? = none := by
    apply Line.documentation?_of_head
    rw [row, Field.render_eq writable, Field.code, List.append_assoc]
    exact writable.name.head?_ne (by decide) _
  have code : line.code = field.code := by
    rw [Line.code, row, Field.code_render writable]
  have filled : field.code.isEmpty = false := by
    simp [Field.code]
  have noAttribute : Text.startsWith "@@" field.code = false :=
    Text.startsWith_of_head? (show "@@".toList.head? = some '@' from rfl)
      (start '@' (by decide))
  have absent :
      (reading.model.fields.any fun other => other.name = field.name) = false := by
    rw [List.any_eq_false]
    intro other member same
    apply new
    rw [← of_decide_eq_true same]
    exact List.mem_map_of_mem member
  simp only [step, none, code, filled, noAttribute, Bool.false_eq_true, if_false,
    Field.read_code writable resolved, SchemaCompose.Reading.ok_bind]
  show atLine line.number
    (if (reading.model.fields.any fun other => other.name = field.name) = true
      then _ else _) = _
  rw [absent]
  rfl

/-- The rows of the fields give the fields, each with its documentation. -/
theorem foldlM_fields
    {fields : List Field} (writable : ∀ field ∈ fields, field.IsWritable)
    (resolved : ∀ field ∈ fields, field.IsResolved names)
    {lines : List Line}
    (rows : lines.map (·.text) =
      fields.flatMap fun field =>
        documentationLines field.documentation ++ [field.render])
    (start : Model) (distinct : ((start.fields ++ fields).map (·.name)).Nodup) :
    lines.foldlM (step names) { model := start } =
      .ok { model :=
        { start with fields := start.fields ++ fields.map Field.parsed } } := by
  induction fields generalizing lines start with
  | nil =>
      rw [List.flatMap_nil, List.map_eq_nil_iff] at rows
      rw [rows, List.map_nil, List.append_nil]
      rfl
  | cons field others ih =>
      rw [List.forall_mem_cons] at writable resolved
      rw [List.flatMap_cons] at rows
      obtain ⟨own, further, rfl, ownRows, furtherRows⟩ :=
        List.map_eq_append_iff.mp rows
      rw [documentationLines_eq] at ownRows
      obtain ⟨documented, last, rfl, documentedRows, lastRow⟩ :=
        List.map_eq_append_iff.mp ownRows
      obtain ⟨line, rfl, row⟩ := List.map_eq_singleton_iff.mp lastRow
      have texts := isTrimmed_documentationTexts writable.1.documentation
      have new : field.name ∉ start.fields.map (·.name) := by
        intro member
        rw [List.map_append, List.map_cons, List.nodup_append] at distinct
        exact distinct.2.2 field.name member field.name List.mem_cons_self rfl
      let next : Model := { start with fields := start.fields ++ [field.parsed] }
      have distinctNext : ((next.fields ++ others).map (·.name)).Nodup := by
        simpa [next, Field.parsed, Field.reread] using distinct
      have stepped := step_field writable.1 resolved.1 row
        { model := start,
          documentation := documentationTexts field.documentation } new
      rw [List.foldlM_append, List.foldlM_append,
        foldlM_documentation
          (fun text member => (texts text member).1) documentedRows,
        SchemaCompose.Reading.ok_bind, List.foldlM_cons, stepped,
        SchemaCompose.Reading.ok_bind, List.foldlM_nil, pure_bind]
      have folded := ih writable.2 resolved.2 furtherRows next distinctNext
      simp only [next, List.append_assoc] at folded
      exact folded

theorem step_attribute
    {source : Attribute} (written : source.IsWritten) {rest : Text}
    (starts : source.write = '@' :: '@' :: rest) (code : line.code = source.write)
    {model next : Model} (read : model.withAttribute source.trimmed = .ok next) :
    step names { model } line = .ok { model := next } := by
  have none : line.documentation? = none := by
    obtain ⟨behind, row⟩ := Text.prefix_code line.text
    apply Line.documentation?_of_head
    rw [← row, show Text.code line.text = _ from code, starts]
    simp
  have filled : source.write.isEmpty = false := by
    rw [starts]
    rfl
  have isAttribute : Text.startsWith "@@" source.write = true := by
    rw [starts]
    rfl
  have scanned := Attribute.scan_write written
  simp only [step, none, code, filled, isAttribute, Bool.false_eq_true, if_false,
    if_true, scanned, SchemaCompose.Reading.ok_bind, List.foldlM_cons, read,
    List.foldlM_nil, pure_bind]
  rfl

/-- The rows of attributes are read one by one. -/
theorem foldlM_attributes
    {sources : List Attribute} (written : ∀ source ∈ sources, source.IsWritten)
    (starts : ∀ source ∈ sources, ∃ rest, source.write = '@' :: '@' :: rest)
    {lines : List Line} (rows : lines.map (·.code) = sources.map Attribute.write)
    {model final : Model}
    (read : (sources.map Attribute.trimmed).foldlM withAttribute model =
      .ok final) :
    lines.foldlM (step names) { model } = .ok { model := final } := by
  induction sources generalizing lines model with
  | nil =>
      rw [List.map_nil, List.map_eq_nil_iff] at rows
      rw [List.map_nil, List.foldlM_nil, SchemaCompose.Reading.pure_eq_ok] at read
      rw [rows, read]
      rfl
  | cons source others ih =>
      rw [List.forall_mem_cons] at written starts
      obtain ⟨line, further, rfl, row, behind⟩ := List.map_eq_cons_iff.mp rows
      rw [List.map_cons, List.foldlM_cons, SchemaCompose.Reading.bind_eq_ok] at read
      obtain ⟨next, first, later⟩ := read
      obtain ⟨rest, start⟩ := starts.1
      rw [List.foldlM_cons, step_attribute written.1 start row first,
        SchemaCompose.Reading.ok_bind, ih written.2 starts.2 behind later]

end Model.Reading

namespace Model

variable {names : DeclaredNames} {model : Model}

theorem trimmed_of_compoundKey
    {key : CompoundKey} (writable : key.IsWritable) (label : Text) :
    (Attribute.mk label (some (commaRow key.arguments))).trimmed =
      ⟨label, some (commaRow key.arguments)⟩ := by
  have trimmed : Text.trim (commaRow key.arguments) = commaRow key.arguments :=
    Arguments.isTrimmed_commaRow writable.isArgument
  rw [Attribute.trimmed, Option.map_some, trimmed]

theorem foldlM_unique
    {keys : List CompoundKey} (writable : ∀ key ∈ keys, key.IsWritable)
    (start : Model) :
    ((keys.map fun key =>
      Attribute.mk "@@unique" (some (commaRow key.arguments))).map
        Attribute.trimmed).foldlM withAttribute start =
      .ok { start with
              uniqueFields := start.uniqueFields ++ keys.map (·.reread.fields)
              uniqueIndexes :=
                start.uniqueIndexes ++ keys.map CompoundKey.reread } := by
  induction keys generalizing start with
  | nil => simp [pure, Except.pure]
  | cons key others ih =>
      rw [List.forall_mem_cons] at writable
      have stepped :
          start.withAttribute ⟨"@@unique", some (commaRow key.arguments)⟩ =
            .ok { start with
                    uniqueFields := start.uniqueFields ++ [key.reread.fields]
                    uniqueIndexes := start.uniqueIndexes ++ [key.reread] } := by
        show (Attribute.compoundKey _).map _ = _
        rw [CompoundKey.compoundKey_of_arguments _ writable.1]
        rfl
      rw [List.map_cons, List.map_cons, List.foldlM_cons,
        trimmed_of_compoundKey writable.1, stepped, SchemaCompose.Reading.ok_bind,
        ih writable.2]
      simp

theorem foldlM_index (indexes : List Text) (start : Model) :
    ((indexes.map fun index => indexAttribute (Text.code index)).map
        Attribute.trimmed).foldlM withAttribute start =
      .ok start := by
  induction indexes with
  | nil => rfl
  | cons index others ih =>
      have stepped :
          start.withAttribute (indexAttribute (Text.code index)).trimmed =
            .ok start := rfl
      rw [List.map_cons, List.map_cons, List.foldlM_cons, stepped,
        SchemaCompose.Reading.ok_bind, ih]

theorem withAttribute_key
    {key : CompoundKey} (writable : key.IsWritable) (start : Model) :
    start.withAttribute (Attribute.mk "@@id" (some (commaRow key.arguments))).trimmed =
      .ok { start with primaryKey := some key.reread } := by
  rw [trimmed_of_compoundKey writable]
  show (Attribute.compoundKey _).map _ = _
  rw [CompoundKey.compoundKey_of_arguments _ writable]
  rfl

theorem withAttribute_table
    {name : Text} (contained : IsContained name) (start : Model) :
    start.withAttribute (Attribute.mk "@@map" (some (inQuotes name))).trimmed =
      .ok { start with tableName := some name } := by
  have trimmed : Text.trim (inQuotes name) = inQuotes name :=
    Arguments.isTrimmed_inQuotes name
  rw [Attribute.trimmed, Option.map_some, trimmed]
  show (Attribute.positional _).map _ = _
  rw [Attribute.positional_of_inQuotes _ contained]
  show Except.ok { start with tableName := some (Text.unquote (inQuotes name)) } = _
  rw [Arguments.unquote_inQuotes contained.plain]

/-- What the attributes of a model say, taken together. -/
theorem foldlM_attributes (writable : model.IsWritable) :
    (model.attributes.map Attribute.trimmed).foldlM withAttribute
        { name := model.name, fields := model.fields.map Field.parsed
          documentation := rereadDocumentation model.documentation } =
      .ok model.parsed := by
  let start : Model :=
    { name := model.name, fields := model.fields.map Field.parsed
      documentation := rereadDocumentation model.documentation }
  let keyed := { start with primaryKey := model.primaryKey.map CompoundKey.reread }
  let unique := { keyed with
    uniqueFields := model.uniqueIndexes.map fun key : CompoundKey => key.reread.fields
    uniqueIndexes := model.uniqueIndexes.map CompoundKey.reread }
  have readKey :
      ((model.primaryKey.toList.map fun key =>
        Attribute.mk "@@id" (some (commaRow key.arguments))).map
          Attribute.trimmed).foldlM
        withAttribute start = .ok keyed :=
    foldlM_optional
      (fun key said => by
        rw [withAttribute_key (writable.primaryKey key said)]
        simp only [keyed, said, Option.map_some])
      (fun unsaid => by simp only [keyed, unsaid]; rfl)
  have readUnique :
      ((model.uniqueIndexes.map fun key =>
        Attribute.mk "@@unique" (some (commaRow key.arguments))).map
          Attribute.trimmed).foldlM
        withAttribute keyed = .ok unique := by
    rw [foldlM_unique writable.uniqueIndexes keyed]
    simp only [unique, keyed, start, List.nil_append]
  have readTable :
      ((model.tableName.toList.map fun name =>
        Attribute.mk "@@map" (some (inQuotes name))).map Attribute.trimmed).foldlM
        withAttribute unique = .ok model.parsed :=
    foldlM_optional
      (fun name said => by
        rw [withAttribute_table (writable.tableName name said).1.contained]
        simp only [parsed, reread, said]
        rfl)
      (fun unsaid => by
        simp only [parsed, reread, unsaid]
        rfl)
  rw [attributes]
  simp only [List.map_append, List.foldlM_append]
  rw [readKey, SchemaCompose.Reading.ok_bind, readUnique,
    SchemaCompose.Reading.ok_bind, foldlM_index, SchemaCompose.Reading.ok_bind,
    readTable]

theorem step_silent
    {line : Line} (row : line.text ∈ [[], "//@stub".toList])
    (reading : Model.Reading) :
    reading.step names line = .ok reading := by
  apply Reading.step_of_no_code
  · rcases List.mem_pair.mp row with blank | stub
    · rw [Line.documentation?, blank]
      rfl
    · rw [Line.documentation?, stub]
      rfl
  · rcases List.mem_pair.mp row with blank | stub
    · rw [Line.code, blank]
      rfl
    · rw [Line.code, stub]
      decide

/-- The mark of a stub is left to the other reader. -/
theorem foldlM_stub
    {mark : Bool} {lines : List Line}
    (rows : lines.map (·.text) = whenMarked mark "//@stub")
    (reading : Model.Reading) :
    lines.foldlM (Reading.step names) reading = .ok reading := by
  cases mark with
  | false =>
      rw [whenMarked, if_neg (by decide), List.map_eq_nil_iff] at rows
      rw [rows]
      rfl
  | true =>
      rw [whenMarked, if_pos rfl] at rows
      obtain ⟨line, rfl, stub⟩ := List.map_eq_singleton_iff.mp rows
      rw [List.foldlM_cons, step_silent (by rw [stub]; simp)]
      rfl

/-- The rows behind the fields give what the attributes say. -/
theorem foldlM_attributeLines
    (writable : model.IsWritable) {lines : List Line}
    (rows : lines.map (·.text) =
      if model.attributeLines.isEmpty then [] else [] :: model.attributeLines) :
    lines.foldlM (Reading.step names)
        { model := { name := model.name, fields := model.fields.map Field.parsed
                     documentation := rereadDocumentation model.documentation } } =
      .ok { model := model.parsed } := by
  have said := foldlM_attributes writable
  split at rows
  · rename_i empty
    have none : model.attributes = [] := by
      rw [List.isEmpty_iff, attributeLines_eq, List.append_eq_nil_iff] at empty
      rw [← List.map_eq_nil_iff, ← map_code_attributeRows writable, empty.1,
        List.map_nil]
    rw [none, List.map_nil, List.foldlM_nil,
      SchemaCompose.Reading.pure_eq_ok] at said
    rw [List.map_eq_nil_iff.mp rows, said]
    rfl
  · rw [attributeLines_eq] at rows
    obtain ⟨blank, further, rfl, blankRow, furtherRows⟩ :=
      List.map_eq_cons_iff.mp rows
    obtain ⟨own, last, rfl, ownRows, stubRow⟩ :=
      List.map_eq_append_iff.mp furtherRows
    have ownCode : own.map (·.code) = model.attributes.map Attribute.write := by
      rw [← map_code_attributeRows writable, ← ownRows, List.map_map]
      rfl
    rw [List.foldlM_cons, step_silent (by rw [blankRow]; simp),
      SchemaCompose.Reading.ok_bind, List.foldlM_append,
      Reading.foldlM_attributes (isWritten_of_mem_attributes writable)
        (startsWith_of_mem_attributes model) ownCode said,
      SchemaCompose.Reading.ok_bind, foldlM_stub stubRow]

/-- The block of a model gives the model, without what is recovered from its
rows. -/
theorem ofBlock_blockText
    (writable : model.IsWritable) (resolved : model.IsResolved names) {block : Block}
    (isRead : model.blockText.IsReadAs block) :
    Model.ofBlock names block = .ok model.parsed := by
  have rows : block.body.map (·.text) =
      (model.fields.flatMap fun field =>
          documentationLines field.documentation ++ [field.render]) ++
        if model.attributeLines.isEmpty then [] else [] :: model.attributeLines :=
    isRead.body
  obtain ⟨upper, lower, split, upperRows, lowerRows⟩ :=
    List.map_eq_append_iff.mp rows
  have name : block.name = model.name := isRead.name
  have documentation :
      block.documentation = rereadDocumentation model.documentation :=
    isRead.documentation
  have distinct : (([] ++ model.fields : List Field).map (·.name)).Nodup :=
    writable.distinct
  rw [Model.ofBlock]
  simp only [name, documentation, split, List.foldlM_append]
  rw [Reading.foldlM_fields writable.fields resolved upperRows _ distinct,
    SchemaCompose.Reading.ok_bind, List.nil_append,
    foldlM_attributeLines writable lowerRows]
  rfl

end Model

end SchemaCompose
