import SchemaCompose.Proofs.RoundTrip.Relations
import SchemaCompose.Proofs.Schema.FieldLines

/-!
# Field lines that are written out

The line of a field is its code and, behind it, the directives that are written as
comments.  The code is the name, the type and a row of attributes; reading it gives
back everything that the attributes say, and leaves to the other reader what is
recovered from the line by its shape.
-/

namespace SchemaCompose

/-! ## Reading optional attributes -/

theorem foldlM_marked
    {σ : Type} {step : σ → Attribute → Except Fault σ} {mark : Bool} {name : Text}
    {start marked : σ} (said : mark = true → step start ⟨name, none⟩ = .ok marked)
    (unsaid : mark = false → start = marked) :
    (((whenMarked mark name).map (Attribute.mk · none)).map
      Attribute.trimmed).foldlM step start =
      .ok marked := by
  cases mark with
  | false => exact congrArg Except.ok (unsaid rfl)
  | true =>
      show step start ⟨name, none⟩ >>= pure = _
      rw [said rfl]
      rfl

theorem foldlM_optional
    {σ α : Type} {step : σ → Attribute → Except Fault σ} {setting : Option α}
    {source : α → Attribute} {start settled : σ}
    (said : ∀ value, setting = some value →
      step start (source value).trimmed = .ok settled)
    (unsaid : setting = none → start = settled) :
    ((setting.toList.map source).map Attribute.trimmed).foldlM step start =
      .ok settled := by
  cases setting with
  | none => exact congrArg Except.ok (unsaid rfl)
  | some value =>
      show step start (source value).trimmed >>= pure = _
      rw [said value rfl]
      rfl

namespace Field

variable {names : DeclaredNames} {field : Field}

/-- The attributes of a field, in the order in which they are written. -/
def attributes (field : Field) : List Attribute :=
  (whenMarked field.isId "@id").map (Attribute.mk · none) ++
    (whenMarked field.isUnique "@unique").map (Attribute.mk · none) ++
    field.default.toList.map (fun value => ⟨"@default", some value⟩) ++
    (whenMarked field.isUpdatedAt "@updatedAt").map (Attribute.mk · none) ++
    field.extras.columnName.toList.map
      (fun name => ⟨"@map", some (inQuotes name)⟩) ++
    field.extras.nativeType.toList.map nativeAttribute ++
    field.relation.toList.map fun relation =>
      ⟨"@relation", some (commaRow (relation.argumentsWith field.extras.onUpdate))⟩

/-- The attributes as they stand on the line, each behind a space. -/
def attributeRow (field : Field) : Text :=
  field.attributes.flatMap fun source => ' ' :: source.write

/-- The line of a field without its directives. -/
def code (field : Field) : Text :=
  field.name ++ ' ' :: (field.typeText ++ field.attributeRow)

/-- The directives as they stand on the line, each behind a space. -/
def directiveRow (field : Field) : Text :=
  field.directiveTexts.flatMap (' ' :: ·)

/-! ## The line -/

theorem map_write_marked (mark : Bool) (name : Text) :
    ((whenMarked mark name).map (Attribute.mk · none)).map Attribute.write =
      whenMarked mark name := by
  cases mark with
  | false => rfl
  | true => rfl

theorem relationText_eq (writable : field.IsWritable) :
    field.relationText =
      (field.relation.toList.map fun relation =>
        (Attribute.mk "@relation"
          (some (commaRow (relation.argumentsWith field.extras.onUpdate)))).write) := by
  cases relates : field.relation with
  | none =>
      have inactive : field.extras.onUpdate = none := by
        rw [← Option.not_isSome_iff_eq_none]
        intro active
        have present := writable.onUpdate active
        rw [relates] at present
        contradiction
      simp [relationText, relates, inactive, whenSet]
  | some relation =>
      rw [relationText, relates]
      simp [Attribute.write, Relation.argumentsWith]
      rfl

theorem attributeTexts_eq (writable : field.IsWritable) :
    field.attributeTexts = field.attributes.map Attribute.write := by
  have columns :
      whenSet field.extras.columnName
        (fun name => "@map(" ++ inQuotes name ++ ")") =
        field.extras.columnName.toList.map fun name =>
          "@map(" ++ inQuotes name ++ ")" :=
    whenSet_of_filled fun name member =>
      (writable.extras.columnName name member).2.2
  have types :
      whenSet field.extras.nativeType ("@db." ++ ·) =
        field.extras.nativeType.toList.map fun type =>
          (nativeAttribute type).write := by
    rw [whenSet_of_filled fun type member =>
      (writable.extras.nativeType type member).filled]
    apply List.map_congr_left
    intro type member
    exact (writable.extras.nativeType type
      (Option.mem_toList.mp member)).written.symm
  rw [attributeTexts, columns, types, relationText_eq writable, attributes]
  simp only [List.map_append, map_write_marked]
  simp only [List.map_map]
  rfl

theorem render_eq (writable : field.IsWritable) :
    field.render = field.code ++ field.directiveRow := by
  rw [render, Text.join_space, attributeTexts_eq writable, code, attributeRow,
    directiveRow, List.flatMap_cons, List.flatMap_append, List.flatMap_map,
    List.append_assoc]
  simp

/-! ## The attributes -/

theorem isName_nativeAttribute (type : Text) :
    Attribute.IsName (nativeAttribute type).name := by
  have run : ∀ c ∈ 'b' :: '.' :: type.takeWhile Text.isWord,
      Attribute.isNameChar c = true := by
    simp only [List.forall_mem_cons]
    refine ⟨by decide, by decide, ?_⟩
    intro c member
    exact Attribute.isNameChar_of_isWord (List.mem_takeWhile_imp member)
  show Attribute.IsName ('@' :: 'd' :: 'b' :: '.' :: type.takeWhile Text.isWord)
  exact Attribute.isName_of_bare (Attribute.bareName?_eq_self.mpr ⟨by decide, run⟩)

theorem IsWritable.isItem_onUpdate (writable : field.IsWritable) :
    ∀ action ∈ field.extras.onUpdate, Arguments.IsItem action := by
  intro action member
  exact Mining.isItem_of_mem_relationActions action
    (writable.extras.onUpdate action member)

/-- What holds of every attribute that a field may have holds of those that it
has. -/
theorem forall_mem_attributes
    {Holds : Attribute → Prop} (isId : Holds ⟨"@id", none⟩)
    (isUnique : Holds ⟨"@unique", none⟩)
    (default : ∀ value ∈ field.default, Holds ⟨"@default", some value⟩)
    (isUpdatedAt : Holds ⟨"@updatedAt", none⟩)
    (columnName : ∀ name ∈ field.extras.columnName,
      Holds ⟨"@map", some (inQuotes name)⟩)
    (nativeType : ∀ type ∈ field.extras.nativeType, Holds (nativeAttribute type))
    (relation : ∀ relation ∈ field.relation,
      Holds ⟨"@relation",
        some (commaRow (relation.argumentsWith field.extras.onUpdate))⟩) :
    ∀ source ∈ field.attributes, Holds source := by
  rw [attributes]
  simp only [List.forall_mem_append, List.forall_mem_map, Option.mem_toList]
  exact ⟨⟨⟨⟨⟨⟨forall_mem_whenMarked isId, forall_mem_whenMarked isUnique⟩, default⟩,
    forall_mem_whenMarked isUpdatedAt⟩, columnName⟩, nativeType⟩, relation⟩

theorem isWritten_of_mem_attributes (writable : field.IsWritable) :
    ∀ source ∈ field.attributes, source.IsWritten := by
  have mark : ∀ {name : Text}, Attribute.IsName name →
      (Attribute.mk name none).IsWritten := by
    intro name isName
    exact ⟨isName, by simp⟩
  have call : ∀ {name inner : Text}, Attribute.IsName name → Balanced inner →
      (Attribute.mk name (some inner)).IsWritten := by
    intro name inner isName balanced
    exact ⟨isName, by simpa using balanced⟩
  refine forall_mem_attributes (mark (by decide)) (mark (by decide)) ?_
    (mark (by decide)) ?_ ?_ ?_
  · intro value member
    exact call (by decide) (writable.default value member).1.balanced
  · intro name member
    exact call (by decide)
      (balanced_inQuotes (writable.extras.columnName name member).1)
  · intro type member
    refine ⟨isName_nativeAttribute type, ?_⟩
    intro inner inType
    exact ((writable.extras.nativeType type member).arguments inner
      inType).1.balanced
  · intro relation member
    exact call (by decide) (Arguments.balanced_commaRow
      ((writable.relation relation member).balanced writable.isItem_onUpdate))

/-! ## Reading the attributes -/

theorem withAttribute_default
    (writable : field.IsWritable) {value : Text} (said : field.default = some value)
    (start : Field) :
    start.withAttribute (Attribute.mk "@default" (some value)).trimmed =
      .ok { start with default := some value } := by
  have trimmed : Text.trim value = value := (writable.default value said).2
  rw [Attribute.trimmed, Option.map_some, trimmed]
  rfl

theorem withAttribute_relation
    (writable : field.IsWritable) {relation : Relation}
    (said : field.relation = some relation) (start : Field) :
    start.withAttribute (Attribute.mk "@relation"
        (some (commaRow (relation.argumentsWith field.extras.onUpdate)))).trimmed =
      .ok { start with relation := some relation.reread } := by
  have readable := writable.relation relation said
  have trimmed :
      Text.trim (commaRow (relation.argumentsWith field.extras.onUpdate)) =
        commaRow (relation.argumentsWith field.extras.onUpdate) :=
    Arguments.isTrimmed_commaRow (readable.isArgument writable.isItem_onUpdate)
  rw [Attribute.trimmed, Option.map_some, trimmed]
  show (Attribute.relation _).map _ = _
  rw [Attribute.relation_of_arguments readable writable.isItem_onUpdate]
  rfl

/-- What the attributes of a field say, taken together. -/
theorem foldlM_attributes (writable : field.IsWritable)
    (documentation : Option Text) :
    (field.attributes.map Attribute.trimmed).foldlM withAttribute
        { name := field.name, type := field.type, kind := field.kind
          isList := field.isList, isRequired := field.isRequired, documentation } =
      .ok { field.reread with documentation, extras := {} } := by
  let bare : Field :=
    { name := field.name, type := field.type, kind := field.kind
      isList := field.isList, isRequired := field.isRequired, documentation }
  let identified := { bare with isId := field.isId }
  let unique := { identified with isUnique := field.isUnique }
  let defaulted := { unique with default := field.default }
  let updated := { defaulted with isUpdatedAt := field.isUpdatedAt }
  let related := { updated with relation := field.relation.map Relation.reread }
  have readId :
      (((whenMarked field.isId "@id").map (Attribute.mk · none)).map
        Attribute.trimmed).foldlM
        withAttribute bare = .ok identified :=
    foldlM_marked (fun said => by simp only [identified, said]; rfl)
      (fun unsaid => by simp only [identified, unsaid]; rfl)
  have readUnique :
      (((whenMarked field.isUnique "@unique").map (Attribute.mk · none)).map
        Attribute.trimmed).foldlM withAttribute identified = .ok unique :=
    foldlM_marked (fun said => by simp only [unique, said]; rfl)
      (fun unsaid => by simp only [unique, unsaid]; rfl)
  have readDefault :
      ((field.default.toList.map fun value =>
        Attribute.mk "@default" (some value)).map
        Attribute.trimmed).foldlM withAttribute unique = .ok defaulted :=
    foldlM_optional
      (fun value said => by simp only [defaulted, said, withAttribute_default writable said])
      (fun unsaid => by simp only [defaulted, unsaid]; rfl)
  have readUpdatedAt :
      (((whenMarked field.isUpdatedAt "@updatedAt").map (Attribute.mk · none)).map
        Attribute.trimmed).foldlM withAttribute defaulted = .ok updated :=
    foldlM_marked (fun said => by simp only [updated, said]; rfl)
      (fun unsaid => by simp only [updated, unsaid]; rfl)
  have readColumn :
      ((field.extras.columnName.toList.map fun name =>
        Attribute.mk "@map" (some (inQuotes name))).map Attribute.trimmed).foldlM
        withAttribute updated = .ok updated :=
    foldlM_optional (fun _ _ => rfl) (fun _ => rfl)
  have readType :
      ((field.extras.nativeType.toList.map nativeAttribute).map
        Attribute.trimmed).foldlM
        withAttribute updated = .ok updated :=
    foldlM_optional (fun _ _ => rfl) (fun _ => rfl)
  have readRelation :
      ((field.relation.toList.map fun relation =>
        Attribute.mk "@relation"
          (some (commaRow (relation.argumentsWith field.extras.onUpdate)))).map
        Attribute.trimmed).foldlM withAttribute updated = .ok related :=
    foldlM_optional
      (fun relation said => by
        simp only [related, said, withAttribute_relation writable said, Option.map_some])
      (fun unsaid => by simp only [related, unsaid]; rfl)
  rw [attributes]
  simp only [List.map_append, List.foldlM_append]
  rw [readId, Reading.ok_bind, readUnique, Reading.ok_bind, readDefault,
    Reading.ok_bind, readUpdatedAt, Reading.ok_bind, readColumn, Reading.ok_bind,
    readType, Reading.ok_bind, readRelation]
  rfl

end Field

/-! ## The parts of the line -/

/-- A type that can be written is one that a field line may hold. -/
theorem IsWritableType.isType {type : Text} (isType : IsWritableType type) :
    Text.IsName type ∨ IsUnsupported type :=
  isType.imp_right fun ⟨written, delimited, _⟩ =>
    ⟨unsupportedArgument type, delimited.plain, written.trans (by simp [inQuotes])⟩

namespace Field

variable {names : DeclaredNames} {field : Field}

/-- What stands behind the type of a field: nothing, or a space. -/
theorem head?_attributeRow (field : Field) :
    ∀ c ∈ field.attributeRow.head?, c = ' ' :=
  Text.head?_flatMap_space Attribute.write field.attributes

/-- The marks behind the type of a field. -/
def marks (field : Field) : Text :=
  if field.isList then "[]" else if field.isRequired then "" else "?"

theorem typeText_eq (field : Field) :
    field.typeText = field.type ++ field.marks := by
  rw [typeText, marks]
  split_ifs
  · rfl
  · exact (List.append_nil field.type).symm
  · rfl

/-- What holds of all marks holds behind the type of every field. -/
theorem forall_marks
    (field : Field) (Holds : Text → Prop) (list : Holds "[]") (required : Holds "")
    (optional : Holds "?") : Holds field.marks := by
  rw [marks]
  split_ifs
  · exact list
  · exact required
  · exact optional

theorem ofText?_code (writable : field.IsWritable) :
    FieldLine.ofText? field.code =
      some { name := field.name, type := field.type, isList := field.isList
             isOptional := !field.isList && !field.isRequired
             attributes := field.attributeRow } := by
  have ends : ∀ c ∈ field.attributeRow.head?,
      Text.isWord c = false ∧ c ∉ ['(', '[', '?'] := by
    intro c first
    rw [head?_attributeRow field c first]
    decide
  refine FieldLine.ofText?_eq_some_iff.mpr ⟨[' '], FieldLine.isReadable writable.name
    (by simp) (by decide) writable.type.isType ends, ?_⟩
  have marked : field.marks = (if field.isList then ['[', ']'] else []) ++
      if !field.isList && !field.isRequired then ['?'] else [] := by
    rw [marks]
    cases field.isList <;> cases field.isRequired <;> rfl
  rw [code, typeText_eq, marked]
  simp [FieldLine.row, FieldLine.marks]

/-- The field that the code of a line declares. What is recovered by shape is
missing from it. -/
theorem read_code (writable : field.IsWritable) (resolved : field.IsResolved names)
    (documentation : Option Text) :
    Field.read names documentation field.code =
      .ok { field.reread with documentation, extras := {} } := by
  have scanned :
      Attribute.scan field.attributeRow =
      .ok (field.attributes.map Attribute.trimmed) :=
    Attribute.scan_flatMap (isWritten_of_mem_attributes writable)
  have required : (!(!field.isList && !field.isRequired) && !field.isList) =
      field.isRequired := by
    cases list : field.isList with
    | false => simp
    | true => simp [writable.list list]
  rw [Field.read, ofText?_code writable]
  simp only [show names.kindOf? field.type = _ from resolved, scanned, Reading.ok_bind,
    required]
  exact foldlM_attributes writable documentation

/-! ## The code of the line -/

theorem balanced_type {type : Text} (isType : IsWritableType type) : Balanced type := by
  rcases isType with isName | ⟨written, delimited, _⟩
  · exact balanced_of_plain (isName.apart (by decide))
  · have enclosed :
        Balanced ('(' :: inQuotes (unsupportedArgument type) ++ [')']) :=
      (balanced_inQuotes delimited).enclosed (Or.inl rfl) (Or.inl rfl)
    have word : Balanced "Unsupported".toList := by decide
    have whole := word.append enclosed (Or.inr (by simp))
    rw [written]
    exact whole

theorem isTrimmed_type {type : Text} (isType : IsWritableType type) :
    Text.IsTrimmed type := by
  rcases isType with isName | ⟨written, _⟩
  · exact isName.isTrimmed
  · have around :=
      Text.IsTrimmed.around (show Text.IsTrimmed "Unsupported(".toList by decide)
      (by decide) (show Text.IsTrimmed ")".toList by decide) (by decide)
      (inQuotes (unsupportedArgument type))
    rwa [← written] at around

theorem isLine_type {type : Text} (isType : IsWritableType type) :
    Text.IsLine type := by
  rcases isType with isName | ⟨written, _, single⟩
  · exact isName.isLine
  · rw [written, Text.isLine_append, Text.isLine_append]
    exact ⟨⟨by decide, Arguments.isLine_inQuotes single⟩, by decide⟩

theorem balanced_typeText (writable : field.IsWritable) :
    Balanced field.typeText := by
  obtain ⟨balanced, noSlash⟩ :
      Balanced field.marks ∧ field.marks.head? ≠ some '/' :=
    field.forall_marks (fun marks => Balanced marks ∧ marks.head? ≠ some '/')
      (by decide) (by decide)
      (by decide)
  rw [typeText_eq]
  exact (balanced_type writable.type).append balanced (Or.inr noSlash)

theorem balanced_code (writable : field.IsWritable) :
    Balanced field.code := by
  have space : Balanced [' '] := by decide
  have name : Balanced field.name :=
    balanced_of_plain (writable.name.apart (by decide))
  have row : Balanced field.attributeRow :=
    Attribute.balanced_flatMap (isWritten_of_mem_attributes writable)
  have noSlash : field.attributeRow.head? ≠ some '/' := by
    intro first
    have same := head?_attributeRow field '/' first
    contradiction
  have behind := (balanced_typeText writable).append row (Or.inr noSlash)
  exact name.append (space.append behind (Or.inl (by simp))) (Or.inr (by simp))

theorem typeText_ne_nil (writable : field.IsWritable) :
    field.typeText ≠ [] := by
  obtain ⟨c, others, written, _⟩ := FieldLine.exists_cons_of_isType writable.type.isType
  rw [typeText_eq, written]
  exact List.cons_ne_nil c _

theorem isTrimmed_typeText (writable : field.IsWritable) :
    Text.IsTrimmed field.typeText := by
  obtain ⟨c, others, written, _⟩ := FieldLine.exists_cons_of_isType writable.type.isType
  have filled : field.type ≠ [] := by
    rw [written]
    exact List.cons_ne_nil c others
  have type := isTrimmed_type writable.type
  rw [typeText_eq]
  apply field.forall_marks fun marks => Text.IsTrimmed (field.type ++ marks)
  · simpa using type.around filled (show Text.IsTrimmed "[]".toList by decide)
      (by simp) []
  · simpa using type
  · simpa using type.around filled (show Text.IsTrimmed "?".toList by decide)
      (by simp) []

theorem isTrimmed_code (writable : field.IsWritable) :
    Text.IsTrimmed field.code := by
  have lead : Text.IsTrimmed (field.name ++ [' '] ++ field.typeText) :=
    writable.name.isTrimmed.around writable.name.ne_nil
      (isTrimmed_typeText writable)
      (typeText_ne_nil writable) _
  have whole := Attribute.isTrimmed_append_flatMap lead (by simp)
    (isWritten_of_mem_attributes writable)
  rw [code, attributeRow]
  simpa using whole

theorem isLine_argumentsWith
    {relation : Relation} (writable : relation.IsWritable)
    {onUpdate : Option Text}
    (update : ∀ action ∈ onUpdate, Arguments.IsItem action) :
    ∀ argument ∈ relation.argumentsWith onUpdate, Text.IsLine argument := by
  apply Relation.forall_mem_argumentsWith
  · intro name member
    exact Arguments.isLine_inQuotes (writable.name name member).1.single
  · exact Arguments.isLine_keyed (by decide)
      (Arguments.isLine_bracketed writable.fields)
  · exact Arguments.isLine_keyed (by decide)
      (Arguments.isLine_bracketed writable.references)
  · intro action member
    exact Arguments.isLine_keyed (by decide)
      (writable.onDelete action member).1.single
  · intro action member
    exact Arguments.isLine_keyed (by decide) (update action member).single

theorem isLine_of_mem_attributes (writable : field.IsWritable) :
    ∀ source ∈ field.attributes, ∀ inner ∈ source.arguments, Text.IsLine inner := by
  refine forall_mem_attributes (by simp) (by simp) ?_ (by simp) ?_ ?_ ?_
  · rintro value member inner ⟨⟩
    exact (writable.default value member).1.single
  · rintro name member inner ⟨⟩
    exact Arguments.isLine_inQuotes
      (writable.extras.columnName name member).2.1
  · intro type member inner inType
    exact ((writable.extras.nativeType type member).arguments inner
      inType).1.single
  · rintro relation member inner ⟨⟩
    exact Arguments.isLine_commaRow
      (isLine_argumentsWith
        (writable.relation relation member) writable.isItem_onUpdate)

/-! ## The directives -/

/-- What holds of all directives holds of those that a field has. -/
theorem forall_mem_directiveTexts
    {Holds : Text → Prop} (shareable : Holds "//@shareable")
    (inaccessible : Holds "//@inaccessible")
    (external : Holds "//@external") (requires : Holds "//@requires")
    (field : Field) :
    ∀ text ∈ field.directiveTexts, Holds text := by
  rw [directiveTexts]
  simp only [List.forall_mem_append]
  exact ⟨⟨⟨forall_mem_whenMarked shareable, forall_mem_whenMarked inaccessible⟩,
    forall_mem_whenMarked external⟩, forall_mem_whenMarked requires⟩

theorem directiveRow_cases (field : Field) :
    field.directiveRow = [] ∨
      ∃ rest, field.directiveRow = ' ' :: '/' :: '/' :: rest := by
  have slashes : ∀ text ∈ field.directiveTexts, text = '/' :: '/' :: text.drop 2 :=
    field.forall_mem_directiveTexts (by decide) (by decide) (by decide) (by decide)
  rw [directiveRow]
  cases directives : field.directiveTexts with
  | nil => exact Or.inl rfl
  | cons text others =>
      right
      rw [List.flatMap_cons, slashes text (by simp [directives])]
      exact ⟨_, rfl⟩

/-- The directives are a comment behind the code. -/
theorem code_render (writable : field.IsWritable) :
    Text.code field.render = field.code := by
  have balanced := balanced_code writable
  have trimmed := (isTrimmed_code writable).trimEnd_eq
  rw [Text.code, render_eq writable]
  rcases directiveRow_cases field with none | ⟨rest, comment⟩
  · rw [none, List.append_nil, balanced.silent, trimmed]
  · have behind :
        Text.beforeComment .outside (' ' :: '/' :: '/' :: rest) = [' '] := by
      simp [Text.beforeComment, LiteralState.next]
    rw [comment, balanced.beforeComment_append (Or.inr (by simp)), behind,
      Text.trimEnd_append_of_blank _ (by decide), trimmed]

theorem isTrimmed_render (writable : field.IsWritable) :
    Text.IsTrimmed field.render := by
  have filled : field.code ≠ [] := by simp [code]
  have each : ∀ text ∈ field.directiveTexts, Text.IsTrimmed text ∧ text ≠ [] :=
    field.forall_mem_directiveTexts (by decide) (by decide) (by decide) (by decide)
  rw [render_eq writable]
  exact (isTrimmed_code writable).append_flatMap_space filled each

theorem isLine_render (writable : field.IsWritable) :
    Text.IsLine field.render := by
  have type : Text.IsLine field.typeText := by
    rw [typeText_eq, Text.isLine_append]
    exact ⟨isLine_type writable.type,
      field.forall_marks Text.IsLine (by decide) (by decide) (by decide)⟩
  have row : Text.IsLine field.attributeRow :=
    Attribute.isLine_flatMap (isWritten_of_mem_attributes writable)
      (isLine_of_mem_attributes writable)
  have directives : Text.IsLine field.directiveRow :=
    Text.isLine_flatMap_space
      (field.forall_mem_directiveTexts (by decide) (by decide) (by decide)
        (by decide))
  rw [render_eq writable, code]
  simp only [Text.isLine_append, Text.isLine_cons]
  exact ⟨⟨writable.name.isLine, by decide, type, row⟩, directives⟩

end Field

end SchemaCompose
