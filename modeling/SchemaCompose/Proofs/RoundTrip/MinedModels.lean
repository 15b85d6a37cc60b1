import SchemaCompose.Mining.Injection
import SchemaCompose.Proofs.Mining.Cuts
import SchemaCompose.Proofs.RoundTrip.Configuration
import SchemaCompose.Proofs.RoundTrip.MinedFields
import SchemaCompose.Proofs.RoundTrip.Models

/-!
# What is recovered from blocks

The block of a model gives back what its fields carry, its indexes and the mark of
a stub; its other rows give nothing.  No other block is taken for one of a model
with a proper name, so that everything recovered goes back to where it was written
(`Model.inject_parsed`).
-/

namespace SchemaCompose

open Mining

/-! ## Models -/

namespace Model

variable {names : DeclaredNames} {model : Model}

theorem isInert_of_mem_arguments {key : CompoundKey} (silent : key.IsSilent) :
    ∀ argument ∈ key.arguments, IsInert argument := by
  apply CompoundKey.forall_mem_arguments
  · exact isInert_bracketed silent.fields
  · intro name member
    exact isInert_keyed (by decide)
      (isInert_inQuotes (silent.name name member))

/-- Keys, constraints and the name of the table are read in another way. -/
theorem keepLine_call
    (label : Text) (known : label ∈ ["id".toList, "unique".toList, "map".toList])
    {inner : Text} (isInert : IsInert inner) (mined : MinedModel) :
    keepLine mined
      (Attribute.mk ('@' :: '@' :: label) (some inner)).write = mined := by
  have word : ∀ label ∈ ["id".toList, "unique".toList, "map".toList],
      IsLead rowMarks label ∧ ∀ rest, nativeType? ('@' :: label ++ rest) = none ∧
        extraIndex? ('@' :: label ++ rest) = none ∧
        extraIndex? ('@' :: '@' :: label ++ rest) = none := by
    simp only [List.forall_mem_cons]
    refine ⟨⟨by decide, fun rest => ⟨rfl, rfl, rfl⟩⟩,
      ⟨by decide, fun rest => ⟨rfl, rfl, rfl⟩⟩,
      ⟨by decide, fun rest => ⟨rfl, rfl, rfl⟩⟩, by simp⟩
  obtain ⟨lead, other⟩ := word label known
  have mines :
      Mines ('@' :: '@' :: (label ++ '(' :: inner ++ [')'])) none none none := by
    apply mines_of_block_attribute (isInert_call lead isInert) (isClosed_call _ _)
    · intro rest
      have none := (other ('(' :: inner ++ [')'] ++ rest)).1
      simpa using none
    · intro rest
      have none := (other ('(' :: inner ++ [')'] ++ rest)).2
      simpa using none
  exact keepLine_of_mines (by simp) mines mined

theorem foldl_keepLine_of_silent
    {rows : List Text} (silent : ∀ row ∈ rows, ∀ mined, keepLine mined row = mined)
    (mined : MinedModel) : rows.foldl keepLine mined = mined := by
  induction rows with
  | nil => rfl
  | cons row rows ih =>
      rw [List.forall_mem_cons] at silent
      rw [List.foldl_cons, silent.1, ih silent.2]

theorem foldl_keepLine_index
    {indexes : List Text}
    (closed : ∀ index ∈ indexes, (indexAttribute index).write = index)
    (mined : MinedModel) :
    indexes.foldl keepLine mined =
      { mined with extraIndexes := mined.extraIndexes ++ indexes } := by
  induction indexes generalizing mined with
  | nil => simp
  | cons index indexes ih =>
      rw [List.forall_mem_cons] at closed
      rw [List.foldl_cons, keepLine_index closed.1, ih closed.2]
      simp

theorem foldl_keepLine_attributeLines (writable : model.IsWritable)
    (silent : model.IsSilent)
    (mined : MinedModel) :
    model.attributeLines.foldl keepLine mined =
      { mined with
        extraIndexes := mined.extraIndexes ++ model.extraIndexes
        isStub := mined.isStub || model.isStub } := by
  have keys : ∀ row ∈ model.primaryKey.toList.map (CompoundKey.render "@@id"),
      ∀ mined, keepLine mined row = mined := by
    rw [List.forall_mem_map]
    intro key member
    rw [CompoundKey.render_eq]
    exact keepLine_call "id" (by simp) (isInert_commaRow
      (isInert_of_mem_arguments
        (silent.primaryKey key (Option.mem_toList.mp member))))
  have uniques : ∀ row ∈ model.uniqueIndexes.map (CompoundKey.render "@@unique"),
      ∀ mined, keepLine mined row = mined := by
    rw [List.forall_mem_map]
    intro key member
    rw [CompoundKey.render_eq]
    exact keepLine_call "unique" (by simp)
      (isInert_commaRow
        (isInert_of_mem_arguments (silent.uniqueIndexes key member)))
  have table : ∀ row ∈ whenSet model.tableName fun name =>
      "@@map(" ++ inQuotes name ++ ")",
      ∀ mined, keepLine mined row = mined := by
    apply forall_mem_whenSet
    intro name member
    exact keepLine_call "map" (by simp)
      (isInert_inQuotes (silent.tableName name member))
  rw [attributeLines, List.foldl_append, List.foldl_append, List.foldl_append,
    List.foldl_append, foldl_keepLine_of_silent keys,
    foldl_keepLine_of_silent uniques, foldl_keepLine_index fun index member =>
      (writable.extraIndexes index member).closed,
    foldl_keepLine_of_silent table]
  cases model.isStub with
  | false =>
      rw [Bool.or_false]
      rfl
  | true =>
      have stub :
          keepLine
            { mined with extraIndexes := mined.extraIndexes ++ model.extraIndexes }
            "//@stub" =
          { mined with
            extraIndexes := mined.extraIndexes ++ model.extraIndexes
            isStub := mined.isStub || true } := rfl
      exact stub

theorem foldl_keepLine_fields
    {fields : List Field} (writable : ∀ field ∈ fields, field.IsWritable)
    (silent : ∀ field ∈ fields, field.IsSilent)
    (mined : MinedModel) :
    (fields.flatMap fun field =>
      documentationLines field.documentation ++ [field.render]).foldl
        keepLine mined =
      { mined with fields := fields.foldl Field.keep mined.fields } := by
  induction fields generalizing mined with
  | nil => rfl
  | cons field others ih =>
      rw [List.forall_mem_cons] at writable silent
      have remarks :
          ∀ row ∈ documentationLines field.documentation, IsRemark row := by
        rw [documentationLines_eq, List.forall_mem_map]
        intro text member
        exact isRemark_documentationRow
          (isTrimmed_documentationTexts writable.1.documentation text member).1
      rw [List.flatMap_cons, List.foldl_append, List.foldl_append,
        foldl_keepLine_of_isRemark remarks, List.foldl_cons,
        Field.keepLine_render writable.1 silent.1, List.foldl_nil,
        ih writable.2 silent.2]
      rfl

/-- Everything that is recovered from the block of a model. -/
theorem ofLines_blockText (writable : model.IsWritable)
    (silent : model.IsSilent) :
    Mining.ofLines model.blockText.minedRows =
      { fields := model.fields.foldl Field.keep []
        extraIndexes := model.extraIndexes
        isStub := model.isStub } := by
  obtain ⟨lead, remarks, rows⟩ :=
    BlockText.minedRows_eq (isReadable_blockText writable)
  have header : keepLine {} model.blockText.header = {} := by
    have inert := isInert_header writable.name .model
    have brace : IsClosed ((' ' :: model.name) ++ [' ', '\x7b']) :=
      IsClosed.append (by simp) (by decide)
    have closed :
        IsClosed
          (BlockKind.model.keyword ++ ' ' :: (model.name ++ [' ', '\x7b'])) :=
      IsClosed.append (by simp) brace
    have plain :
        (BlockKind.model.keyword ++ ' ' :: (model.name ++ [' ', '\x7b'])).head? ≠
          some '/' := by
      intro slash
      have letter : some 'm' = some '/' := slash
      contradiction
    rw [BlockText.header_eq]
    exact keepLine_of_mines plain (mines_of_isInert inert closed) {}
  rw [ofLines, rows, List.foldl_append, foldl_keepLine_of_isRemark remarks,
    List.foldl_cons, header, foldl_keepLine_filter]
  show model.bodyLines.foldl keepLine {} = _
  have blank : ∀ mined, keepLine mined [] = mined :=
    fun mined => keepLine_of_mines (by simp) mines_nil mined
  have attributes := foldl_keepLine_attributeLines writable silent
    { fields := model.fields.foldl Field.keep [] }
  rw [bodyLines, List.foldl_append, foldl_keepLine_fields writable.fields silent.fields]
  split
  · rename_i empty
    rw [List.isEmpty_iff.mp empty] at attributes
    exact attributes
  · rw [List.foldl_cons, blank]
    exact attributes

/-- Once more is known of its fields and rows, the model is the one that was
written. -/
theorem inject_parsed
    (writable : model.IsWritable) (silent : model.IsSilent) {mined : Mined}
    (found : mined.find? model.name =
      some (Mining.ofLines model.blockText.minedRows)) :
    model.parsed.inject mined = model.reread := by
  have name : mined.find? model.parsed.name =
      some (Mining.ofLines model.blockText.minedRows) := found
  have fields :
      model.parsed.fields.map (Field.inject (model.fields.foldl Field.keep [])) =
      model.fields.map Field.reread := by
    show (model.fields.map Field.parsed).map _ = _
    rw [List.map_map]
    apply List.map_congr_left
    intro field member
    have extras := Field.find?_foldl_keep
      (fun field member => (writable.fields field member).extras)
        writable.distinct []
      (fun _ _ => rfl) field member
    have own : Field.inject (model.fields.foldl Field.keep []) field.parsed =
        { field.parsed with extras := field.extras } := by
      rw [← extras]
      rfl
    exact own
  rw [inject, name, ofLines_blockText writable silent]
  simp only [Option.getD_some, fields]
  rfl

end Model

/-! ## Enums -/

theorem EnumValue.isUnheaded_valueLine {value : EnumValue}
    (writable : value.IsWritable) :
    IsUnheaded (SchemaEnum.valueLine value) := by
  rw [valueLine_eq writable, attributes]
  apply isUnheaded_append writable.name.isWord
  · cases value.storedName with
    | none => simp
    | some name =>
        rintro c ⟨⟩
        decide
  · cases value.storedName with
    | none => simp [Text.trimStart]
    | some name =>
        rintro c ⟨⟩
        decide

theorem SchemaEnum.isUnheaded_blockText {enum : SchemaEnum}
    (writable : enum.IsWritable) :
    ∀ row ∈ enum.blockText.body, IsUnheaded row := by
  rw [blockText, List.map_map]
  simp only [List.forall_mem_append, List.forall_mem_map]
  constructor
  · exact fun value member =>
      EnumValue.isUnheaded_valueLine (writable.values value member)
  · intro name _ header found
    obtain ⟨behind, _, _, same, _⟩ := exists_of_modelName? found
    have first : some '@' = some 'm' := congrArg List.head? same
    contradiction

end SchemaCompose
