import SchemaCompose.Proofs.Mining.Extras
import SchemaCompose.Proofs.RoundTrip.Blocks

/-!
# Printable schemas are read again as they were

A printable schema is writable, nothing in its models looks like an attribute that
they do not have, and of what is read again only the relation names that hold a colon
are missing (`Schema.IsPrintable.reread_eq`).
-/

namespace SchemaCompose

open Mining

/-! ## Texts -/

theorem IsTypeText.isWritable {type : Text} (isType : IsTypeText type) :
    IsWritableType type :=
  isType.imp_right fun ⟨written, literal, _⟩ =>
    ⟨written, literal.quotable.isContained.isDelimited, literal.single⟩

theorem IsNativeType.isWritable {type : Text} (isNativeType : IsNativeType type) :
    IsWritableNativeType type where
  named := isNativeType.named
  written := isNativeType.written
  arguments := fun inner member =>
    ⟨(isNativeType.arguments inner member).1, (isNativeType.arguments inner member).2.2⟩

theorem IsNativeType.isInert {type : Text} (isNativeType : IsNativeType type) :
    IsInert type := by
  have word : IsLead rowMarks (type.takeWhile Text.isWord) :=
    isLead_of_isWord fun c member => List.mem_takeWhile_imp member
  rcases isNativeType.isWritable.cases with ⟨_, whole⟩ | ⟨inner, arguments, whole⟩
  · have lacks := word.lacks
    rwa [whole] at lacks
  · rw [whole]
    exact isInert_call word
      (isInert_of_isQuiet (isNativeType.arguments inner arguments).2.1)

theorem IsLiteral.isWritable {text : Text} (literal : IsLiteral text) :
    IsQuoted text ∧ text ≠ [] :=
  ⟨literal.isQuoted, literal.filled⟩

theorem Quotable.isSettingText
    {text : Text} (quotable : Quotable text) (single : Text.IsLine text) :
    IsSettingText text :=
  ⟨(balanced_inQuotes quotable.isContained.isDelimited).silent, single⟩

/-- Documentation that is the text of its lines is read again. -/
theorem rereadDocumentation_eq
    {documentation : Option Text}
    (printable : ∀ text ∈ documentation, IsDocumentation text) :
    rereadDocumentation documentation = documentation := by
  cases documentation with
  | none => rfl
  | some text =>
      have isDocumentation := printable text rfl
      obtain ⟨c, rest, filled⟩ := List.exists_cons_of_ne_nil isDocumentation.filled
      rw [rereadDocumentation, documentationTexts, joinDocumentation,
        isDocumentation.closed, filled]

theorem Arguments.IsItem.unquote_eq {text : Text} (item : IsItem text) :
    Text.unquote text = text := by
  have trimmed : Text.trim text = text := item.trimmed
  have plain : (Text.trim text).head? ≠ some '"' := by
    rw [trimmed]
    intro quote
    exact item.not_mem (by decide) (List.mem_of_mem_head? quote)
  rw [Arguments.unquote_of_head plain, trimmed]

theorem withoutEmptyLast_of_isItem
    {items : List Text} (each : ∀ item ∈ items, Arguments.IsItem item) :
    Arguments.withoutEmptyLast items = items :=
  Arguments.withoutEmptyLast_of_filled fun last =>
    (each [] (List.mem_of_getLast? last)).filled rfl

/-! ## Relations and keys -/

namespace Relation.IsPrintable

variable {relation : Relation} (printable : relation.IsPrintable)

include printable

theorem isWritable : relation.IsWritable where
  name := fun name member => (printable.name name member).1.isWritable
  fields := fun item member => (printable.fields item member).isMember
  references := fun item member => (printable.references item member).isMember
  onDelete := fun action member =>
    have item := printable.onDelete action member
    ⟨item.isMember.toIsValue, item.filled⟩

theorem isSilent : relation.IsSilent where
  name := fun name member => isInert_of_isQuiet (printable.name name member).2
  fields := fun item member => isInert_of_isItem (printable.fields item member)
  references := fun item member => isInert_of_isItem (printable.references item member)
  onDelete := fun action member => isInert_of_isItem (printable.onDelete action member)

theorem reread_eq : relation.reread = relation.readBack := by
  have onDelete : relation.onDelete.map Text.unquote = relation.onDelete := by
    cases acts : relation.onDelete with
    | none => rfl
    | some action => rw [Option.map_some, (printable.onDelete action acts).unquote_eq]
  rw [reread, withoutEmptyLast_of_isItem printable.fields,
    withoutEmptyLast_of_isItem printable.references, onDelete]
  rfl

end Relation.IsPrintable

namespace CompoundKey.IsPrintable

variable {key : CompoundKey} (printable : key.IsPrintable)

include printable

theorem isWritable : key.IsWritable where
  fields := fun item member => (printable.fields item member).isMember
  name := fun name member => (printable.name name member).1.isWritable

theorem isSilent : key.IsSilent where
  fields := fun item member => isInert_of_isItem (printable.fields item member)
  name := fun name member => isInert_of_isQuiet (printable.name name member).2

theorem reread_eq : key.reread = key := by
  rw [reread, withoutEmptyLast_of_isItem printable.fields]

end CompoundKey.IsPrintable

/-! ## Fields -/

namespace Field.IsPrintable

variable {names : DeclaredNames} {field : Field} (printable : field.IsPrintable names)

include printable

theorem isWritable : field.IsWritable where
  name := printable.name
  type := printable.type.isWritable
  list := printable.list
  default := fun value member =>
    ⟨(printable.default value member).1, (printable.default value member).2.1⟩
  relation := fun relation member => (printable.relation relation member).isWritable
  documentation := fun text member => (printable.documentation text member).trimmed
  extras :=
    { columnName := fun name member =>
        have literal := (printable.extras.columnName name member).1
        ⟨literal.quotable.isContained.isDelimited, literal.single, literal.filled⟩
      nativeType := fun type member =>
        (printable.extras.nativeType type member).isWritable
      onUpdate := printable.extras.onUpdate }
  onUpdate := printable.onUpdate

theorem isSilent : field.IsSilent where
  type := isInert_typeText printable.type
  default := fun value member => isInert_of_isQuiet (printable.default value member).2.2
  relation := fun relation member => (printable.relation relation member).isSilent
  columnName := fun name member => isInert_of_isQuiet (printable.extras.columnName name member).2
  nativeType := fun type member => (printable.extras.nativeType type member).isInert

theorem reread_eq : field.reread = field.readBack := by
  have relation :
      field.relation.map Relation.reread = field.relation.map Relation.readBack := by
    cases relates : field.relation with
    | none => rfl
    | some relation =>
        rw [Option.map_some, Option.map_some, (printable.relation relation relates).reread_eq]
  rw [reread, rereadDocumentation_eq printable.documentation, relation]
  rfl

end Field.IsPrintable

/-! ## Models and enums -/

theorem IsIndex.isIndexRow {index : Text} (isIndex : IsIndex index) :
    IsIndexRow index := by
  have written : (indexAttribute index).IsWritten :=
    ⟨show Attribute.IsName "@@index" by decide, fun inner member =>
      (isIndex.arguments inner member).balanced⟩
  have code : Text.code index = index := by
    rw [← isIndex.written, Attribute.code_write written]
  refine ⟨isIndex.written, ?_, ?_, ?_⟩
  · rw [← isIndex.written]
    exact Attribute.isLine_write written fun inner member =>
      (isIndex.arguments inner member).single
  · rw [code, isIndex.written]
  · rw [code]
    exact written.2

namespace Model.IsPrintable

variable {names : DeclaredNames} {model : Model} (printable : model.IsPrintable names)

include printable

theorem isWritable : model.IsWritable where
  name := printable.name
  fields := fun field member => (printable.fields field member).isWritable
  distinct := printable.distinct
  tableName := fun name member => (printable.tableName name member).1.isWritable
  primaryKey := fun key member => (printable.primaryKey key member).isWritable
  uniqueIndexes := fun key member => (printable.uniqueIndexes key member).isWritable
  extraIndexes := fun index member => (printable.extraIndexes index member).isIndexRow
  documentation := fun text member => (printable.documentation text member).trimmed

theorem isSilent : model.IsSilent where
  fields := fun field member => (printable.fields field member).isSilent
  tableName := fun name member => isInert_of_isQuiet (printable.tableName name member).2
  primaryKey := fun key member => (printable.primaryKey key member).isSilent
  uniqueIndexes := fun key member => (printable.uniqueIndexes key member).isSilent

theorem reread_eq : model.reread = model.readBack := by
  have fields : model.fields.map Field.reread = model.fields.map Field.readBack :=
    List.map_congr_left fun field member => (printable.fields field member).reread_eq
  have key : model.primaryKey.map CompoundKey.reread = model.primaryKey := by
    cases identified : model.primaryKey with
    | none => rfl
    | some key => rw [Option.map_some, (printable.primaryKey key identified).reread_eq]
  have keys : model.uniqueIndexes.map CompoundKey.reread = model.uniqueIndexes := by
    rw [map_eq_self_iff]
    exact fun key member => (printable.uniqueIndexes key member).reread_eq
  have unique :
      model.uniqueIndexes.map (fun key : CompoundKey => key.reread.fields) =
        model.uniqueFields := by
    rw [printable.unique]
    apply List.map_congr_left
    intro key member
    rw [(printable.uniqueIndexes key member).reread_eq]
  rw [reread, fields, key, keys, unique, rereadDocumentation_eq printable.documentation]
  rfl

end Model.IsPrintable

namespace SchemaEnum.IsPrintable

variable {enum : SchemaEnum} (printable : enum.IsPrintable)

include printable

theorem isWritable : enum.IsWritable where
  name := printable.name
  values := fun value member =>
    have readable := printable.values value member
    ⟨readable.name, fun name stored => (readable.storedName name stored).isWritable⟩
  storedName := fun name member => (printable.storedName name member).isWritable
  documentation := fun text member => (printable.documentation text member).trimmed

theorem reread_eq : enum.reread = enum := by
  rw [reread, rereadDocumentation_eq printable.documentation]

end SchemaEnum.IsPrintable

/-! ## Datasources and generators -/

namespace Datasource.IsPrintable

variable {datasource : Datasource} (printable : datasource.IsPrintable)

include printable

theorem isWritable : datasource.IsWritable where
  name := printable.name
  provider := printable.provider.1.isSettingText printable.provider.2
  url :=
    { value := fun value member =>
        have literal := printable.url.value value member
        ⟨literal.quotable.isSettingText literal.single, literal.filled⟩
      variableName := fun name member =>
        have literal := printable.url.variableName name member
        ⟨literal.quotable.isContained.plain, literal.single, literal.filled⟩
      single := printable.url.single }
  properties := printable.properties

theorem reread_eq : datasource.reread = datasource := by
  have value :
      datasource.url.value.map Text.unquote.unescapeQuotes = datasource.url.value := by
    cases given : datasource.url.value with
    | none => rfl
    | some value =>
        have literal := printable.url.value value given
        rw [Option.map_some,
          Arguments.unescapeQuotes_of_plain literal.quotable.isContained.plain]
  rw [reread, ConnectionUrl.reread, value,
    Arguments.unescapeQuotes_of_plain printable.provider.1.isContained.plain]

end Datasource.IsPrintable

namespace Generator.IsPrintable

variable {generator : Generator} (printable : generator.IsPrintable)

include printable

theorem isWritable : generator.IsWritable where
  name := printable.name
  provider := printable.provider.1.isSettingText printable.provider.2
  properties := printable.properties

theorem reread_eq : generator.reread = generator := by
  rw [reread, Arguments.unescapeQuotes_of_plain printable.provider.1.isContained.plain]

end Generator.IsPrintable

/-! ## Schemas -/

namespace Schema.IsPrintable

variable {schema : Schema} (printable : schema.IsPrintable)

include printable

theorem isWritable : schema.IsWritable where
  models := fun model member => (printable.models model member).isWritable
  enums := fun enum member => (printable.enums enum member).isWritable
  datasources := fun datasource member =>
    (printable.datasources datasource member).isWritable
  generators := fun generator member =>
    (printable.generators generator member).isWritable

/-- What is read again of a printable schema is the schema without the relation names
that hold a colon. -/
theorem reread_eq : schema.reread = schema.readBack := by
  have models : schema.models.map Model.reread = schema.models.map Model.readBack :=
    List.map_congr_left fun model member => (printable.models model member).reread_eq
  have enums : schema.enums.map SchemaEnum.reread = schema.enums := by
    rw [map_eq_self_iff]
    exact fun enum member => (printable.enums enum member).reread_eq
  have datasources :
      schema.datasources.map Datasource.reread = schema.datasources := by
    rw [map_eq_self_iff]
    exact fun datasource member => (printable.datasources datasource member).reread_eq
  have generators : schema.generators.map Generator.reread = schema.generators := by
    rw [map_eq_self_iff]
    exact fun generator member => (printable.generators generator member).reread_eq
  rw [reread, models, enums, datasources, generators]
  rfl

end Schema.IsPrintable

end SchemaCompose
