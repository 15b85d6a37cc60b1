import SchemaCompose.Composition
import SchemaCompose.Proofs.RoundTrip.Writable

/-!
# What is written of a schema

An empty name is written like a missing one, a connection by value is not written next
to one by variable, and an action on update is written as the relation of its field.
The normal form of a schema holds only what is written, and its generated file is the
same (`Schema.generatedFile_normal`).  Behind that the kinds of fields do not show in
it either (`Schema.generatedFile_resolved`).
-/

namespace SchemaCompose

/-! ## Settings -/

/-- The setting, unless its text is empty. -/
def whenFilled (setting : Option Text) : Option Text :=
  setting.filter (!·.isEmpty)

variable {setting : Option Text}

theorem mem_whenFilled {text : Text} :
    text ∈ whenFilled setting ↔ text ∈ setting ∧ text ≠ [] := by
  simp [whenFilled, Option.filter_eq_some_iff]

theorem whenSet_whenFilled (setting : Option Text) (write : Text → Text) :
    whenSet (whenFilled setting) write = whenSet setting write := by
  rcases setting with _ | _ | ⟨c, text⟩
  · rfl
  · rfl
  · rfl

theorem isSet_whenFilled (setting : Option Text) :
    Text.isSet (whenFilled setting) = Text.isSet setting := by
  rcases setting with _ | _ | ⟨c, text⟩
  · rfl
  · rfl
  · rfl

/-! ## Fields -/

/-- The relation without empty names. -/
def Relation.normal (relation : Relation) : Relation :=
  { relation with
    name := whenFilled relation.name, onDelete := whenFilled relation.onDelete }

theorem Relation.arguments_normal (relation : Relation) :
    relation.normal.arguments = relation.arguments := by
  simp only [arguments, normal, whenSet_whenFilled]

namespace Field

/-- The relation that is written: an action on update of an object makes one. -/
def writtenRelation (field : Field) : Option Relation :=
  match field.relation with
  | some relation => some relation.normal
  | none =>
    if field.kind = .object ∧ Text.isSet field.extras.onUpdate then some {} else none

/-- The field with only what is written of it. -/
def normal (field : Field) : Field :=
  { field with
    relation := field.writtenRelation
    extras :=
      { field.extras with
        columnName := whenFilled field.extras.columnName
        nativeType := whenFilled field.extras.nativeType
        onUpdate :=
          if field.writtenRelation.isSome then whenFilled field.extras.onUpdate
          else none } }

theorem relationText_normal (field : Field) :
    field.normal.relationText = field.relationText := by
  obtain ⟨name, type, kind, isList, isRequired, isId, isUnique, isUpdatedAt, default,
    relation, documentation, column, native, update, shareable, inaccessible,
    external, requires⟩ := field
  cases relation with
  | some relation =>
      simp [relationText, normal, writtenRelation, whenSet_whenFilled,
        Relation.arguments_normal]
  | none =>
      by_cases object : kind = .object
      · rw [object]
        rcases update with _ | _ | ⟨c, action⟩
        · rfl
        · rfl
        · rfl
      · simp [relationText, normal, writtenRelation, object]

/-- The line of a field is the line of its normal form. -/
theorem render_normal (field : Field) : field.normal.render = field.render := by
  have attributes : field.normal.attributeTexts = field.attributeTexts := by
    rw [attributeTexts, attributeTexts, relationText_normal]
    simp only [normal, whenSet_whenFilled]
  rw [render, render, attributes]
  rfl

end Field

/-! ## Models and enums -/

/-- The key without an empty name. -/
def CompoundKey.normal (key : CompoundKey) : CompoundKey :=
  { key with name := whenFilled key.name }

theorem CompoundKey.render_normal (key : CompoundKey) (label : Text) :
    key.normal.render label = key.render label := by
  simp only [render, normal, whenSet_whenFilled]

/-- The model with only what is written of it. -/
def Model.normal (model : Model) : Model :=
  { model with
    fields := model.fields.map Field.normal
    tableName := whenFilled model.tableName
    primaryKey := model.primaryKey.map CompoundKey.normal
    uniqueIndexes := model.uniqueIndexes.map CompoundKey.normal }

theorem Model.attributeLines_normal (model : Model) :
    model.normal.attributeLines = model.attributeLines := by
  have keys : ∀ label, CompoundKey.render label ∘ CompoundKey.normal =
      CompoundKey.render label := by
    intro label
    funext key
    exact key.render_normal label
  have key : model.normal.primaryKey.toList.map (CompoundKey.render "@@id") =
      model.primaryKey.toList.map (CompoundKey.render "@@id") := by
    rw [← Option.toList_map, ← Option.toList_map, normal, Option.map_map, keys]
  have unique : model.normal.uniqueIndexes.map (CompoundKey.render "@@unique") =
      model.uniqueIndexes.map (CompoundKey.render "@@unique") := by
    rw [normal, List.map_map, keys]
  rw [attributeLines, attributeLines, key, unique]
  simp only [normal, whenSet_whenFilled]

/-- The block of a model is the block of its normal form. -/
theorem Model.render_normal (model : Model) : model.normal.render = model.render := by
  have body : model.normal.bodyLines = model.bodyLines := by
    rw [bodyLines, bodyLines, attributeLines_normal]
    congr 1
    rw [normal, List.flatMap_map]
    apply List.flatMap_congr
    intro field _
    rw [Field.render_normal]
    rfl
  rw [render, render, body]
  rfl

/-- The value without an empty stored name. -/
def EnumValue.normal (value : EnumValue) : EnumValue :=
  { value with storedName := whenFilled value.storedName }

/-- The enum with only what is written of it. -/
def SchemaEnum.normal (enum : SchemaEnum) : SchemaEnum :=
  { enum with
    values := enum.values.map EnumValue.normal
    storedName := whenFilled enum.storedName }

/-- The block of an enum is the block of its normal form. -/
theorem SchemaEnum.render_normal (enum : SchemaEnum) :
    enum.normal.render = enum.render := by
  have lines :
      enum.normal.values.map valueLine = enum.values.map valueLine := by
    simp [normal, EnumValue.normal, Function.comp_def, valueLine, whenSet_whenFilled]
  rw [render, render, lines]
  simp only [normal, whenSet_whenFilled]

/-! ## Datasources -/

/-- The connection as it is written: by variable, or else by value. -/
def ConnectionUrl.normal (url : ConnectionUrl) : ConnectionUrl where
  variableName := whenFilled url.variableName
  value := if Text.isSet url.variableName then none else whenFilled url.value

theorem ConnectionUrl.lines_normal (url : ConnectionUrl) :
    url.normal.lines = url.lines := by
  obtain ⟨value, name⟩ := url
  rcases name with _ | _ | ⟨c, name⟩ <;> rcases value with _ | _ | ⟨d, value⟩ <;> rfl

theorem ConnectionUrl.isPopulated_normal (url : ConnectionUrl) :
    url.normal.isPopulated = url.isPopulated := by
  obtain ⟨value, name⟩ := url
  rcases name with _ | _ | ⟨c, name⟩ <;> rcases value with _ | _ | ⟨d, value⟩ <;> rfl

/-- The datasource with only what is written of it. -/
def Datasource.normal (datasource : Datasource) : Datasource :=
  { datasource with url := datasource.url.normal }

/-- The block of a datasource is the block of its normal form. -/
theorem Datasource.render_normal (datasource : Datasource) :
    datasource.normal.render = datasource.render := by
  simp only [render, normal, ConnectionUrl.lines_normal]

/-! ## Schemas -/

namespace Schema

/-- The schema with only what is written of it. -/
def normal (schema : Schema) : Schema :=
  { schema with
    models := schema.models.map Model.normal
    enums := schema.enums.map SchemaEnum.normal
    datasources := schema.datasources.map Datasource.normal }

theorem names_normal (schema : Schema) : schema.normal.names = schema.names := by
  simp [names, normal, Function.comp_def, Model.normal, SchemaEnum.normal]

/-- The generated file of a schema is the generated file of its normal form. -/
theorem generatedFile_normal (schema : Schema) :
    schema.normal.generatedFile = schema.generatedFile := by
  have rendered : schema.normal.render = schema.render := by
    simp [render, normal, renderDatasources, renderGenerators, renderModels,
      renderEnums, Function.comp_def, Model.render_normal, SchemaEnum.render_normal,
      Datasource.render_normal]
  rw [generatedFile, generatedFile, rendered]

end Schema

/-! ## Kinds -/

/-- The field as it is read where the given names are declared. -/
def Field.resolved (names : DeclaredNames) (field : Field) : Field :=
  { field with kind := (names.kindOf? field.type).getD field.kind }

/-- The kind of a field shows only in an action on update without a relation. -/
theorem Field.render_resolved
    {field : Field} (names : DeclaredNames)
    (onUpdate : field.extras.onUpdate.isSome → field.relation.isSome) :
    (field.resolved names).render = field.render := by
  have relation : (field.resolved names).relationText = field.relationText := by
    cases related : field.relation with
    | some relation => simp [relationText, resolved, related]
    | none =>
        have unset : field.extras.onUpdate = none := by simpa [related] using onUpdate
        simp [relationText, resolved, related, unset, whenSet]
  have attributes : (field.resolved names).attributeTexts = field.attributeTexts := by
    rw [attributeTexts, attributeTexts, relation]
    rfl
  rw [render, render, attributes]
  rfl

/-- The model as it is read where the given names are declared. -/
def Model.resolved (names : DeclaredNames) (model : Model) : Model :=
  { model with fields := model.fields.map (Field.resolved names) }

theorem Model.render_resolved
    {model : Model} (names : DeclaredNames) (writable : model.IsWritable) :
    (model.resolved names).render = model.render := by
  have body : (model.resolved names).bodyLines = model.bodyLines := by
    rw [bodyLines, bodyLines]
    congr 1
    rw [resolved, List.flatMap_map]
    apply List.flatMap_congr
    intro field member
    rw [Field.render_resolved names (writable.fields field member).onUpdate]
    rfl
  rw [render, render, body]
  rfl

theorem Model.IsWritable.resolved
    {model : Model} (writable : model.IsWritable) (names : DeclaredNames) :
    (model.resolved names).IsWritable := by
  have distinct : (model.resolved names).HasDistinctFields := by
    have same : (model.resolved names).fields.map (·.name) =
        model.fields.map (·.name) := by
      simp [Model.resolved, Field.resolved, Function.comp_def]
    rw [HasDistinctFields, same]
    exact writable.distinct
  refine { writable with fields := ?_, distinct }
  intro field member
  obtain ⟨original, inModel, rfl⟩ := List.mem_map.mp member
  exact { writable.fields original inModel with }

namespace Schema

variable {schema : Schema}

/-- The schema as it is read: every type is looked up among its own names. -/
def resolved (schema : Schema) : Schema :=
  { schema with models := schema.models.map (Model.resolved schema.names) }

theorem names_resolved (schema : Schema) : schema.resolved.names = schema.names := by
  simp [names, resolved, Function.comp_def, Model.resolved]

theorem IsWritable.resolved (writable : schema.IsWritable) :
    schema.resolved.IsWritable := by
  refine { writable with models := ?_ }
  intro model member
  obtain ⟨original, inSchema, rfl⟩ := List.mem_map.mp member
  exact (writable.models original inSchema).resolved _

/-- The generated file of a schema does not depend on the kinds of its fields. -/
theorem generatedFile_resolved (writable : schema.IsWritable) :
    schema.resolved.generatedFile = schema.generatedFile := by
  have models : schema.resolved.models.map Model.render =
      schema.models.map Model.render := by
    rw [resolved, List.map_map]
    apply List.map_congr_left
    exact fun model member =>
      Model.render_resolved schema.names (writable.models model member)
  have rendered : schema.resolved.render = schema.render := by
    rw [render, render, renderModels, renderModels, models]
    rfl
  rw [generatedFile, generatedFile, rendered]

/-- Where every type is known, every field has the kind of its type. -/
theorem isResolved_resolved
    (known : ∀ model ∈ schema.models, ∀ field ∈ model.fields,
      (schema.names.kindOf? field.type).isSome) :
    ∀ model ∈ schema.resolved.models, model.IsResolved schema.resolved.names := by
  intro model member field inModel
  obtain ⟨original, inSchema, rfl⟩ := List.mem_map.mp member
  obtain ⟨bare, inOriginal, rfl⟩ := List.mem_map.mp inModel
  obtain ⟨kind, found⟩ := Option.isSome_iff_exists.mp (known original inSchema bare inOriginal)
  rw [names_resolved]
  show schema.names.kindOf? bare.type =
    some ((schema.names.kindOf? bare.type).getD bare.kind)
  rw [found, Option.getD_some]

end Schema

end SchemaCompose
