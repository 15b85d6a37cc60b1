import SchemaCompose.Proofs.RoundTrip.Composed
import SchemaCompose.Proofs.RoundTrip.Document

/-!
# Composing a composed file again

What is composed from one accepted document is written to a file that is accepted, and
what is composed from that file is written as it was
(`Schema.generatedFile_compose_again`).  This takes a schema whose texts stay in their
place, in which nothing looks like an attribute that is not there, and which is stable:
what the reader drops or decodes (a relation name with a colon, empty lines at the end
of documentation, an empty last member of a list, quotes) does not stand in it.
-/

namespace SchemaCompose

/-! ## Stable schemas -/

/-- The relation is read again as it is. -/
@[mk_iff]
structure Relation.IsStable (relation : Relation) : Prop where
  name : ∀ name ∈ relation.name, ':' ∉ name
  fields : relation.fields.getLast? ≠ some []
  references : relation.references.getLast? ≠ some []
  onDelete : ∀ action ∈ relation.onDelete, Text.unquote action = action

instance : DecidablePred Relation.IsStable := fun relation =>
  decidable_of_iff' _ relation.isStable_iff

/-- The last line of the documentation says something. -/
def IsStableDocumentation (documentation : Option Text) : Prop :=
  (documentationTexts documentation).getLast? ≠ some []

instance : DecidablePred IsStableDocumentation := fun documentation =>
  inferInstanceAs (Decidable ((documentationTexts documentation).getLast? ≠ some []))

/-- The row of the field is read again as it is, with its documentation. -/
@[mk_iff]
structure Field.IsStable (field : Field) : Prop where
  relation : ∀ relation ∈ field.relation, relation.IsStable
  documentation : IsStableDocumentation field.documentation

instance : DecidablePred Field.IsStable := fun field =>
  decidable_of_iff' _ field.isStable_iff

/-- The rows of the model are read again as they are. -/
@[mk_iff]
structure Model.IsStable (model : Model) : Prop where
  fields : ∀ field ∈ model.fields, field.IsStable
  primaryKey : ∀ key ∈ model.primaryKey, key.fields.getLast? ≠ some []
  uniqueIndexes : ∀ key ∈ model.uniqueIndexes, key.fields.getLast? ≠ some []
  documentation : IsStableDocumentation model.documentation

instance : DecidablePred Model.IsStable := fun model =>
  decidable_of_iff' _ model.isStable_iff

/-- No quote in the text is written behind a backslash. -/
def IsDecoded (text : Text) : Prop :=
  Text.unquote.unescapeQuotes text = text

instance : DecidablePred IsDecoded := fun text =>
  inferInstanceAs (Decidable (Text.unquote.unescapeQuotes text = text))

/-- Every row of the schema is read again as it is. -/
@[mk_iff]
structure Schema.IsStable (schema : Schema) : Prop where
  models : ∀ model ∈ schema.models, model.IsStable
  enums : ∀ enum ∈ schema.enums, IsStableDocumentation enum.documentation
  datasources : ∀ datasource ∈ schema.datasources,
    IsDecoded datasource.provider ∧ ∀ value ∈ datasource.url.value, IsDecoded value
  generators : ∀ generator ∈ schema.generators, IsDecoded generator.provider

instance : DecidablePred Schema.IsStable := fun schema =>
  decidable_of_iff' _ schema.isStable_iff

/-! ## Normal forms

The normal form of a schema holds nothing that the schema does not hold, and the kinds
of fields matter neither to what is silent nor to what is stable. -/

theorem Relation.IsSilent.normal
    {relation : Relation} (silent : relation.IsSilent) : relation.normal.IsSilent where
  name := fun name member => silent.name name (mem_whenFilled.mp member).1
  fields := silent.fields
  references := silent.references
  onDelete := fun action member => silent.onDelete action (mem_whenFilled.mp member).1

theorem Relation.IsStable.normal
    {relation : Relation} (stable : relation.IsStable) : relation.normal.IsStable where
  name := fun name member => stable.name name (mem_whenFilled.mp member).1
  fields := stable.fields
  references := stable.references
  onDelete := fun action member => stable.onDelete action (mem_whenFilled.mp member).1

/-- What holds of the normal form of the relation of a field, and of a relation that
says nothing, holds of the relation that is written. -/
theorem Field.forall_mem_writtenRelation
    {field : Field} {Holds : Relation → Prop} (empty : Holds {})
    (own : ∀ relation ∈ field.relation, Holds relation.normal) :
    ∀ relation ∈ field.writtenRelation, Holds relation := by
  intro relation member
  rw [writtenRelation] at member
  split at member
  · rename_i original related
    obtain rfl := Option.some.inj member
    exact own original related
  · split_ifs at member
    · obtain rfl := Option.some.inj member
      exact empty
    · contradiction

theorem Field.IsSilent.normal
    {field : Field} (silent : field.IsSilent) : field.normal.IsSilent where
  type := silent.type
  default := silent.default
  relation := forall_mem_writtenRelation ⟨by simp, by simp, by simp, by simp⟩
    fun relation member => (silent.relation relation member).normal
  columnName := fun name member => silent.columnName name (mem_whenFilled.mp member).1
  nativeType := fun type member => silent.nativeType type (mem_whenFilled.mp member).1

theorem Field.IsStable.normal
    {field : Field} (stable : field.IsStable) : field.normal.IsStable where
  relation := forall_mem_writtenRelation ⟨by simp, by simp, by simp, by simp⟩
    fun relation member => (stable.relation relation member).normal
  documentation := stable.documentation

theorem CompoundKey.IsSilent.normal
    {key : CompoundKey} (silent : key.IsSilent) : key.normal.IsSilent where
  fields := silent.fields
  name := fun name member => silent.name name (mem_whenFilled.mp member).1

namespace Model

variable {model : Model}

theorem IsSilent.normal (silent : model.IsSilent) : model.normal.IsSilent := by
  refine ⟨?_, fun name member => silent.tableName name (mem_whenFilled.mp member).1,
    ?_, ?_⟩
  · exact List.forall_mem_map.mpr fun field member => (silent.fields field member).normal
  · intro key member
    obtain ⟨original, own, rfl⟩ := Option.map_eq_some_iff.mp member
    exact (silent.primaryKey original own).normal
  · exact List.forall_mem_map.mpr fun key member =>
      (silent.uniqueIndexes key member).normal

theorem IsSilent.resolved (silent : model.IsSilent) (names : DeclaredNames) :
    (model.resolved names).IsSilent :=
  { silent with
    fields := List.forall_mem_map.mpr fun field member =>
      { silent.fields field member with } }

theorem IsStable.normal (stable : model.IsStable) : model.normal.IsStable := by
  refine ⟨?_, ?_, ?_, stable.documentation⟩
  · exact List.forall_mem_map.mpr fun field member => (stable.fields field member).normal
  · intro key member
    obtain ⟨original, own, rfl⟩ := Option.map_eq_some_iff.mp member
    exact stable.primaryKey original own
  · exact List.forall_mem_map.mpr stable.uniqueIndexes

theorem IsStable.resolved (stable : model.IsStable) (names : DeclaredNames) :
    (model.resolved names).IsStable :=
  { stable with
    fields := List.forall_mem_map.mpr fun field member =>
      { stable.fields field member with } }

end Model

namespace Schema

variable {schema : Schema}

theorem IsStable.normal (stable : schema.IsStable) : schema.normal.IsStable := by
  refine ⟨?_, ?_, ?_, stable.generators⟩
  · exact List.forall_mem_map.mpr fun model member => (stable.models model member).normal
  · exact List.forall_mem_map.mpr stable.enums
  · refine List.forall_mem_map.mpr fun datasource member => ?_
    obtain ⟨provider, value⟩ := stable.datasources datasource member
    refine ⟨provider, fun text own => ?_⟩
    simp only [Datasource.normal, ConnectionUrl.normal] at own
    split_ifs at own
    · contradiction
    · exact value text (mem_whenFilled.mp own).1

theorem IsStable.resolved (stable : schema.IsStable) : schema.resolved.IsStable :=
  { stable with
    models := List.forall_mem_map.mpr fun model member =>
      (stable.models model member).resolved schema.names }

end Schema

/-! ## What is written again -/

/-- A setting that every reading gives back is read as it is. -/
theorem map_eq_self_of_mem
    {setting : Option Text} {read : Text → Text}
    (same : ∀ text ∈ setting, read text = text) : setting.map read = setting := by
  cases setting with
  | none => rfl
  | some text => exact congrArg some (same text rfl)

/-- Documentation that ends in a line is written again as it is. -/
theorem documentationLines_reread
    {documentation : Option Text} (stable : IsStableDocumentation documentation) :
    documentationLines (rereadDocumentation documentation) =
      documentationLines documentation := by
  have single : ∀ text ∈ documentationTexts documentation, Text.IsLine text := by
    cases documentation with
    | none => simp [documentationTexts]
    | some text => exact Text.isLine_of_mem_lines
  have rows : Text.lines (Text.unlines (documentationTexts documentation)) =
      documentationTexts documentation := by
    apply Text.lines_unlines single
    rintro last found rfl
    exact stable found
  have texts : documentationTexts (rereadDocumentation documentation) =
      documentationTexts documentation := by
    rw [rereadDocumentation, joinDocumentation]
    split
    · rename_i empty
      rw [← rows, empty]
      rfl
    · exact rows
  rw [documentationLines_eq, documentationLines_eq, texts]

namespace Relation

variable {relation : Relation}

theorem reread_eq_self (stable : relation.IsStable) : relation.reread = relation := by
  have name : relation.name.filter (!·.contains ':') = relation.name := by
    cases named : relation.name with
    | none => rfl
    | some name => simp [Option.filter_some, stable.name name named]
  rw [reread, name, Arguments.withoutEmptyLast_of_filled stable.fields,
    Arguments.withoutEmptyLast_of_filled stable.references,
    map_eq_self_of_mem stable.onDelete]

end Relation

namespace Field

variable {field : Field}

theorem render_reread (stable : field.IsStable) : field.reread.render = field.render := by
  have relation : field.relation.map Relation.reread = field.relation := by
    cases related : field.relation with
    | none => rfl
    | some relation =>
        exact congrArg some (Relation.reread_eq_self (stable.relation relation related))
  have attributes : field.reread.attributeTexts = field.attributeTexts := by
    rw [attributeTexts, attributeTexts, relationText, relationText]
    simp only [reread, relation]
  rw [render, render, attributes]
  rfl

end Field

theorem CompoundKey.reread_eq_self
    {key : CompoundKey} (stable : key.fields.getLast? ≠ some []) : key.reread = key := by
  rw [reread, Arguments.withoutEmptyLast_of_filled stable]

namespace Model

variable {model : Model}

theorem render_reread (stable : model.IsStable) : model.reread.render = model.render := by
  have primaryKey : model.primaryKey.map CompoundKey.reread = model.primaryKey := by
    cases keyed : model.primaryKey with
    | none => rfl
    | some key =>
        exact congrArg some (CompoundKey.reread_eq_self (stable.primaryKey key keyed))
  have uniqueIndexes : model.uniqueIndexes.map CompoundKey.reread =
      model.uniqueIndexes :=
    map_eq_self_iff.mpr fun key member =>
      CompoundKey.reread_eq_self (stable.uniqueIndexes key member)
  have attributes : model.reread.attributeLines = model.attributeLines := by
    rw [attributeLines, attributeLines]
    simp only [reread, primaryKey, uniqueIndexes]
  have fields : (model.reread.fields.flatMap fun field =>
        documentationLines field.documentation ++ [field.render]) =
      model.fields.flatMap fun field =>
        documentationLines field.documentation ++ [field.render] := by
    rw [reread, List.flatMap_map]
    apply List.flatMap_congr
    intro field member
    have own := stable.fields field member
    rw [Field.render_reread own]
    exact congrArg (· ++ [field.render]) (documentationLines_reread own.documentation)
  have body : model.reread.bodyLines = model.bodyLines := by
    rw [bodyLines, bodyLines, attributes, fields]
  rw [render, render, renderBlock, renderBlock, body]
  exact congrArg (fun rows => Text.unlines (rows ++ _ ++ _ ++ _))
    (documentationLines_reread stable.documentation)

end Model

theorem SchemaEnum.render_reread
    {enum : SchemaEnum} (stable : IsStableDocumentation enum.documentation) :
    enum.reread.render = enum.render := by
  rw [render, render, renderBlock, renderBlock]
  exact congrArg (fun rows => Text.unlines (rows ++ _ ++ _ ++ _))
    (documentationLines_reread stable)

theorem Datasource.reread_eq_self
    {datasource : Datasource} (provider : IsDecoded datasource.provider)
    (value : ∀ value ∈ datasource.url.value, IsDecoded value) :
    datasource.reread = datasource := by
  rw [reread, ConnectionUrl.reread, map_eq_self_of_mem value, provider]

theorem Generator.reread_eq_self
    {generator : Generator} (provider : IsDecoded generator.provider) :
    generator.reread = generator := by
  rw [reread, provider]

namespace Schema

variable {schema : Schema}

theorem datasources_reread (stable : schema.IsStable) :
    schema.reread.datasources = schema.datasources :=
  map_eq_self_iff.mpr fun datasource member =>
    have decoded := stable.datasources datasource member
    Datasource.reread_eq_self decoded.1 decoded.2

/-- What is read from the generated file of a stable schema is written as it was. -/
theorem generatedFile_reread (stable : schema.IsStable) :
    schema.reread.generatedFile = schema.generatedFile := by
  have models : schema.reread.models.map Model.render =
      schema.models.map Model.render := by
    rw [reread, List.map_map]
    apply List.map_congr_left
    exact fun model member => Model.render_reread (stable.models model member)
  have enums : schema.reread.enums.map SchemaEnum.render =
      schema.enums.map SchemaEnum.render := by
    rw [reread, List.map_map]
    apply List.map_congr_left
    exact fun enum member => SchemaEnum.render_reread (stable.enums enum member)
  have generators : schema.reread.generators = schema.generators :=
    map_eq_self_iff.mpr fun generator member =>
      Generator.reread_eq_self (stable.generators generator member)
  have rendered : schema.reread.render = schema.render := by
    rw [render, render, datasources_reread stable, generators, renderModels, renderModels, models,
      renderEnums, renderEnums, enums]
  rw [generatedFile, generatedFile, rendered]

/-! ## Composing again -/

/-- No name is taken twice in what is composed from one accepted document. -/
theorem nodup_names_compose_singleton
    {text : Text} (accepted : ofDocument text = .ok schema) :
    ((compose [schema]).names.models ++ (compose [schema]).names.enums).Nodup := by
  have distinct : (schema.names.models ++ schema.names.enums).Nodup := by
    obtain ⟨parsed, read, rfl⟩ := Reading.map_eq_ok.mp accepted
    simpa [names, Model.inject, Function.comp_def] using nodup_of_parse read
  rw [names_models_compose, names_enums_compose, List.flatMap_singleton,
    List.flatMap_singleton, Row.eraseDups_of_nodup distinct.of_append_left]
  exact distinct

/-- A well-formed schema without names that are taken twice is its own composition
when it is read again. -/
theorem compose_reread
    (wellFormed : schema.WellFormed) (stable : schema.normal.resolved.IsStable) :
    compose [schema.normal.resolved.reread] = schema.normal.resolved.reread := by
  apply compose_singleton
  · have same : schema.normal.resolved.reread.models.map (·.name) =
        schema.models.map (·.name) := by
      simp [reread, resolved, normal, Function.comp_def, Model.reread, Model.resolved,
        Model.normal]
    rw [same]
    exact wellFormed.distinct
  · rw [datasources_reread stable]
    show schema.datasources.map Datasource.normal = [] ∨
      ∃ datasource ∈ schema.datasources.map Datasource.normal, _
    rcases wellFormed.connected with none | ⟨datasource, member, populated⟩
    · exact Or.inl (List.map_eq_nil_iff.mpr none)
    · refine Or.inr ⟨datasource.normal, List.mem_map_of_mem member, ?_⟩
      rw [Datasource.normal, ConnectionUrl.isPopulated_normal]
      exact populated

/-- What is composed from an accepted document, written, is accepted, and what is
composed from the file is written as it was. -/
theorem generatedFile_compose_again
    (text : Text) (schema : Schema) (accepted : ofDocument text = .ok schema)
    (confined : (compose [schema]).IsConfined)
    (silent : ∀ model ∈ (compose [schema]).models, model.IsSilent)
    (stable : (compose [schema]).IsStable) :
    ∃ again, ofDocument (compose [schema]).generatedFile = .ok again ∧
      (compose [again]).generatedFile = (compose [schema]).generatedFile := by
  have row : [text].mapM ofDocument = .ok [schema] := by simp [accepted]
  have wellFormed := wellFormed_compose [text] [schema] row
  have writable := isWritable_normal (isRead_compose row) wellFormed confined
  -- What is written is the normal form, and it is read with the kinds of its types.
  let written := (compose [schema]).normal.resolved
  have same : written.generatedFile = (compose [schema]).generatedFile := by
    rw [generatedFile_resolved writable, generatedFile_normal]
  have distinct : (written.names.models ++ written.names.enums).Nodup := by
    rw [names_resolved, names_normal]
    exact nodup_names_compose_singleton accepted
  have silentWritten : ∀ model ∈ written.models, model.IsSilent := by
    intro model member
    obtain ⟨normal, inNormal, rfl⟩ := List.mem_map.mp member
    obtain ⟨original, inSchema, rfl⟩ := List.mem_map.mp inNormal
    exact (silent original inSchema).normal.resolved _
  have stableWritten : written.IsStable := stable.normal.resolved
  have read := ofDocument_generatedFile writable.resolved distinct silentWritten
    (isResolved_resolved wellFormed.isSome_kindOf?_normal)
  refine ⟨written.reread, same ▸ read, ?_⟩
  calc (compose [written.reread]).generatedFile
      = written.reread.generatedFile := by
        rw [compose_reread wellFormed stableWritten]
    _ = written.generatedFile := generatedFile_reread stableWritten
    _ = (compose [schema]).generatedFile := same

/-- A document with a relation, a key, an index, documentation and a connection. -/
theorem generatedFile_compose_again_post :
    let text : Text :=
      "datasource db \x7b\n  provider = \"sqlite\"\n  url = env(\"DB\")\n\x7d\n" ++
        "/// Posts.\nmodel Post \x7b\n  id Int @id @default(autoincrement())\n" ++
        "  author User @relation(fields: [authorId], references: [id])\n" ++
        "  authorId Int @map(\"author_id\") //@shareable\n" ++
        "  @@index([authorId])\n  @@map(name: \"posts\")\n\x7d\n" ++
        "model User \x7b\n  id Int @db.Integer @id\n  posts Post[]\n\x7d\n"
    let schema : Schema :=
      { models := [
          { name := "Post", documentation := "Posts.", tableName := "posts"
            extraIndexes := ["@@index([authorId])"]
            fields := [
              { name := "id", type := "Int", isId := true
                default := "autoincrement()" },
              { name := "author", type := "User", kind := .object
                relation := some { fields := ["authorId"], references := ["id"] } },
              { name := "authorId", type := "Int"
                extras := { columnName := "author_id", shareable := true } }] },
          { name := "User", fields := [
              { name := "id", type := "Int", isId := true
                extras := { nativeType := "Integer" } },
              { name := "posts", type := "Post", kind := .object, isList := true
                isRequired := false }] }]
        datasources := [
          { name := "db", provider := "sqlite", url := { variableName := "DB" } }] }
    ofDocument text = .ok schema ∧
      ∃ again, ofDocument (compose [schema]).generatedFile = .ok again ∧
        (compose [again]).generatedFile = (compose [schema]).generatedFile := by
  intro text schema
  have accepted : ofDocument text = .ok schema := by decide +kernel
  refine ⟨accepted, generatedFile_compose_again text schema accepted ?_ ?_ ?_⟩
  · decide +kernel
  · decide +kernel
  · decide +kernel

end Schema

end SchemaCompose
