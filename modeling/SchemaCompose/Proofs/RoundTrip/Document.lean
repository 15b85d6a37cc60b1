import SchemaCompose.Proofs.Merge.Staging
import SchemaCompose.Proofs.RoundTrip.Files
import SchemaCompose.Proofs.RoundTrip.MinedModels
import SchemaCompose.Proofs.RoundTrip.Reread

/-!
# Generated files are read back

Reading a generated file gives the declarations of its schema, mining it gives what
belongs to their fields and models, and composing the one schema that results changes
nothing more.
-/

namespace SchemaCompose

namespace Schema

variable {schema : Schema}

/-! ## Recovering the rest -/

/-- What is found under the name of a model is what its own block gives. -/
theorem find?_ofText
    (writable : schema.IsWritable) (distinct : (schema.models.map (·.name)).Nodup)
    {model : Model}
    (member : model ∈ schema.models) :
    (Mining.ofText schema.generatedFile).find? model.name =
      some (Mining.ofLines model.blockText.minedRows) := by
  obtain ⟨before, after, split⟩ := List.append_of_mem member
  have readable := writable.models model member
  have blocks : schema.blockTexts =
      (schema.datasources.map Datasource.blockText ++
        schema.generators.map Generator.blockText ++
        before.map Model.blockText) ++ model.blockText ::
          (after.map Model.blockText ++ schema.enums.map SchemaEnum.blockText) := by
    rw [blockTexts, declarations, split]
    simp [Declaration.blockText, Function.comp_def]
  have own :=
    BlockText.headerName?_of_model (Model.isReadable_blockText readable) rfl
  have others :
      ∀ rows ∈ (after.map Model.blockText ++
        schema.enums.map SchemaEnum.blockText).map BlockText.minedRows,
      Mining.headerName? rows ≠ some model.name := by
    rw [List.map_append, List.forall_mem_append]
    simp only [List.forall_mem_map]
    constructor
    · intro other later found
      have header := BlockText.headerName?_of_model
        (Model.isReadable_blockText
          (writable.models other (by simp [split, later]))) rfl
      have same : other.name = model.name :=
        Option.some.inj (header.symm.trans found)
      rw [split, List.map_append, List.map_cons] at distinct
      have apart := (List.nodup_cons.mp distinct.of_append_right).1
      exact apart (same ▸ List.mem_map_of_mem later)
    · intro enum inEnums
      have readableEnum := writable.enums enum inEnums
      exact BlockText.headerName?_of_other
        (SchemaEnum.isReadable_blockText readableEnum)
        (show BlockKind.enum ≠ .model by decide)
          (SchemaEnum.isUnheaded_blockText readableEnum)
        readable.name
  rw [generatedFile_eq writable,
    BlockText.ofText_fileRows (isReadable_of_mem_blockTexts writable), blocks,
    ← List.foldl_map, List.map_append, List.map_cons]
  exact Mining.find?_foldl_record own others []

/-- Reading and mining a generated file give what is read again, as long as no name
is taken twice and nothing looks like an attribute that is not there. -/
theorem ofDocument_generatedFile
    (writable : schema.IsWritable)
    (distinct : (schema.names.models ++ schema.names.enums).Nodup)
    (silent : ∀ model ∈ schema.models, model.IsSilent)
    (resolved : ∀ model ∈ schema.models, model.IsResolved schema.names) :
    ofDocument schema.generatedFile = .ok schema.reread := by
  have models : (schema.models.map Model.parsed).map
      (Model.inject (Mining.ofText schema.generatedFile)) =
        schema.models.map Model.reread := by
    rw [List.map_map]
    apply List.map_congr_left
    intro model member
    exact Model.inject_parsed (writable.models model member) (silent model member)
      (find?_ofText writable distinct.of_append_left member)
  rw [ofDocument, parse_generatedFile writable resolved distinct, Except.map]
  simp only [Schema.parsed, models]
  rfl

/-! ## Composing one schema -/

theorem mergeAll_of_nodup {models : List Model}
    (distinct : (models.map (·.name)).Nodup) :
    Model.mergeAll models = models := by
  induction models using List.reverseRecOn with
  | nil => rfl
  | append_singleton before last ih =>
      rw [List.map_append, List.nodup_append] at distinct
      have new : last.name ∉ before.map (·.name) := by
        intro member
        exact distinct.2.2 last.name member last.name (by simp) rfl
      rw [Model.mergeAll_append_singleton, ih distinct.1, Model.takeIn_of_new new]

theorem lastAccepted_singleton
    {α : Type} {accept : List α → Bool} {candidate : List α}
    (accepted : candidate = [] ∨ accept candidate = true) :
    lastAccepted accept [candidate] = candidate := by
  rw [← List.nil_append [candidate], lastAccepted_append_singleton]
  rcases accepted with rfl | accepted
  · rfl
  · rw [accepted, Bool.and_true]
    cases candidate with
    | nil => rfl
    | cons item others => rfl

/-- Composing a single schema changes nothing. -/
theorem compose_singleton
    (distinct : (schema.models.map (·.name)).Nodup)
    (connected : schema.datasources = [] ∨
      ∃ datasource ∈ schema.datasources, datasource.url.isPopulated = true) :
    compose [schema] = schema := by
  have models : Model.mergeAll ([schema].flatMap (·.models)) = schema.models := by
    simpa using mergeAll_of_nodup distinct
  have enums : [schema].flatMap (·.enums) = schema.enums := by simp
  have datasources : selectDatasources [schema] = schema.datasources := by
    apply lastAccepted_singleton
    rcases connected with none | ⟨datasource, member, populated⟩
    · exact Or.inl none
    · exact Or.inr (List.any_eq_true.mpr ⟨datasource, member, populated⟩)
  have generators : selectGenerators [schema] = schema.generators :=
    lastAccepted_singleton (Or.inr rfl)
  rw [compose, models, enums, datasources, generators]

/-! ## What is lost -/

/-- No relation has a name with a colon. -/
def HasPlainRelations (schema : Schema) : Prop :=
  ∀ model ∈ schema.models, ∀ field ∈ model.fields, ∀ relation ∈ field.relation,
    ∀ name ∈ relation.name, ':' ∉ name

instance : DecidablePred HasPlainRelations := fun schema =>
  inferInstanceAs (Decidable (∀ model ∈ schema.models, ∀ field ∈ model.fields,
    ∀ relation ∈ field.relation, ∀ name ∈ relation.name, ':' ∉ name))

end Schema

theorem Relation.readBack_eq_self_iff (relation : Relation) :
    relation.readBack = relation ↔ ∀ name ∈ relation.name, ':' ∉ name := by
  obtain ⟨name, fields, references, onDelete⟩ := relation
  cases name with
  | none => simp [readBack]
  | some name => simp [readBack, Option.filter_some]

theorem Field.readBack_eq_self_iff (field : Field) :
    field.readBack = field ↔
      ∀ relation ∈ field.relation, relation.readBack = relation := by
  have relations : field.readBack = field ↔
      field.relation.map Relation.readBack = field.relation :=
    ⟨congrArg Field.relation, fun same => by rw [readBack, same]⟩
  rw [relations]
  cases field.relation with
  | none => simp
  | some relation => simp

theorem Model.readBack_eq_self_iff (model : Model) :
    model.readBack = model ↔ ∀ field ∈ model.fields, field.readBack = field := by
  rw [← map_eq_self_iff]
  exact ⟨congrArg Model.fields, fun same => by rw [readBack, same]⟩

namespace Schema

variable {schema : Schema}

theorem readBack_eq_self_iff (schema : Schema) :
    schema.readBack = schema ↔ schema.HasPlainRelations := by
  have models : schema.readBack = schema ↔
      schema.models.map Model.readBack = schema.models :=
    ⟨congrArg Schema.models, fun same => by rw [readBack, same]⟩
  rw [models, map_eq_self_iff]
  simp only [Model.readBack_eq_self_iff, Field.readBack_eq_self_iff,
    Relation.readBack_eq_self_iff]
  rfl

/-- The generated file of a printable schema is accepted, and composing what is
read from it gives the schema that was written, unless a relation has a name with a
colon. -/
theorem compose_generatedFile (printable : schema.IsPrintable) :
    ∃ read, ofDocument schema.generatedFile = .ok read ∧
      compose [read] = schema.readBack ∧
      (compose [read] = schema ↔ schema.HasPlainRelations) := by
  have distinct : (schema.readBack.models.map (·.name)).Nodup := by
    have names : schema.readBack.models.map (·.name) =
        schema.models.map (·.name) := by
      rw [readBack, List.map_map]
      rfl
    rw [names]
    exact printable.distinct.of_append_left
  have composed : compose [schema.readBack] = schema.readBack :=
    compose_singleton distinct printable.connected
  have read := ofDocument_generatedFile printable.isWritable printable.distinct
    (fun model member => (printable.models model member).isSilent)
    fun model member field inModel =>
      ((printable.models model member).fields field inModel).kind
  rw [printable.reread_eq] at read
  refine ⟨schema.readBack, read, composed, ?_⟩
  rw [composed]
  exact readBack_eq_self_iff schema

/-- Nodes that point to their parents, where the relation between them has a name
with a colon. -/
def nodeSchema : Schema where
  models :=
    [{ name := "Node"
       fields :=
        [{ name := "id", type := "Int", isId := true },
          { name := "parentId", type := "Int", isRequired := false },
          { name := "parent", type := "Node", kind := .object, isRequired := false
            relation :=
              some { name := "tree:up", fields := ["parentId"], references := ["id"] } },
          { name := "children", type := "Node", kind := .object, isList := true
            isRequired := false
            relation := some { name := "tree:up" } }] }]

theorem compose_generatedFile_nodes :
    ∃ read, ofDocument nodeSchema.generatedFile = .ok read ∧
      compose [read] ≠ nodeSchema := by
  have printable : nodeSchema.IsPrintable := by decide
  have named : ¬ nodeSchema.HasPlainRelations := by decide
  obtain ⟨read, accepted, _, same⟩ := compose_generatedFile printable
  exact ⟨read, accepted, fun equal => named (same.mp equal)⟩

end Schema

end SchemaCompose
