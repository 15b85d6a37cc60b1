import Mathlib.Control.Monad.Basic
import SchemaCompose.Mining.Injection
import SchemaCompose.Proofs.Merge.Staging
import SchemaCompose.Proofs.Reading.Resolution

/-!
# Composed schemas are well formed

A schema is well formed when its models have different names and are well formed
over its own names, and its datasources, if it has any, name a connection.  Types
are resolved document by document, and the documents of one composition may resolve
a type differently; the main statement (`wellFormed_compose`) is that their
composition is well formed nevertheless.
-/

namespace SchemaCompose

/-- No type of the schema dangles, no name is taken twice, and datasources have a
connection. -/
structure Schema.WellFormed (schema : Schema) : Prop where
  distinct : (schema.models.map (·.name)).Nodup
  models : ∀ model ∈ schema.models, model.WellFormed schema.names
  connected :
    schema.datasources = [] ∨
      ∃ datasource ∈ schema.datasources, datasource.url.isPopulated = true

/-! ## More names and recovered attributes -/

theorem Field.WellFormed.mono
    {names more : DeclaredNames} {field : Field}
    (wellFormed : field.WellFormed names)
    (models : names.models ⊆ more.models) (enums : names.enums ⊆ more.enums) :
    field.WellFormed more where
  object := fun object => models (wellFormed.object object)
  enum := fun enum => enums (wellFormed.enum enum)
  scalar := wellFormed.scalar
  list := wellFormed.list

namespace Model

variable {names more : DeclaredNames} {model incoming : Model}

theorem WellFormed.mono
    (wellFormed : model.WellFormed names)
    (models : names.models ⊆ more.models) (enums : names.enums ⊆ more.enums) :
    model.WellFormed more where
  fields := fun field member => (wellFormed.fields field member).mono models enums
  distinct := wellFormed.distinct
  unique := wellFormed.unique

/-- The attributes that are recovered for a model leave its types alone. -/
theorem WellFormed.inject
    (wellFormed : model.WellFormed names) (mined : Mined) :
    (model.inject mined).WellFormed names := by
  constructor
  · intro field member
    obtain ⟨original, inModel, rfl⟩ := List.mem_map.mp member
    exact { wellFormed.fields original inModel with }
  · have same : (model.inject mined).fields.map (·.name) =
        model.fields.map (·.name) := by
      simp [Model.inject, Field.inject, Function.comp_def]
    rw [HasDistinctFields, same]
    exact wellFormed.distinct
  · exact wellFormed.unique

/-- A field of a merged model comes from one of the two, in full. -/
theorem WellFormed.merge
    (base : model.WellFormed names) (later : incoming.WellFormed names) :
    (model.merge incoming).WellFormed names := by
  constructor
  · intro field member
    rcases Field.mem_of_mem_foldl_takeIn member with before | after
    · exact base.fields field before
    · exact later.fields field after
  · exact Field.nodup_names_foldl_takeIn base.distinct incoming.fields
  · simp [Model.merge, base.unique, later.unique]

end Model

/-! ## Composition -/

namespace Schema

theorem names_ofDocument
    {text : Text} {schema : Schema} (accepted : ofDocument text = .ok schema) :
    ∀ model ∈ schema.models, model.WellFormed schema.names := by
  obtain ⟨parsed, read, rfl⟩ := Reading.map_eq_ok.mp accepted
  have same :
      Schema.names
        { parsed with
          models := parsed.models.map (Model.inject (Mining.ofText text)) } =
      parsed.names := by
    simp [Schema.names, Model.inject, Function.comp_def]
  intro model member
  obtain ⟨original, inSchema, rfl⟩ := List.mem_map.mp member
  rw [same]
  exact (wellFormed_of_parse read original inSchema).inject _

theorem names_models_subset_compose
    {schemas : List Schema} {schema : Schema} (member : schema ∈ schemas) :
    schema.names.models ⊆ (compose schemas).names.models := by
  intro name known
  obtain ⟨model, inSchema, rfl⟩ := List.mem_map.mp known
  show model.name ∈ (Model.mergeAll (schemas.flatMap (·.models))).map (·.name)
  rw [Model.names_mergeAll, List.mem_eraseDups]
  exact List.mem_map_of_mem (List.mem_flatMap.mpr ⟨schema, member, inSchema⟩)

theorem names_enums_subset_compose
    {schemas : List Schema} {schema : Schema} (member : schema ∈ schemas) :
    schema.names.enums ⊆ (compose schemas).names.enums := by
  intro name known
  obtain ⟨enum, inSchema, rfl⟩ := List.mem_map.mp known
  exact List.mem_map_of_mem (List.mem_flatMap.mpr ⟨schema, member, inSchema⟩)

/-- The composition of accepted documents is well formed. -/
theorem wellFormed_compose
    (texts : List Text) (schemas : List Schema)
    (accepted : texts.mapM ofDocument = .ok schemas) :
    (compose schemas).WellFormed := by
  constructor
  · exact Model.nodup_names_mergeAll _
  · apply Model.forall_mem_mergeAll
    · intro base later wellFormedBase wellFormedLater
      exact wellFormedBase.merge wellFormedLater
    · intro model member
      obtain ⟨schema, inRow, inSchema⟩ := List.mem_flatMap.mp member
      obtain ⟨text, _, read⟩ :=
        Reading.exists_of_mem_results (Reading.mapM_eq_ok.mp accepted) inRow
      exact (names_ofDocument read model inSchema).mono
        (names_models_subset_compose inRow)
        (names_enums_subset_compose inRow)
  · rcases lastAccepted_cases (·.any (·.url.isPopulated))
      (schemas.map (·.datasources)) with
      none | ⟨_, populated⟩
    · exact Or.inl none
    · exact Or.inr (List.any_eq_true.mp populated)

/-- Two documents that resolve one type differently, and the schemas that they
declare. -/
theorem wellFormed_compose_enum_then_model :
    let texts : List Text := [
      "enum Role \x7b\n  ADMIN\n\x7d\n" ++
        "model User \x7b\n  id Int @id\n  role Role? @map(\"r\")\n\x7d\n",
      "model User \x7b\n  role Role[]\n\x7d\n" ++
        "model Role \x7b\n  kind Unsupported(\"x\")\n\x7d\n"]
    let schemas : List Schema := [
      { models := [{ name := "User", fields := [
          { name := "id", type := "Int", isId := true },
          { name := "role", type := "Role", kind := .enum, isRequired := false
            extras := { columnName := "r" } }] }]
        enums := [{ name := "Role", values := [{ name := "ADMIN" }] }] },
      { models := [
          { name := "User", fields := [
            { name := "role", type := "Role", kind := .object, isList := true
              isRequired := false }] },
          { name := "Role",
            fields := [{ name := "kind", type := "Unsupported(\"x\")" }] }] }]
    texts.mapM ofDocument = .ok schemas ∧ (compose schemas).WellFormed := by
  intro texts schemas
  have accepted : texts.mapM ofDocument = .ok schemas := by decide +kernel
  exact ⟨accepted, wellFormed_compose texts schemas accepted⟩

end Schema

end SchemaCompose
