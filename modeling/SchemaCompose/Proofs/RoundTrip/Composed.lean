import SchemaCompose.Proofs.RoundTrip.Confined
import SchemaCompose.Proofs.RoundTrip.Files

/-!
# Composed files are accepted

Models of one name are merged, but enums are only put in a row.  The generated file of
a composition of accepted documents is therefore accepted exactly when no enum is
declared twice and none has the name of a model
(`Schema.parse_generatedFile_compose_iff`), whatever models the documents share.
-/

namespace SchemaCompose

/-! ## Known types -/

/-- The type of a well-formed field is known. -/
theorem Field.WellFormed.isSome_kindOf?
    {names : DeclaredNames} {field : Field} (wellFormed : field.WellFormed names) :
    (names.kindOf? field.type).isSome := by
  rw [DeclaredNames.kindOf?]
  cases kind : field.kind with
  | object =>
      have declared := List.contains_iff_mem.mpr (wellFormed.object kind)
      rw [if_pos declared]
      rfl
  | enum =>
      have declared := List.contains_iff_mem.mpr (wellFormed.enum kind)
      rw [if_pos declared]
      split <;> rfl
  | scalar =>
      have builtIn : (builtInTypes.contains field.type ||
          Text.startsWith "Unsupported(" field.type) = true := by
        rw [Bool.or_eq_true]
        rcases wellFormed.scalar kind with listed | ⟨argument, _, written⟩
        · exact Or.inl (List.contains_iff_mem.mpr listed)
        · right
          rw [written]
          rfl
      rw [if_pos builtIn]
      split
      · rfl
      · split <;> rfl

namespace Schema

variable {schema : Schema}

/-- A generated file is accepted if every type is known and no name is taken twice. -/
theorem exists_parse_generatedFile
    (writable : schema.IsWritable)
    (known : ∀ model ∈ schema.models, ∀ field ∈ model.fields,
      (schema.names.kindOf? field.type).isSome)
    (distinct : (schema.names.models ++ schema.names.enums).Nodup) :
    ∃ read, parse schema.generatedFile = .ok read := by
  rw [← generatedFile_resolved writable]
  rw [← names_resolved] at distinct
  exact ⟨_, parse_generatedFile writable.resolved (isResolved_resolved known) distinct⟩

/-- The types of a well-formed schema are known, also in its normal form. -/
theorem WellFormed.isSome_kindOf?_normal (wellFormed : schema.WellFormed) :
    ∀ model ∈ schema.normal.models, ∀ field ∈ model.fields,
      (schema.normal.names.kindOf? field.type).isSome := by
  intro model member field inModel
  obtain ⟨original, inSchema, rfl⟩ := List.mem_map.mp member
  obtain ⟨bare, inOriginal, rfl⟩ := List.mem_map.mp inModel
  rw [names_normal]
  exact ((wellFormed.models original inSchema).fields bare inOriginal).isSome_kindOf?

/-- The generated file of a confined schema that was read is accepted exactly when no
name is taken twice. -/
theorem exists_parse_generatedFile_iff
    (isRead : schema.IsRead) (wellFormed : schema.WellFormed)
    (confined : schema.IsConfined) :
    (∃ read, parse schema.generatedFile = .ok read) ↔
      (schema.names.models ++ schema.names.enums).Nodup := by
  have writable := isWritable_normal isRead wellFormed confined
  rw [← generatedFile_normal, ← names_normal]
  constructor
  · rintro ⟨read, accepted⟩
    exact nodup_of_parse_generatedFile writable accepted
  · exact exists_parse_generatedFile writable wellFormed.isSome_kindOf?_normal

/-! ## Compositions -/

theorem names_models_compose (schemas : List Schema) :
    (compose schemas).names.models = (schemas.flatMap (·.names.models)).eraseDups := by
  show (Model.mergeAll (schemas.flatMap (·.models))).map (·.name) = _
  rw [Model.names_mergeAll, List.map_flatMap]
  rfl

theorem names_enums_compose (schemas : List Schema) :
    (compose schemas).names.enums = schemas.flatMap (·.names.enums) :=
  List.map_flatMap

/-- The generated file of a composition of accepted documents is accepted exactly when
no enum is declared twice and none has the name of a model. -/
theorem parse_generatedFile_compose_iff
    (texts : List Text) (schemas : List Schema)
    (accepted : texts.mapM ofDocument = .ok schemas)
    (confined : (compose schemas).IsConfined) :
    (∃ read, parse (compose schemas).generatedFile = .ok read) ↔
      (schemas.flatMap (·.names.enums)).Nodup ∧
        ∀ name ∈ schemas.flatMap (·.names.models),
          name ∉ schemas.flatMap (·.names.enums) := by
  rw [exists_parse_generatedFile_iff (isRead_compose accepted)
    (wellFormed_compose texts schemas accepted) confined, names_models_compose,
    names_enums_compose, List.nodup_append']
  constructor
  · rintro ⟨_, distinct, apart⟩
    exact ⟨distinct, fun name inModels =>
      apart (List.mem_eraseDups.mpr inModels)⟩
  · rintro ⟨distinct, apart⟩
    exact ⟨Row.nodup_eraseDups _, distinct, fun name inModels =>
      apart name (List.mem_eraseDups.mp inModels)⟩

/-- Two documents that share a model, where each declares an enum of its own. -/
theorem parse_generatedFile_compose_shared_model :
    let texts : List Text := [
      "enum Role \x7b\n  ADMIN\n\x7d\n" ++
        "model User \x7b\n  id Int @id\n  role Role @map(\"r\")\n\x7d\n",
      "model User \x7b\n  state State\n  @@map(\"users\")\n\x7d\n" ++
        "enum State \x7b\n  ACTIVE\n\x7d\n"]
    let schemas : List Schema := [
      { models := [{ name := "User", fields := [
          { name := "id", type := "Int", isId := true },
          { name := "role", type := "Role", kind := .enum
            extras := { columnName := "r" } }] }]
        enums := [{ name := "Role", values := [{ name := "ADMIN" }] }] },
      { models := [
          { name := "User", tableName := "users"
            fields := [{ name := "state", type := "State", kind := .enum }] }]
        enums := [{ name := "State", values := [{ name := "ACTIVE" }] }] }]
    texts.mapM ofDocument = .ok schemas ∧ (compose schemas).IsConfined ∧
      ∃ read, parse (compose schemas).generatedFile = .ok read := by
  intro texts schemas
  have accepted : texts.mapM ofDocument = .ok schemas := by decide +kernel
  have confined : (compose schemas).IsConfined := by decide +kernel
  refine ⟨accepted, confined, ?_⟩
  rw [parse_generatedFile_compose_iff texts schemas accepted confined]
  exact ⟨by decide +kernel, by decide +kernel⟩

/-- Two documents that share an enum: each is accepted, but what is composed from them
declares the enum twice. -/
theorem parse_generatedFile_compose_shared_enum :
    let texts : List Text := [
      "enum Role \x7b\n  ADMIN\n\x7d\n" ++
        "model User \x7b\n  id Int @id\n  role Role\n\x7d\n",
      "enum Role \x7b\n  ADMIN\n\x7d\n" ++
        "model Post \x7b\n  id Int @id\n  author Role\n\x7d\n"]
    let schemas : List Schema := [
      { models := [{ name := "User", fields := [
          { name := "id", type := "Int", isId := true },
          { name := "role", type := "Role", kind := .enum }] }]
        enums := [{ name := "Role", values := [{ name := "ADMIN" }] }] },
      { models := [{ name := "Post", fields := [
          { name := "id", type := "Int", isId := true },
          { name := "author", type := "Role", kind := .enum }] }]
        enums := [{ name := "Role", values := [{ name := "ADMIN" }] }] }]
    texts.mapM ofDocument = .ok schemas ∧
      ∀ read, parse (compose schemas).generatedFile ≠ .ok read := by
  intro texts schemas
  have accepted : texts.mapM ofDocument = .ok schemas := by decide +kernel
  have rejected : parse (compose schemas).generatedFile =
      .error ⟨.repeatedName .enum "Role", 16⟩ := by decide +kernel
  refine ⟨accepted, fun read same => ?_⟩
  rw [rejected] at same
  contradiction

end Schema

end SchemaCompose
