import Mathlib.Data.Option.Basic
import SchemaCompose.Proofs.Merge.Reference
import SchemaCompose.Proofs.Reading.Success
import SchemaCompose.Proofs.Schema.FieldLines

/-!
# Types of an accepted document

A field names a type, and its kind says whether the type is a model, an enum or a
built-in one.  A model is well formed over some names of models and enums when
every field keeps what its kind promises, no field is declared twice, no list is
required, and the unique constraints are recorded twice alike.  The main statement
(`wellFormed_of_parse`) is that every model of an accepted document is well formed
over the names that the document itself declares.
-/

namespace SchemaCompose

/-- The field's kind is true of its type, and a list is not required. -/
structure Field.WellFormed (names : DeclaredNames) (field : Field) : Prop where
  object : field.kind = .object → field.type ∈ names.models
  enum : field.kind = .enum → field.type ∈ names.enums
  scalar : field.kind = .scalar → field.type ∈ builtInTypes ∨
    IsUnsupported field.type
  list : field.isList = true → field.isRequired = false

/-- The model's fields are well formed and distinct, and its unique constraints
agree. -/
structure Model.WellFormed (names : DeclaredNames) (model : Model) : Prop where
  fields : ∀ field ∈ model.fields, field.WellFormed names
  distinct : model.HasDistinctFields
  unique : model.uniqueFields = model.uniqueIndexes.map (·.fields)

/-- The names that a schema declares. -/
def Schema.names (schema : Schema) : DeclaredNames where
  models := schema.models.map (·.name)
  enums := schema.enums.map (·.name)

/-! ## Fields -/

/-- The three ways in which a type is known. -/
theorem kindOf?_cases
    {names : DeclaredNames} {type : Text} {kind : FieldKind}
    (known : names.kindOf? type = some kind) :
    (kind = .object ∧ type ∈ names.models) ∨ (kind = .enum ∧ type ∈ names.enums) ∨
      (kind = .scalar ∧
        (type ∈ builtInTypes ∨ Text.startsWith "Unsupported(" type = true)) := by
  unfold DeclaredNames.kindOf? at known
  simp only [List.contains_eq_mem, decide_eq_true_eq, Bool.or_eq_true] at known
  split_ifs at known with model enum scalar
  · exact Or.inl ⟨(Option.some.inj known).symm, model⟩
  · exact Or.inr (Or.inl ⟨(Option.some.inj known).symm, enum⟩)
  · exact Or.inr (Or.inr ⟨(Option.some.inj known).symm, scalar⟩)

/-- A type that starts like an unsupported one is one, for a name holds no
parenthesis. -/
theorem isUnsupported_of_startsWith
    {type : Text} (isType : Text.IsName type ∨ IsUnsupported type)
    (starts : Text.startsWith "Unsupported(" type = true) : IsUnsupported type := by
  refine isType.resolve_left fun isName => ?_
  obtain ⟨behind, found⟩ := Option.isSome_iff_exists.mp starts
  have paren : '(' ∈ type := by
    rw [Text.eq_append_of_after? found]
    exact List.mem_append_left behind (by decide)
  exact isName.not_mem (by decide) paren

namespace Field

/-- The field without what its attributes say. -/
def bare (field : Field) : Field :=
  { field with
    isId := false, isUnique := false, isUpdatedAt := false, default := none
    relation := none }

theorem bare_of_withAttribute
    {field next : Field} {source : Attribute}
    (read : field.withAttribute source = .ok next) :
    next.bare = field.bare := by
  unfold withAttribute at read
  by_cases relates : source.name = "@relation"
  · rw [relates] at read
    obtain ⟨relation, _, rfl⟩ := Reading.map_eq_ok.mp read
    rfl
  · rw [if_neg relates] at read
    split_ifs at read
    all_goals
      cases read
      rfl

theorem bare_of_foldlM_withAttribute
    {field final : Field} {sources : List Attribute}
    (read : sources.foldlM withAttribute field = .ok final) :
    final.bare = field.bare := by
  apply Reading.foldlM_keeps
    (fun state : Field => state.bare = field.bare) ?_ rfl read
  intro state source next holds stepped
  exact (bare_of_withAttribute stepped).trans holds

/-- The steps of reading a field: its line is cut into parts, its type is resolved,
and its attributes are scanned and applied. -/
theorem exists_of_read
    {names : DeclaredNames} {documentation : Option Text} {content : Text}
    {field : Field}
    (read : Field.read names documentation content = .ok field) :
    ∃ line kind sources, FieldLine.ofText? content = some line ∧
      names.kindOf? line.type = some kind ∧
      Attribute.scan line.attributes = .ok sources ∧
      sources.foldlM withAttribute
        { name := line.name, type := line.type, kind, isList := line.isList
          isRequired := !line.isOptional && !line.isList, documentation } =
        .ok field := by
  unfold Field.read at read
  split at read
  · contradiction
  · rename_i line parts
    split at read
    · contradiction
    · rename_i kind known
      obtain ⟨sources, scanned, withSources⟩ := Reading.bind_eq_ok.mp read
      exact ⟨line, kind, sources, parts, known, scanned, withSources⟩

/-- A field that is read keeps what its kind promises. -/
theorem wellFormed_of_read
    {names : DeclaredNames} {documentation : Option Text} {content : Text}
    {field : Field}
    (read : Field.read names documentation content = .ok field) :
    field.WellFormed names := by
  obtain ⟨line, kind, sources, parts, known, _, withSources⟩ := exists_of_read read
  have kept := bare_of_foldlM_withAttribute withSources
  have type : field.type = line.type := congrArg Field.type kept
  have kindKept : field.kind = kind := congrArg Field.kind kept
  have list : field.isList = line.isList := congrArg Field.isList kept
  have required : field.isRequired = (!line.isOptional && !line.isList) :=
    congrArg Field.isRequired kept
  obtain ⟨_, isType, _⟩ := FieldLine.exists_of_ofText? parts
  have resolved := kindOf?_cases known
  rw [← kindKept, ← type] at resolved
  constructor
  · intro object
    simpa [object] using resolved
  · intro enum
    simpa [enum] using resolved
  · intro scalar
    have own : field.type ∈ builtInTypes ∨
        Text.startsWith "Unsupported(" field.type = true := by
      simpa [scalar] using resolved
    exact own.imp_right (isUnsupported_of_startsWith (type ▸ isType))
  · intro isList
    rw [required, ← list, isList]
    simp

end Field

/-! ## Models -/

namespace Model

variable {names : DeclaredNames}

/-- What one attribute may do to a model: it gives the table, the key or one more
constraint. -/
theorem withAttribute_cases
    {model next : Model} {source : Attribute}
    (read : model.withAttribute source = .ok next) :
    (∃ name, source.positional = .ok name ∧
        next = { model with tableName := some (Text.unquote name) }) ∨
      (∃ key, source.compoundKey = .ok key ∧
        next = { model with primaryKey := some key }) ∨
      (∃ key, source.compoundKey = .ok key ∧
        next = { model with
          uniqueFields := model.uniqueFields ++ [key.fields]
          uniqueIndexes := model.uniqueIndexes ++ [key] }) ∨
      next = model := by
  unfold Model.withAttribute at read
  split_ifs at read
  · obtain ⟨name, positional, rfl⟩ := Reading.map_eq_ok.mp read
    exact Or.inl ⟨name, positional, rfl⟩
  · obtain ⟨key, compound, rfl⟩ := Reading.map_eq_ok.mp read
    exact Or.inr (Or.inl ⟨key, compound, rfl⟩)
  · obtain ⟨key, compound, rfl⟩ := Reading.map_eq_ok.mp read
    exact Or.inr (Or.inr (Or.inl ⟨key, compound, rfl⟩))
  · cases read
    exact Or.inr (Or.inr (Or.inr rfl))

/-- What one line may do to a model that is being read: it documents what follows,
it gives nothing, its attributes apply to the model, or it declares a field of a
new name. -/
theorem Reading.step_cases
    {reading next : Model.Reading} {line : Line}
    (read : reading.step names line = .ok next) :
    (∃ text, line.documentation? = some text ∧
        next = { reading with documentation := reading.documentation ++ [text] }) ∨
      (line.code = [] ∧ next = reading) ∨
      (∃ sources model, Attribute.scan line.code = .ok sources ∧
        sources.foldlM withAttribute reading.model = .ok model ∧ next = { model }) ∨
      ∃ field, Field.read names
        (joinDocumentation reading.documentation) line.code = .ok field ∧
        field.name ∉ reading.model.fields.map (·.name) ∧
        next = { model :=
          { reading.model with fields := reading.model.fields ++ [field] } } := by
  unfold Reading.step at read
  split at read
  · rename_i text documented
    cases read
    exact Or.inl ⟨text, documented, rfl⟩
  · split_ifs at read with empty starts
    · cases read
      exact Or.inr (Or.inl ⟨List.isEmpty_iff.mp empty, rfl⟩)
    · obtain ⟨sources, scanned, further⟩ :=
        Reading.bind_eq_ok.mp (Reading.atLine_eq_ok.mp read)
      obtain ⟨model, withSources, same⟩ := Reading.bind_eq_ok.mp further
      exact Or.inr (Or.inr (Or.inl ⟨sources, model, scanned, withSources,
        (Reading.pure_eq_ok.mp same).symm⟩))
    · obtain ⟨field, readField, further⟩ :=
        Reading.bind_eq_ok.mp (Reading.atLine_eq_ok.mp read)
      split_ifs at further with repeated
      exact Or.inr (Or.inr (Or.inr ⟨field, readField, by simpa using repeated,
        (Reading.pure_eq_ok.mp further).symm⟩))

theorem WellFormed.withAttribute
    {model next : Model} {source : Attribute}
    (wellFormed : model.WellFormed names)
    (read : model.withAttribute source = .ok next) :
    next.WellFormed names := by
  rcases withAttribute_cases read with ⟨_, _, rfl⟩ | ⟨_, _, rfl⟩ | ⟨_, _, rfl⟩ | rfl
  · exact { wellFormed with }
  · exact { wellFormed with }
  · exact { wellFormed with unique := by simp [wellFormed.unique] }
  · exact wellFormed

theorem WellFormed.addField
    {model : Model} {field : Field} (wellFormed : model.WellFormed names)
    (own : field.WellFormed names) (new : field.name ∉ model.fields.map (·.name)) :
    Model.WellFormed names { model with fields := model.fields ++ [field] } where
  fields :=
    List.forall_mem_append.mpr
      ⟨wellFormed.fields, List.forall_mem_singleton.mpr own⟩
  distinct := by
    have distinct := Field.nodup_names_takeIn wellFormed.distinct field
    rwa [Field.takeIn_of_new new] at distinct
  unique := wellFormed.unique

theorem WellFormed.step
    {reading next : Model.Reading} {line : Line}
    (wellFormed : reading.model.WellFormed names)
    (read : reading.step names line = .ok next) :
    next.model.WellFormed names := by
  rcases Reading.step_cases read with
    ⟨_, _, rfl⟩ | ⟨_, rfl⟩ | ⟨sources, model, _, withSources, rfl⟩ |
      ⟨field, readField, new, rfl⟩
  · exact wellFormed
  · exact wellFormed
  · apply Reading.foldlM_keeps
      (fun state : Model => state.WellFormed names) ?_ wellFormed
      withSources
    intro state source after holds stepped
    exact holds.withAttribute stepped
  · exact wellFormed.addField (Field.wellFormed_of_read readField) new

/-- A model that is read is well formed over the names that types may be resolved
to. -/
theorem wellFormed_of_ofBlock
    {block : Block} {model : Model} (read : Model.ofBlock names block = .ok model) :
    model.WellFormed names := by
  obtain ⟨reading, folded, same⟩ := Reading.bind_eq_ok.mp read
  rw [← Reading.pure_eq_ok.mp same]
  apply Reading.foldlM_keeps
    (fun state : Model.Reading => state.model.WellFormed names)
    ?_ ?_ folded
  · intro state line next holds stepped
    exact holds.step stepped
  · exact ⟨by simp, by simp [HasDistinctFields], rfl⟩

theorem name_of_withAttribute
    {model next : Model} {source : Attribute}
    (read : model.withAttribute source = .ok next) :
    next.name = model.name := by
  rcases withAttribute_cases read with ⟨_, _, rfl⟩ | ⟨_, _, rfl⟩ | ⟨_, _, rfl⟩ | rfl
  · rfl
  · rfl
  · rfl
  · rfl

theorem name_of_step
    {reading next : Model.Reading} {line : Line}
    (read : reading.step names line = .ok next) :
    next.model.name = reading.model.name := by
  rcases Reading.step_cases read with
    ⟨_, _, rfl⟩ | ⟨_, rfl⟩ | ⟨sources, model, _, withSources, rfl⟩ |
      ⟨field, _, _, rfl⟩
  · rfl
  · rfl
  · apply Reading.foldlM_keeps
      (fun state : Model => state.name = reading.model.name) ?_ rfl
      withSources
    intro state source after holds stepped
    exact (name_of_withAttribute stepped).trans holds
  · rfl

theorem name_of_ofBlock
    {block : Block} {model : Model} (read : Model.ofBlock names block = .ok model) :
    model.name = block.name := by
  obtain ⟨reading, folded, same⟩ := Reading.bind_eq_ok.mp read
  rw [← Reading.pure_eq_ok.mp same]
  apply Reading.foldlM_keeps
    (fun state : Model.Reading => state.model.name = block.name)
    ?_ rfl folded
  intro state line next holds stepped
  exact (name_of_step stepped).trans holds

end Model

/-! ## Documents -/

/-- What one line may do to an enum that is being read: it gives nothing, its
attributes name the enum, or it declares a value. -/
theorem SchemaEnum.step_cases
    {enum next : SchemaEnum} {line : Line} (read : enum.step line = .ok next) :
    (line.code = [] ∧ next = enum) ∨
      (∃ sources storedName, Attribute.scan line.code = .ok sources ∧
        sources.foldlM (storedNameFrom "@@map") enum.storedName = .ok storedName ∧
        next = { enum with storedName }) ∨
      ∃ name behind sources storedName,
        Text.identifier? line.code = some (name, behind) ∧
        Attribute.scan behind = .ok sources ∧
        sources.foldlM (storedNameFrom "@map") none = .ok storedName ∧
        next = { enum with values := enum.values ++ [{ name, storedName }] } := by
  unfold SchemaEnum.step at read
  split_ifs at read with empty starts
  · cases read
    exact Or.inl ⟨List.isEmpty_iff.mp empty, rfl⟩
  · obtain ⟨sources, scanned, further⟩ :=
      Reading.bind_eq_ok.mp (Reading.atLine_eq_ok.mp read)
    obtain ⟨storedName, stored, same⟩ := Reading.bind_eq_ok.mp further
    exact Or.inr (Or.inl ⟨sources, storedName, scanned, stored,
      (Reading.pure_eq_ok.mp same).symm⟩)
  · have value := Reading.atLine_eq_ok.mp read
    split at value
    · contradiction
    · rename_i name behind identifier
      obtain ⟨sources, scanned, further⟩ := Reading.bind_eq_ok.mp value
      obtain ⟨storedName, stored, same⟩ := Reading.bind_eq_ok.mp further
      exact Or.inr (Or.inr ⟨name, behind, sources, storedName, identifier, scanned,
        stored, (Reading.pure_eq_ok.mp same).symm⟩)

/-- A line leaves the name and the documentation of an enum. -/
theorem SchemaEnum.frame_of_step
    {line : Line} {enum next : SchemaEnum} (read : enum.step line = .ok next) :
    next.name = enum.name ∧ next.documentation = enum.documentation := by
  rcases SchemaEnum.step_cases read with
    ⟨_, rfl⟩ | ⟨_, _, _, _, rfl⟩ | ⟨_, _, _, _, _, _, _, rfl⟩
  · exact ⟨rfl, rfl⟩
  · exact ⟨rfl, rfl⟩
  · exact ⟨rfl, rfl⟩

theorem SchemaEnum.name_of_ofBlock
    {block : Block} {enum : SchemaEnum}
    (read : SchemaEnum.ofBlock block = .ok enum) :
    enum.name = block.name := by
  apply Reading.foldlM_keeps (fun state : SchemaEnum => state.name = block.name)
    ?_ rfl read
  intro state line next holds stepped
  exact (frame_of_step stepped).1.trans holds

/-- What one line may do to the properties of a block: it gives nothing, or it puts
one property. -/
theorem Properties.step_cases
    {kind : BlockKind} {properties next : Properties} {line : Line}
    (read : Properties.step kind properties line = .ok next) :
    (line.code = [] ∧ next = properties) ∨
      ∃ key value, Properties.line? line.code = some (key, value) ∧
        next = properties.put key value := by
  unfold Properties.step at read
  split_ifs at read with empty
  · cases read
    exact Or.inl ⟨List.isEmpty_iff.mp empty, rfl⟩
  · split at read
    · contradiction
    · rename_i key value property
      cases read
      exact Or.inr ⟨key, value, property, rfl⟩

/-- No name is taken twice where every block has a name of its own. -/
theorem Block.distinctFrom_eq_ok {taken : List Text} {blocks : List Block} :
    Block.distinctFrom taken blocks = .ok () ↔
      (blocks.map (·.name)).Nodup ∧ ∀ block ∈ blocks, block.name ∉ taken := by
  induction blocks generalizing taken with
  | nil => simp [Block.distinctFrom]
  | cons block others ih =>
      rw [Block.distinctFrom, List.map_cons, List.nodup_cons, List.forall_mem_cons]
      by_cases known : block.name ∈ taken
      · simp [known]
      · have unknown : taken.contains block.name = false := by simpa using known
        rw [unknown, if_neg (by decide), ih]
        simp only [List.mem_cons, not_or, List.mem_map, not_exists, not_and]
        grind

namespace Schema

/-- The declarations of a row of blocks declare the names of the blocks. -/
theorem names_ofDeclarations
    {names : DeclaredNames} {blocks : List Block} {declarations : List Declaration}
    (read : List.Forall₂
      (fun block declaration => Declaration.ofBlock names block = .ok declaration)
      blocks declarations) :
    (ofDeclarations declarations).names = DeclaredNames.ofBlocks blocks := by
  induction read with
  | nil => rfl
  | @cons block declaration blocks declarations here behind ih =>
      simp only [Schema.names, ofDeclarations, DeclaredNames.ofBlocks,
        DeclaredNames.mk.injEq] at ih ⊢
      unfold Declaration.ofBlock at here
      cases kind : block.kind with
      | model =>
          rw [kind] at here
          obtain ⟨model, readModel, rfl⟩ := Reading.map_eq_ok.mp here
          simp [kind, ih, Model.name_of_ofBlock readModel]
      | enum =>
          rw [kind] at here
          obtain ⟨enum, readEnum, rfl⟩ := Reading.map_eq_ok.mp here
          simp [kind, ih, SchemaEnum.name_of_ofBlock readEnum]
      | datasource =>
          rw [kind] at here
          obtain ⟨datasource, _, rfl⟩ := Reading.map_eq_ok.mp here
          simp [kind, ih]
      | generator =>
          rw [kind] at here
          obtain ⟨generator, _, rfl⟩ := Reading.map_eq_ok.mp here
          simp [kind, ih]

/-- A model of a row of declarations is read from a block of a model. -/
theorem exists_of_mem_models
    {names : DeclaredNames} {blocks : List Block} {declarations : List Declaration}
    (read : List.Forall₂
      (fun block declaration => Declaration.ofBlock names block = .ok declaration)
      blocks declarations) {model : Model}
    (member : model ∈ (ofDeclarations declarations).models) :
    ∃ block ∈ blocks, block.kind = .model ∧
      Model.ofBlock names block = .ok model := by
  obtain ⟨declaration, declared, same⟩ := List.mem_filterMap.mp member
  obtain ⟨block, inBlocks, ofBlock⟩ := Reading.exists_of_mem_results read declared
  refine ⟨block, inBlocks, ?_⟩
  unfold Declaration.ofBlock at ofBlock
  split at ofBlock
  all_goals
    rename_i kind
    obtain ⟨own, readOwn, rfl⟩ := Reading.map_eq_ok.mp ofBlock
  · obtain rfl : own = model := by simpa using same
    exact ⟨kind, readOwn⟩
  all_goals simp at same

theorem wellFormed_of_mem_ofDeclarations
    {names : DeclaredNames} {blocks : List Block} {declarations : List Declaration}
    (read : List.Forall₂
      (fun block declaration => Declaration.ofBlock names block = .ok declaration)
      blocks declarations) :
    ∀ model ∈ (ofDeclarations declarations).models, model.WellFormed names := by
  intro model member
  obtain ⟨block, _, _, readModel⟩ := exists_of_mem_models read member
  exact Model.wellFormed_of_ofBlock readModel

/-- A row of blocks is accepted exactly if each block is read over the names that all
of them declare, and no name is taken twice. -/
theorem ofBlocks_eq_ok {blocks : List Block} {schema : Schema} :
    ofBlocks blocks = .ok schema ↔
      ∃ declarations, List.Forall₂ (fun block declaration =>
          Declaration.ofBlock (DeclaredNames.ofBlocks blocks) block = .ok declaration)
          blocks declarations ∧
        ((blocks.filter Block.isNamed).map (·.name)).Nodup ∧
        schema = ofDeclarations declarations := by
  rw [ofBlocks, Reading.bind_eq_ok]
  refine exists_congr fun declarations => and_congr Reading.mapM_eq_ok ?_
  rw [Reading.bind_eq_ok]
  constructor
  · rintro ⟨_, distinct, same⟩
    exact ⟨(Block.distinctFrom_eq_ok.mp distinct).1, (Reading.pure_eq_ok.mp same).symm⟩
  · rintro ⟨distinct, rfl⟩
    exact ⟨(), Block.distinctFrom_eq_ok.mpr ⟨distinct, by simp⟩, rfl⟩

/-- The steps of reading a document: it is cut into blocks, each block is read over
the names that all of them declare, and no name is taken twice. -/
theorem exists_of_parse
    {text : Text} {schema : Schema} (accepted : Schema.parse text = .ok schema) :
    ∃ blocks declarations, Block.split (Line.ofText text) = .ok blocks ∧
      List.Forall₂ (fun block declaration =>
        Declaration.ofBlock (DeclaredNames.ofBlocks blocks) block = .ok declaration)
        blocks declarations ∧
      ((blocks.filter Block.isNamed).map (·.name)).Nodup ∧
      schema = ofDeclarations declarations := by
  obtain ⟨blocks, split, read⟩ := Reading.bind_eq_ok.mp accepted
  obtain ⟨declarations, further⟩ := ofBlocks_eq_ok.mp read
  exact ⟨blocks, declarations, split, further⟩

/-- No name is taken twice among the models and enums of an accepted document. -/
theorem nodup_of_parse
    {text : Text} {schema : Schema} (accepted : Schema.parse text = .ok schema) :
    (schema.names.models ++ schema.names.enums).Nodup := by
  obtain ⟨blocks, declarations, _, read, distinct, rfl⟩ := exists_of_parse accepted
  -- The document has its models and enums in any order.
  have parts : List.Perm
      (blocks.filter (·.kind = .model) ++ blocks.filter (·.kind = .enum))
      (blocks.filter Block.isNamed) := by
    have sorted := List.filter_append_perm (fun block : Block => block.kind = .model)
      (blocks.filter Block.isNamed)
    rw [List.filter_filter, List.filter_filter] at sorted
    have models : (fun block : Block =>
        decide (block.kind = .model) && block.isNamed) =
          fun block => decide (block.kind = .model) := by
      funext block
      cases kind : block.kind <;> simp [Block.isNamed, kind]
    have enums : (fun block : Block =>
        (!decide (block.kind = .model)) && block.isNamed) =
          fun block => decide (block.kind = .enum) := by
      funext block
      cases kind : block.kind <;> simp [Block.isNamed, kind]
    rwa [models, enums] at sorted
  rw [names_ofDeclarations read, DeclaredNames.ofBlocks, ← List.map_append]
  exact (parts.map (·.name)).nodup_iff.mpr distinct

/-- The types of an accepted document are resolved among the names that it
declares. -/
theorem wellFormed_of_parse
    {text : Text} {schema : Schema} (accepted : Schema.parse text = .ok schema) :
    ∀ model ∈ schema.models, model.WellFormed schema.names := by
  obtain ⟨blocks, declarations, _, read, _, rfl⟩ := exists_of_parse accepted
  rw [names_ofDeclarations read]
  exact wellFormed_of_mem_ofDeclarations read

end Schema

end SchemaCompose
