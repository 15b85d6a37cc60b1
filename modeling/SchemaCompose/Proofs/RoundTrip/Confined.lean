import SchemaCompose.Proofs.Merge.Texts
import SchemaCompose.Proofs.RoundTrip.Normal

/-!
# Texts that stay in their place

What is read between quotes is decoded, and what is recovered by its shape is cut where
the shape ends; either may open a string or a bracket that it does not close.  Written
again it would not stay in its place.  A schema is confined when none of its texts does
so, and a confined schema that was read from accepted documents is writable in its
normal form (`Schema.isWritable_normal`).  Everything here can be decided.
-/

namespace SchemaCompose

/-! ## Confined schemas -/

/-- The text closes what it opens, and no argument ends in it. -/
@[mk_iff]
structure Arguments.IsConfined (text : Text) : Prop where
  passing : IsPassing text
  balanced : Balanced text

instance : DecidablePred Arguments.IsConfined := fun text =>
  decidable_of_iff' _ (Arguments.isConfined_iff text)

/-- Every argument of the relation stays in its place. -/
@[mk_iff]
structure Relation.IsConfined (relation : Relation) : Prop where
  name : ∀ name ∈ relation.name, IsContained name
  fields : ∀ item ∈ relation.fields, Arguments.IsConfined item
  references : ∀ item ∈ relation.references, Arguments.IsConfined item
  onDelete : ∀ action ∈ relation.onDelete,
    Arguments.IsConfined action ∧ Text.IsTrimmed action

instance : DecidablePred Relation.IsConfined := fun relation =>
  decidable_of_iff' _ relation.isConfined_iff

/-- No literal is open behind the type of the field, and what was recovered from its
line stays in its place. -/
@[mk_iff]
structure Field.IsConfined (field : Field) : Prop where
  type : LiteralState.run .outside field.type = .outside
  relation : ∀ relation ∈ field.relation, relation.IsConfined
  columnName : ∀ name ∈ field.extras.columnName, IsDelimited name
  nativeType : ∀ type ∈ field.extras.nativeType,
    ∀ inner ∈ (nativeAttribute type).arguments, Balanced inner

instance : DecidablePred Field.IsConfined := fun field =>
  decidable_of_iff' _ field.isConfined_iff

/-- Every argument of the key stays in its place. -/
@[mk_iff]
structure CompoundKey.IsConfined (key : CompoundKey) : Prop where
  fields : ∀ item ∈ key.fields, Arguments.IsConfined item
  name : ∀ name ∈ key.name, IsContained name

instance : DecidablePred CompoundKey.IsConfined := fun key =>
  decidable_of_iff' _ key.isConfined_iff

/-- In front of its comment the row of an index is one attribute. -/
@[mk_iff]
structure IsConfinedIndex (index : Text) : Prop where
  written : (indexAttribute (Text.code index)).write = Text.code index
  balanced : ∀ inner ∈ (indexAttribute (Text.code index)).arguments, Balanced inner

instance : DecidablePred IsConfinedIndex := fun index =>
  decidable_of_iff' _ (isConfinedIndex_iff index)

/-- Every text of the model stays in its place. -/
@[mk_iff]
structure Model.IsConfined (model : Model) : Prop where
  fields : ∀ field ∈ model.fields, field.IsConfined
  tableName : ∀ name ∈ model.tableName, IsContained name
  primaryKey : ∀ key ∈ model.primaryKey, key.IsConfined
  uniqueIndexes : ∀ key ∈ model.uniqueIndexes, key.IsConfined
  extraIndexes : ∀ index ∈ model.extraIndexes, IsConfinedIndex index

instance : DecidablePred Model.IsConfined := fun model =>
  decidable_of_iff' _ model.isConfined_iff

/-- The stored names of the enum and of its values stay between their quotes. -/
@[mk_iff]
structure SchemaEnum.IsConfined (enum : SchemaEnum) : Prop where
  values : ∀ value ∈ enum.values, ∀ name ∈ value.storedName, IsContained name
  storedName : ∀ name ∈ enum.storedName, IsContained name

instance : DecidablePred SchemaEnum.IsConfined := fun enum =>
  decidable_of_iff' _ enum.isConfined_iff

/-- No comment begins in the text when it stands between double quotes. -/
def IsSilentInQuotes (text : Text) : Prop :=
  Text.beforeComment .outside (inQuotes text) = inQuotes text

instance : DecidablePred IsSilentInQuotes := fun text =>
  inferInstanceAs
    (Decidable (Text.beforeComment .outside (inQuotes text) = inQuotes text))

/-- Every text of the schema stays in its place when it is written. -/
@[mk_iff]
structure Schema.IsConfined (schema : Schema) : Prop where
  models : ∀ model ∈ schema.models, model.IsConfined
  enums : ∀ enum ∈ schema.enums, enum.IsConfined
  datasources : ∀ datasource ∈ schema.datasources,
    IsSilentInQuotes datasource.provider ∧
      ∀ value ∈ datasource.url.value, IsSilentInQuotes value
  generators : ∀ generator ∈ schema.generators, IsSilentInQuotes generator.provider

instance : DecidablePred Schema.IsConfined := fun schema =>
  decidable_of_iff' _ schema.isConfined_iff

/-! ## What was read and stays in its place is writable -/

/-- A name between quotes that was read, if it is not empty. -/
theorem isQuoted_whenFilled
    {setting : Option Text} (single : ∀ text ∈ setting, Text.IsLine text)
    (contained : ∀ text ∈ setting, IsContained text) :
    ∀ text ∈ whenFilled setting, IsQuoted text ∧ text ≠ [] := by
  intro text member
  obtain ⟨own, filled⟩ := mem_whenFilled.mp member
  exact ⟨⟨contained text own, single text own⟩, filled⟩

theorem Arguments.IsConfined.isMember
    {item : Text} (isConfined : IsConfined item) (isBare : IsBare item) :
    IsMember item :=
  ⟨⟨isConfined.passing, isConfined.balanced, isBare.single, isBare.trimmed⟩,
    isBare.unmodified⟩

theorem Relation.isWritable_normal
    {relation : Relation} (isRead : relation.IsRead) (confined : relation.IsConfined) :
    relation.normal.IsWritable := by
  refine ⟨isQuoted_whenFilled isRead.name confined.name, ?_, ?_, ?_⟩
  · exact fun item member =>
      (confined.fields item member).isMember (isRead.fields item member)
  · exact fun item member =>
      (confined.references item member).isMember (isRead.references item member)
  · intro action member
    obtain ⟨own, filled⟩ := mem_whenFilled.mp member
    obtain ⟨isConfined, trimmed⟩ := confined.onDelete action own
    exact ⟨⟨isConfined.passing, isConfined.balanced, isRead.onDelete action own,
      trimmed⟩, filled⟩

/-- The state behind an unsupported type tells whether its argument ends where it is
quoted. -/
theorem isDelimited_of_run
    {argument : Text} (plain : '"' ∉ argument)
    (ended : LiteralState.run .outside ("Unsupported(\"" ++ argument ++ "\")") =
      .outside) :
    IsDelimited argument := by
  refine ⟨plain, ?_⟩
  have opened : LiteralState.run .outside "Unsupported(\"" = .inside := by decide
  rw [LiteralState.run_append, LiteralState.run_append, opened] at ended
  have inside : LiteralState.run .inside argument ≠ .outside :=
    LiteralState.run_ne_outside (by simp) plain
  cases behind : LiteralState.run .inside argument with
  | outside => contradiction
  | inside => rfl
  | escaped =>
      rw [behind] at ended
      contradiction

theorem isWritableType_of_isReadType
    {type : Text} (isRead : IsReadType type)
    (ended : LiteralState.run .outside type = .outside) : IsWritableType type := by
  rcases isRead with isName | ⟨⟨argument, plain, rfl⟩, single⟩
  · exact Or.inl isName
  · have own : unsupportedArgument ("Unsupported(\"" ++ argument ++ "\")") =
        argument := by
      show ((argument ++ ['"', ')']).dropLast).dropLast = argument
      simp
    rw [IsWritableType, own]
    refine Or.inr ⟨by simp [inQuotes], isDelimited_of_run plain ended, ?_⟩
    exact (Text.isLine_append.mp (Text.isLine_append.mp single).1).2

theorem isWritableNativeType_of_isMinedType
    {type : Text} (isMined : IsMinedType type)
    (balanced : ∀ inner ∈ (nativeAttribute type).arguments, Balanced inner) :
    IsWritableNativeType type where
  named := isMined.named
  written := isMined.written
  arguments := fun inner member =>
    ⟨⟨balanced inner member, (isMined.arguments inner member).1⟩,
      (isMined.arguments inner member).2⟩

namespace Field

variable {field : Field}

theorem isWritable_writtenRelation
    (isRead : field.IsRead) (confined : field.IsConfined) :
    ∀ relation ∈ field.writtenRelation, relation.IsWritable := by
  intro relation member
  rw [writtenRelation] at member
  split at member
  · rename_i own related
    obtain rfl := Option.some.inj member
    exact Relation.isWritable_normal (isRead.relation own related)
      (confined.relation own related)
  · split_ifs at member
    · obtain rfl := Option.some.inj member
      exact ⟨by simp, by simp, by simp, by simp⟩
    · contradiction

theorem isWritable_normal
    (isRead : field.IsRead) (confined : field.IsConfined)
    (list : field.isList = true → field.isRequired = false) :
    field.normal.IsWritable := by
  have onUpdate : ∀ action ∈ field.normal.extras.onUpdate,
      field.writtenRelation.isSome ∧ action ∈ whenFilled field.extras.onUpdate := by
    intro action member
    simpa [normal] using member
  refine ⟨isRead.name, isWritableType_of_isReadType isRead.type confined.type, list,
    ?_, isWritable_writtenRelation isRead confined, isRead.documentation, ⟨?_, ?_, ?_⟩,
    ?_⟩
  · intro value member
    obtain ⟨trimmed, single⟩ := isRead.default value member
    exact ⟨⟨isRead.enclosed confined.type value member, single⟩, trimmed⟩
  · intro name member
    obtain ⟨own, filled⟩ := mem_whenFilled.mp member
    exact ⟨confined.columnName name own, (isRead.extras.columnName name own).2, filled⟩
  · intro type member
    obtain ⟨own, _⟩ := mem_whenFilled.mp member
    exact isWritableNativeType_of_isMinedType (isRead.extras.nativeType type own)
      (confined.nativeType type own)
  · intro action member
    exact isRead.extras.onUpdate action (mem_whenFilled.mp (onUpdate action member).2).1
  · intro updates
    obtain ⟨action, said⟩ := Option.isSome_iff_exists.mp updates
    exact (onUpdate action said).1

end Field

theorem CompoundKey.isWritable_normal
    {key : CompoundKey} (isRead : key.IsRead) (confined : key.IsConfined) :
    key.normal.IsWritable where
  fields := fun item member =>
    (confined.fields item member).isMember (isRead.fields item member)
  name := isQuoted_whenFilled isRead.name confined.name

theorem Model.isWritable_normal
    {model : Model} {names : DeclaredNames} (isRead : model.IsRead)
    (wellFormed : model.WellFormed names) (confined : model.IsConfined) :
    model.normal.IsWritable := by
  have same : model.normal.fields.map (·.name) = model.fields.map (·.name) := by
    simp [normal, Field.normal, Function.comp_def]
  refine ⟨isRead.name, ?_, ?_, isQuoted_whenFilled isRead.tableName confined.tableName,
    ?_, ?_, ?_, isRead.documentation⟩
  · intro field member
    obtain ⟨original, inModel, rfl⟩ := List.mem_map.mp member
    exact Field.isWritable_normal (isRead.fields original inModel)
      (confined.fields original inModel) (wellFormed.fields original inModel).list
  · rw [HasDistinctFields, same]
    exact wellFormed.distinct
  · intro key member
    obtain ⟨original, own, rfl⟩ := Option.map_eq_some_iff.mp member
    exact CompoundKey.isWritable_normal (isRead.primaryKey original own)
      (confined.primaryKey original own)
  · intro key member
    obtain ⟨original, own, rfl⟩ := List.mem_map.mp member
    exact CompoundKey.isWritable_normal (isRead.uniqueIndexes original own)
      (confined.uniqueIndexes original own)
  · intro index member
    obtain ⟨closed, single⟩ := isRead.extraIndexes index member
    obtain ⟨written, balanced⟩ := confined.extraIndexes index member
    exact ⟨closed, single, written, balanced⟩

theorem SchemaEnum.isWritable_normal
    {enum : SchemaEnum} (isRead : enum.IsRead) (confined : enum.IsConfined) :
    enum.normal.IsWritable := by
  refine ⟨isRead.name, ?_, isQuoted_whenFilled isRead.storedName confined.storedName,
    isRead.documentation⟩
  intro value member
  obtain ⟨original, inEnum, rfl⟩ := List.mem_map.mp member
  obtain ⟨isName, single⟩ := isRead.values original inEnum
  exact ⟨isName, isQuoted_whenFilled single (confined.values original inEnum)⟩

theorem Datasource.isWritable_normal
    {datasource : Datasource} (isRead : datasource.IsRead)
    (provider : IsSilentInQuotes datasource.provider)
    (value : ∀ value ∈ datasource.url.value, IsSilentInQuotes value) :
    datasource.normal.IsWritable := by
  refine ⟨isRead.name, ⟨provider, isRead.provider⟩, ⟨?_, ?_, ?_⟩, isRead.properties⟩
  · intro text member
    have filled : text ∈ whenFilled datasource.url.value := by
      simp only [normal, ConnectionUrl.normal] at member
      split_ifs at member
      · contradiction
      · exact member
    obtain ⟨own, nonempty⟩ := mem_whenFilled.mp filled
    exact ⟨⟨value text own, isRead.value text own⟩, nonempty⟩
  · intro name member
    obtain ⟨own, nonempty⟩ := mem_whenFilled.mp member
    obtain ⟨plain, single⟩ := isRead.variableName name own
    exact ⟨plain, single, nonempty⟩
  · simp only [normal, ConnectionUrl.normal]
    by_cases named : Text.isSet datasource.url.variableName = true
    · exact Or.inl (if_pos named)
    · rw [← isSet_whenFilled] at named
      right
      cases found : whenFilled datasource.url.variableName with
      | none => rfl
      | some name =>
          have filled := (mem_whenFilled.mp found).2
          rw [found] at named
          cases name with
          | nil => contradiction
          | cons c rest => exact absurd rfl named

namespace Schema

variable {schema : Schema}

/-- A confined schema that was read is writable in its normal form. -/
theorem isWritable_normal
    (isRead : schema.IsRead) (wellFormed : schema.WellFormed)
    (confined : schema.IsConfined) : schema.normal.IsWritable := by
  constructor
  · intro model member
    obtain ⟨original, own, rfl⟩ := List.mem_map.mp member
    exact Model.isWritable_normal (isRead.models original own)
      (wellFormed.models original own) (confined.models original own)
  · intro enum member
    obtain ⟨original, own, rfl⟩ := List.mem_map.mp member
    exact SchemaEnum.isWritable_normal (isRead.enums original own)
      (confined.enums original own)
  · intro datasource member
    obtain ⟨original, own, rfl⟩ := List.mem_map.mp member
    obtain ⟨provider, value⟩ := confined.datasources original own
    exact Datasource.isWritable_normal (isRead.datasources original own) provider value
  · intro generator member
    obtain ⟨isName, single, properties⟩ := isRead.generators generator member
    exact ⟨isName, ⟨confined.generators generator member, single⟩, properties⟩

end Schema

end SchemaCompose
