import SchemaCompose.Proofs.Mining.Search
import SchemaCompose.Proofs.RoundTrip.Printable

/-!
# Writable schemas

A schema is writable when its generated file is accepted: names are identifiers,
types are known, quoted texts stay between their quotes, and what stands between
brackets closes there.  This asks for less than printability does.  What is read
from the file (`Schema.reread`) may differ from what was written: documentation loses
empty lines at its end, a list an empty last member, a value its quotes, and a relation
a name with a colon.
-/

namespace SchemaCompose

/-! ## Texts -/

/-- Text that stays between double quotes, on one line. -/
structure IsQuoted (text : Text) : Prop where
  contained : IsContained text
  single : Text.IsLine text

theorem IsLiteral.isQuoted {text : Text} (literal : IsLiteral text) : IsQuoted text :=
  ⟨literal.quotable.isContained, literal.single⟩

/-- Documentation with nothing around its lines. -/
def IsDocumented (text : Text) : Prop :=
  ∀ line ∈ Text.lines text, Text.IsTrimmed line

/-- The lines of a documentation. -/
def documentationTexts : Option Text → List Text
  | none => []
  | some documentation => Text.lines documentation

/-- The documentation that is read from the rows of a documentation. -/
def rereadDocumentation (documentation : Option Text) : Option Text :=
  joinDocumentation (documentationTexts documentation)

/-! ## Fields -/

/-- A type that is a name or is written with a quoted argument. -/
def IsWritableType (type : Text) : Prop :=
  Text.IsName type ∨
    type = "Unsupported(" ++ inQuotes (unsupportedArgument type) ++ ")" ∧
      IsDelimited (unsupportedArgument type) ∧ Text.IsLine (unsupportedArgument type)

/-- A native type is a word, with or without arguments that close at the first
closing parenthesis. -/
structure IsWritableNativeType (type : Text) : Prop where
  named : type.takeWhile Text.isWord ≠ []
  written : (nativeAttribute type).write = "@db." ++ type
  arguments :
    ∀ inner ∈ (nativeAttribute type).arguments, IsEnclosed inner ∧ ')' ∉ inner

theorem IsWritableNativeType.filled {type : Text}
    (writable : IsWritableNativeType type) : type ≠ [] := by
  rintro rfl
  exact writable.named rfl

/-- The arguments of the relation are read one by one. -/
structure Relation.IsWritable (relation : Relation) : Prop where
  name : ∀ name ∈ relation.name, IsQuoted name ∧ name ≠ []
  fields : ∀ item ∈ relation.fields, Arguments.IsMember item
  references : ∀ item ∈ relation.references, Arguments.IsMember item
  onDelete : ∀ action ∈ relation.onDelete, Arguments.IsValue action ∧ action ≠ []

/-- The attributes that are recovered from a field's line are scanned as they are
written. -/
structure FieldExtras.IsWritable (extras : FieldExtras) : Prop where
  columnName :
    ∀ name ∈ extras.columnName, IsDelimited name ∧ Text.IsLine name ∧ name ≠ []
  nativeType : ∀ type ∈ extras.nativeType, IsWritableNativeType type
  onUpdate : ∀ action ∈ extras.onUpdate, action ∈ Mining.relationActions

/-- The line of the field is accepted where its type is known. -/
structure Field.IsWritable (field : Field) : Prop where
  name : Text.IsName field.name
  type : IsWritableType field.type
  list : field.isList = true → field.isRequired = false
  default : ∀ value ∈ field.default, IsEnclosed value ∧ Text.IsTrimmed value
  relation : ∀ relation ∈ field.relation, relation.IsWritable
  documentation : ∀ text ∈ field.documentation, IsDocumented text
  extras : field.extras.IsWritable
  onUpdate : field.extras.onUpdate.isSome → field.relation.isSome

/-- The kind of the field is what its type is among the given names. -/
def Field.IsResolved (names : DeclaredNames) (field : Field) : Prop :=
  names.kindOf? field.type = some field.kind

/-! ## Models and enums -/

/-- The arguments of the key are read one by one. -/
structure CompoundKey.IsWritable (key : CompoundKey) : Prop where
  fields : ∀ item ∈ key.fields, Arguments.IsMember item
  name : ∀ name ∈ key.name, IsQuoted name ∧ name ≠ []

/-- A row that runs from an index attribute to a closing parenthesis and holds no
other attribute: behind the index there may be a comment. -/
structure IsIndexRow (index : Text) : Prop where
  closed : (indexAttribute index).write = index
  single : Text.IsLine index
  written : (indexAttribute (Text.code index)).write = Text.code index
  balanced : ∀ inner ∈ (indexAttribute (Text.code index)).arguments, Balanced inner

/-- The block of the model is accepted where its types are known. -/
structure Model.IsWritable (model : Model) : Prop where
  name : Text.IsName model.name
  fields : ∀ field ∈ model.fields, field.IsWritable
  distinct : model.HasDistinctFields
  tableName : ∀ name ∈ model.tableName, IsQuoted name ∧ name ≠ []
  primaryKey : ∀ key ∈ model.primaryKey, key.IsWritable
  uniqueIndexes : ∀ key ∈ model.uniqueIndexes, key.IsWritable
  extraIndexes : ∀ index ∈ model.extraIndexes, IsIndexRow index
  documentation : ∀ text ∈ model.documentation, IsDocumented text

/-- The kinds of the fields are what their types are among the given names. -/
def Model.IsResolved (names : DeclaredNames) (model : Model) : Prop :=
  ∀ field ∈ model.fields, field.IsResolved names

/-- The line of an enum's value is accepted. -/
structure EnumValue.IsWritable (value : EnumValue) : Prop where
  name : Text.IsName value.name
  storedName : ∀ name ∈ value.storedName, IsQuoted name ∧ name ≠ []

/-- The block of the enum is accepted. -/
structure SchemaEnum.IsWritable (enum : SchemaEnum) : Prop where
  name : Text.IsName enum.name
  values : ∀ value ∈ enum.values, value.IsWritable
  storedName : ∀ name ∈ enum.storedName, IsQuoted name ∧ name ≠ []
  documentation : ∀ text ∈ enum.documentation, IsDocumented text

/-! ## Datasources and generators -/

/-- Text between double quotes in which no comment begins, even if it holds quotes
itself. -/
structure IsSettingText (text : Text) : Prop where
  silent : Text.beforeComment .outside (inQuotes text) = inQuotes text
  single : Text.IsLine text

/-- The properties of a connection are accepted: it is given in at most one of the
two ways. -/
structure ConnectionUrl.IsWritable (url : ConnectionUrl) : Prop where
  value : ∀ value ∈ url.value, IsSettingText value ∧ value ≠ []
  variableName : ∀ name ∈ url.variableName, '"' ∉ name ∧ Text.IsLine name ∧ name ≠ []
  single : url.value = none ∨ url.variableName = none

/-- The block of the datasource is accepted. -/
structure Datasource.IsWritable (datasource : Datasource) : Prop where
  name : Text.IsName datasource.name
  provider : IsSettingText datasource.provider
  url : datasource.url.IsWritable
  properties : ArePrintable ["provider", "url"] datasource.properties

/-- The block of the generator is accepted. -/
structure Generator.IsWritable (generator : Generator) : Prop where
  name : Text.IsName generator.name
  provider : IsSettingText generator.provider
  properties : ArePrintable ["provider"] generator.properties

/-! ## Schemas -/

/-- Every block of the generated file is accepted where its types are known. -/
structure Schema.IsWritable (schema : Schema) : Prop where
  models : ∀ model ∈ schema.models, model.IsWritable
  enums : ∀ enum ∈ schema.enums, enum.IsWritable
  datasources : ∀ datasource ∈ schema.datasources, datasource.IsWritable
  generators : ∀ generator ∈ schema.generators, generator.IsWritable

/-! ## Silent schemas -/

/-- No argument of the relation looks like an attribute that is recovered by its
shape. -/
@[mk_iff]
structure Relation.IsSilent (relation : Relation) : Prop where
  name : ∀ name ∈ relation.name, Mining.IsInert name
  fields : ∀ item ∈ relation.fields, Mining.IsInert item
  references : ∀ item ∈ relation.references, Mining.IsInert item
  onDelete : ∀ action ∈ relation.onDelete, Mining.IsInert action

instance : DecidablePred Relation.IsSilent := fun relation =>
  decidable_of_iff' _ relation.isSilent_iff

/-- Nothing in the line of the field looks like an attribute that it does not
have. -/
@[mk_iff]
structure Field.IsSilent (field : Field) : Prop where
  type : Mining.IsInert field.type
  default : ∀ value ∈ field.default, Mining.IsInert value
  relation : ∀ relation ∈ field.relation, relation.IsSilent
  columnName : ∀ name ∈ field.extras.columnName, Mining.IsInert name
  nativeType : ∀ type ∈ field.extras.nativeType, Mining.IsInert type

instance : DecidablePred Field.IsSilent := fun field =>
  decidable_of_iff' _ field.isSilent_iff

/-- No argument of the key looks like an attribute that is recovered by its
shape. -/
@[mk_iff]
structure CompoundKey.IsSilent (key : CompoundKey) : Prop where
  fields : ∀ item ∈ key.fields, Mining.IsInert item
  name : ∀ name ∈ key.name, Mining.IsInert name

instance : DecidablePred CompoundKey.IsSilent := fun key =>
  decidable_of_iff' _ key.isSilent_iff

/-- Nothing in the block of the model looks like an attribute that it does not
have. -/
@[mk_iff]
structure Model.IsSilent (model : Model) : Prop where
  fields : ∀ field ∈ model.fields, field.IsSilent
  tableName : ∀ name ∈ model.tableName, Mining.IsInert name
  primaryKey : ∀ key ∈ model.primaryKey, key.IsSilent
  uniqueIndexes : ∀ key ∈ model.uniqueIndexes, key.IsSilent

instance : DecidablePred Model.IsSilent := fun model =>
  decidable_of_iff' _ model.isSilent_iff

/-! ## What is read again -/

/-- The relation that is read again. -/
def Relation.reread (relation : Relation) : Relation where
  name := relation.name.filter (!·.contains ':')
  fields := Arguments.withoutEmptyLast relation.fields
  references := Arguments.withoutEmptyLast relation.references
  onDelete := relation.onDelete.map Text.unquote

/-- The field that is read again. -/
def Field.reread (field : Field) : Field :=
  { field with
    relation := field.relation.map Relation.reread
    documentation := rereadDocumentation field.documentation }

/-- The key that is read again. -/
def CompoundKey.reread (key : CompoundKey) : CompoundKey :=
  { key with fields := Arguments.withoutEmptyLast key.fields }

/-- The model that is read again. -/
def Model.reread (model : Model) : Model :=
  { model with
    fields := model.fields.map Field.reread
    primaryKey := model.primaryKey.map CompoundKey.reread
    uniqueFields := model.uniqueIndexes.map (·.reread.fields)
    uniqueIndexes := model.uniqueIndexes.map CompoundKey.reread
    documentation := rereadDocumentation model.documentation }

/-- The enum that is read again. -/
def SchemaEnum.reread (enum : SchemaEnum) : SchemaEnum :=
  { enum with documentation := rereadDocumentation enum.documentation }

/-- The connection that is read again. -/
def ConnectionUrl.reread (url : ConnectionUrl) : ConnectionUrl :=
  { url with value := url.value.map Text.unquote.unescapeQuotes }

/-- The datasource that is read again. -/
def Datasource.reread (datasource : Datasource) : Datasource :=
  { datasource with
    provider := Text.unquote.unescapeQuotes datasource.provider
    url := datasource.url.reread }

/-- The generator that is read again. -/
def Generator.reread (generator : Generator) : Generator :=
  { generator with provider := Text.unquote.unescapeQuotes generator.provider }

/-- The schema that is read from the generated file of a schema. -/
def Schema.reread (schema : Schema) : Schema where
  models := schema.models.map Model.reread
  enums := schema.enums.map SchemaEnum.reread
  datasources := schema.datasources.map Datasource.reread
  generators := schema.generators.map Generator.reread

end SchemaCompose
