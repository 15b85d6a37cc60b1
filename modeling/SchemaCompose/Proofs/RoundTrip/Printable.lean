import Mathlib.Data.List.Infix
import SchemaCompose.Mining.Pattern
import SchemaCompose.Proofs.Reading.Resolution
import SchemaCompose.Proofs.Schema.Arguments
import SchemaCompose.Proofs.Schema.Attributes

/-!
# Printable schemas

A schema is printable when everything it holds can be told apart again in its
generated file: names are identifiers, quoted texts hold no quotes, what is written
between parentheses is balanced, documentation is made of trimmed lines, and no
text of a model looks like one of the attributes that are recovered from lines by
their shape.  Everything here can be decided.
-/

namespace SchemaCompose

/-! ## Texts -/

/-- Text that stands between double quotes on one line. -/
@[mk_iff]
structure IsLiteral (text : Text) : Prop where
  quotable : Quotable text
  single : Text.IsLine text
  filled : text ≠ []

instance : DecidablePred IsLiteral := fun text =>
  decidable_of_iff' _ (isLiteral_iff text)

/-- No attribute and no action on update can be seen in the text. -/
@[mk_iff]
structure IsQuiet (text : Text) : Prop where
  unmarked : '@' ∉ text
  inactive : ¬ "onUpdate:".toList <:+: text

instance : DecidablePred IsQuiet := fun text =>
  decidable_of_iff' _ (isQuiet_iff text)

/-- Text that stands between the parentheses of an attribute on one line. -/
@[mk_iff]
structure IsEnclosed (text : Text) : Prop where
  balanced : Balanced text
  single : Text.IsLine text

instance : DecidablePred IsEnclosed := fun text =>
  decidable_of_iff' _ (isEnclosed_iff text)

/-- Documentation that is the same when its lines are trimmed. -/
@[mk_iff]
structure IsDocumentation (text : Text) : Prop where
  filled : text ≠ []
  closed : Text.unlines (Text.lines text) = text
  trimmed : ∀ line ∈ Text.lines text, Text.IsTrimmed line

instance : DecidablePred IsDocumentation := fun text =>
  decidable_of_iff' _ (isDocumentation_iff text)

/-! ## Fields -/

/-- The argument of an unsupported type. -/
def unsupportedArgument (type : Text) : Text :=
  (type.drop "Unsupported(\"".length).dropLast.dropLast

/-- A type that is a name or is written with its database name. -/
def IsTypeText (type : Text) : Prop :=
  Text.IsName type ∨
    type = "Unsupported(" ++ inQuotes (unsupportedArgument type) ++ ")" ∧
      IsLiteral (unsupportedArgument type) ∧ IsQuiet (unsupportedArgument type)

instance : DecidablePred IsTypeText := fun type => by
  unfold IsTypeText
  infer_instance

/-- The attribute that declares a native type. -/
def nativeAttribute (type : Text) : Attribute where
  name := "@db." ++ type.takeWhile Text.isWord
  arguments :=
    match type.dropWhile Text.isWord with
    | [] => none
    | _ :: behind => some behind.dropLast

/-- A native type is a word, with or without arguments that hold no closing
parenthesis. -/
@[mk_iff]
structure IsNativeType (type : Text) : Prop where
  named : type.takeWhile Text.isWord ≠ []
  written : (nativeAttribute type).write = "@db." ++ type
  arguments :
    ∀ inner ∈ (nativeAttribute type).arguments, IsEnclosed inner ∧
      IsQuiet inner ∧ ')' ∉ inner

instance : DecidablePred IsNativeType := fun type =>
  decidable_of_iff' _ (isNativeType_iff type)

/-- Every name in a relation can be written. -/
@[mk_iff]
structure Relation.IsPrintable (relation : Relation) : Prop where
  name : ∀ name ∈ relation.name, IsLiteral name ∧ IsQuiet name
  fields : ∀ item ∈ relation.fields, Arguments.IsItem item
  references : ∀ item ∈ relation.references, Arguments.IsItem item
  onDelete : ∀ action ∈ relation.onDelete, Arguments.IsItem action

instance : DecidablePred Relation.IsPrintable := fun relation =>
  decidable_of_iff' _ relation.isPrintable_iff

theorem Mining.isItem_of_mem_relationActions :
    ∀ action ∈ relationActions, Arguments.IsItem action := by
  decide

/-- Every attribute that is recovered from a field's line can be written. An action
on update stands in the relation of its field. -/
@[mk_iff]
structure FieldExtras.IsPrintable (extras : FieldExtras) : Prop where
  columnName : ∀ name ∈ extras.columnName, IsLiteral name ∧ IsQuiet name
  nativeType : ∀ type ∈ extras.nativeType, IsNativeType type
  onUpdate : ∀ action ∈ extras.onUpdate, action ∈ Mining.relationActions

instance : DecidablePred FieldExtras.IsPrintable := fun extras =>
  decidable_of_iff' _ extras.isPrintable_iff

/-- The line of the field can be read back where the given names are declared. -/
@[mk_iff]
structure Field.IsPrintable (names : DeclaredNames) (field : Field) : Prop where
  name : Text.IsName field.name
  type : IsTypeText field.type
  kind : names.kindOf? field.type = some field.kind
  list : field.isList = true → field.isRequired = false
  default : ∀ value ∈ field.default, IsEnclosed value ∧ Text.IsTrimmed value ∧
      IsQuiet value
  relation : ∀ relation ∈ field.relation, relation.IsPrintable
  documentation : ∀ text ∈ field.documentation, IsDocumentation text
  extras : field.extras.IsPrintable
  onUpdate : field.extras.onUpdate.isSome → field.relation.isSome

instance (names : DeclaredNames) :
    DecidablePred (Field.IsPrintable names) := fun field =>
  decidable_of_iff' _ (Field.isPrintable_iff names field)

/-! ## Models and enums -/

/-- Every name in a key can be written. -/
@[mk_iff]
structure CompoundKey.IsPrintable (key : CompoundKey) : Prop where
  fields : ∀ item ∈ key.fields, Arguments.IsItem item
  name : ∀ name ∈ key.name, IsLiteral name ∧ IsQuiet name

instance : DecidablePred CompoundKey.IsPrintable := fun key =>
  decidable_of_iff' _ key.isPrintable_iff

/-- The attribute that declares an index. -/
def indexAttribute (index : Text) : Attribute where
  name := "@@index"
  arguments := some (index.drop "@@index(".length).dropLast

/-- An index is one index attribute. -/
@[mk_iff]
structure IsIndex (index : Text) : Prop where
  written : (indexAttribute index).write = index
  arguments : ∀ inner ∈ (indexAttribute index).arguments, IsEnclosed inner

instance : DecidablePred IsIndex := fun index =>
  decidable_of_iff' _ (isIndex_iff index)

/-- The block of the model can be read back where the given names are declared. -/
@[mk_iff]
structure Model.IsPrintable (names : DeclaredNames) (model : Model) : Prop where
  name : Text.IsName model.name
  fields : ∀ field ∈ model.fields, field.IsPrintable names
  distinct : model.HasDistinctFields
  tableName : ∀ name ∈ model.tableName, IsLiteral name ∧ IsQuiet name
  primaryKey : ∀ key ∈ model.primaryKey, key.IsPrintable
  unique : model.uniqueFields = model.uniqueIndexes.map (·.fields)
  uniqueIndexes : ∀ key ∈ model.uniqueIndexes, key.IsPrintable
  extraIndexes : ∀ index ∈ model.extraIndexes, IsIndex index
  documentation : ∀ text ∈ model.documentation, IsDocumentation text

instance (names : DeclaredNames) :
    DecidablePred (Model.IsPrintable names) := fun model =>
  decidable_of_iff' _ (Model.isPrintable_iff names model)

/-- The line of an enum's value can be read back. -/
@[mk_iff]
structure EnumValue.IsPrintable (value : EnumValue) : Prop where
  name : Text.IsName value.name
  storedName : ∀ name ∈ value.storedName, IsLiteral name

instance : DecidablePred EnumValue.IsPrintable := fun value =>
  decidable_of_iff' _ value.isPrintable_iff

/-- The block of the enum can be read back. -/
@[mk_iff]
structure SchemaEnum.IsPrintable (enum : SchemaEnum) : Prop where
  name : Text.IsName enum.name
  values : ∀ value ∈ enum.values, value.IsPrintable
  storedName : ∀ name ∈ enum.storedName, IsLiteral name
  documentation : ∀ text ∈ enum.documentation, IsDocumentation text

instance : DecidablePred SchemaEnum.IsPrintable := fun enum =>
  decidable_of_iff' _ enum.isPrintable_iff

/-! ## Datasources and generators -/

/-- A property can be read back: its key is a name, and its value holds no
comment. -/
@[mk_iff]
structure IsProperty (property : Text × Text) : Prop where
  key : Text.IsName property.1
  filled : property.2 ≠ []
  trimmed : Text.IsTrimmed property.2
  single : Text.IsLine property.2
  silent : Text.beforeComment .outside property.2 = property.2

instance : DecidablePred IsProperty := fun property =>
  decidable_of_iff' _ (isProperty_iff property)

/-- The properties of a block can be read back behind the properties of the given
keys. -/
@[mk_iff]
structure ArePrintable (before : List Text)
    (properties : List (Text × Text)) : Prop where
  each : ∀ property ∈ properties, IsProperty property
  distinct : (before ++ properties.map (·.1)).Nodup

instance (before : List Text) :
    DecidablePred (ArePrintable before) := fun properties =>
  decidable_of_iff' _ (arePrintable_iff before properties)

/-- A connection can be read back: it is given in at most one of the two ways. -/
@[mk_iff]
structure ConnectionUrl.IsPrintable (url : ConnectionUrl) : Prop where
  value : ∀ value ∈ url.value, IsLiteral value
  variableName : ∀ name ∈ url.variableName, IsLiteral name
  single : url.value = none ∨ url.variableName = none

instance : DecidablePred ConnectionUrl.IsPrintable := fun url =>
  decidable_of_iff' _ url.isPrintable_iff

/-- The block of the datasource can be read back. -/
@[mk_iff]
structure Datasource.IsPrintable (datasource : Datasource) : Prop where
  name : Text.IsName datasource.name
  provider : Quotable datasource.provider ∧ Text.IsLine datasource.provider
  url : datasource.url.IsPrintable
  properties : ArePrintable ["provider", "url"] datasource.properties

instance : DecidablePred Datasource.IsPrintable := fun datasource =>
  decidable_of_iff' _ datasource.isPrintable_iff

/-- The block of the generator can be read back. -/
@[mk_iff]
structure Generator.IsPrintable (generator : Generator) : Prop where
  name : Text.IsName generator.name
  provider : Quotable generator.provider ∧ Text.IsLine generator.provider
  properties : ArePrintable ["provider"] generator.properties

instance : DecidablePred Generator.IsPrintable := fun generator =>
  decidable_of_iff' _ generator.isPrintable_iff

/-! ## Schemas -/

/-- The generated file of the schema can be read back. -/
@[mk_iff]
structure Schema.IsPrintable (schema : Schema) : Prop where
  models : ∀ model ∈ schema.models, model.IsPrintable schema.names
  enums : ∀ enum ∈ schema.enums, enum.IsPrintable
  datasources : ∀ datasource ∈ schema.datasources, datasource.IsPrintable
  generators : ∀ generator ∈ schema.generators, generator.IsPrintable
  distinct : (schema.names.models ++ schema.names.enums).Nodup
  connected :
    schema.datasources = [] ∨
      ∃ datasource ∈ schema.datasources, datasource.url.isPopulated = true

instance : DecidablePred Schema.IsPrintable := fun schema =>
  decidable_of_iff' _ schema.isPrintable_iff

/-! ## What is read back -/

/-- The relation that is read back. A name with a colon is taken for a keyed
argument and lost. -/
def Relation.readBack (relation : Relation) : Relation :=
  { relation with name := relation.name.filter (!·.contains ':') }

/-- The field that is read back. -/
def Field.readBack (field : Field) : Field :=
  { field with relation := field.relation.map Relation.readBack }

/-- The model that is read back. -/
def Model.readBack (model : Model) : Model :=
  { model with fields := model.fields.map Field.readBack }

/-- The schema that is read back from the generated file of a schema. -/
def Schema.readBack (schema : Schema) : Schema :=
  { schema with models := schema.models.map Model.readBack }

end SchemaCompose
