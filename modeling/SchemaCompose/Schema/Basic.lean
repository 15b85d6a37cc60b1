import SchemaCompose.Text.Basic

/-!
# Schemas

A schema declares models and enums, and configures datasources and generators.  A
model is a list of fields with keys and constraints over them.  One part of a field
and of a model is declared by attributes that are recovered separately from the
document; for fields it is kept together as `FieldExtras`.
-/

namespace SchemaCompose

/-- What a field's type names within its own schema. -/
inductive FieldKind where
  | scalar
  | object
  | enum
deriving DecidableEq, Repr, Inhabited

/-- The arguments of a relation attribute. -/
structure Relation where
  name : Option Text := none
  fields : List Text := []
  references : List Text := []
  onDelete : Option Text := none
deriving DecidableEq, Repr, Inhabited

/-- The attributes of a field that are recovered from the document's lines. -/
structure FieldExtras where
  /-- The name of the column that stores the field. -/
  columnName : Option Text := none
  /-- The native type of the column, with its arguments. -/
  nativeType : Option Text := none
  /-- What an update of the referenced key does. -/
  onUpdate : Option Text := none
  shareable : Bool := false
  inaccessible : Bool := false
  external : Bool := false
  requires : Bool := false
deriving DecidableEq, Repr, Inhabited

/-- One field of a model. -/
structure Field where
  name : Text
  type : Text
  kind : FieldKind := .scalar
  isList : Bool := false
  isRequired : Bool := true
  isId : Bool := false
  isUnique : Bool := false
  isUpdatedAt : Bool := false
  default : Option Text := none
  relation : Option Relation := none
  documentation : Option Text := none
  extras : FieldExtras := {}
deriving DecidableEq, Repr, Inhabited

/-- A key or constraint over several fields of a model. -/
structure CompoundKey where
  fields : List Text
  name : Option Text := none
deriving DecidableEq, Repr, Inhabited

/-- One model: the unit that is merged across documents by name. -/
structure Model where
  name : Text
  fields : List Field := []
  /-- The name of the table that stores the model. -/
  tableName : Option Text := none
  primaryKey : Option CompoundKey := none
  /-- The field lists of the unique constraints. -/
  uniqueFields : List (List Text) := []
  uniqueIndexes : List CompoundKey := []
  /-- The index attributes, as they are written. -/
  extraIndexes : List Text := []
  /-- The model only stands in for one that another document defines. -/
  isStub : Bool := false
  documentation : Option Text := none
deriving DecidableEq, Repr, Inhabited

namespace Model

/-- The first field of a given name. -/
def fieldNamed? (model : Model) (name : Text) : Option Field :=
  model.fields.find? fun field => field.name = name

end Model

/-- One value of an enum. -/
structure EnumValue where
  name : Text
  /-- The name that stores the value. -/
  storedName : Option Text := none
deriving DecidableEq, Repr, Inhabited

/-- One enum. -/
structure SchemaEnum where
  name : Text
  values : List EnumValue
  /-- The name that stores the enum. -/
  storedName : Option Text := none
  documentation : Option Text := none
deriving DecidableEq, Repr, Inhabited

/-- A connection: given literally, or by the environment variable that holds it. -/
structure ConnectionUrl where
  value : Option Text := none
  variableName : Option Text := none
deriving DecidableEq, Repr, Inhabited

namespace ConnectionUrl

/-- The connection names a value or a variable. -/
def isPopulated (url : ConnectionUrl) : Bool :=
  Text.isSet url.value || Text.isSet url.variableName

end ConnectionUrl

/-- One datasource, with the properties that are neither its provider nor its
connection. -/
structure Datasource where
  name : Text
  provider : Text
  url : ConnectionUrl := {}
  properties : List (Text × Text) := []
deriving DecidableEq, Repr, Inhabited

/-- One generator, with the properties that are not its provider. -/
structure Generator where
  name : Text
  provider : Text
  properties : List (Text × Text) := []
deriving DecidableEq, Repr, Inhabited

/-- The declarations of one document, or of several composed. -/
structure Schema where
  models : List Model := []
  enums : List SchemaEnum := []
  datasources : List Datasource := []
  generators : List Generator := []
deriving DecidableEq, Repr, Inhabited

end SchemaCompose
