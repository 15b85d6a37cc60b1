import SchemaCompose.Registry
import SchemaCompose.Schema.Attribute
import SchemaCompose.Schema.Block

/-!
# Declarations

A block declares a model, an enum, a datasource or a generator.  The type of a
field is looked up among the models and enums of the whole document, wherever they
stand, and then among the built-in types.
-/

namespace SchemaCompose

/-- The types that need no declaration. -/
def builtInTypes : List Text :=
  ["String", "Boolean", "Int", "BigInt", "Float", "Decimal", "DateTime", "Json",
   "Bytes"]

/-- The names that the blocks of a document declare. -/
structure DeclaredNames where
  models : List Text
  enums : List Text
deriving DecidableEq, Repr, Inhabited

namespace DeclaredNames

/-- The names that a row of blocks declares. -/
def ofBlocks (blocks : List Block) : DeclaredNames where
  models := (blocks.filter (·.kind = .model)).map (·.name)
  enums := (blocks.filter (·.kind = .enum)).map (·.name)

/-- What a type stands for; none if it is unknown. -/
def kindOf? (names : DeclaredNames) (type : Text) : Option FieldKind :=
  if names.models.contains type then some .object
  else if names.enums.contains type then some .enum
  else if builtInTypes.contains type || Text.startsWith "Unsupported(" type then
    some .scalar
  else none

end DeclaredNames

/-- A field line before its attributes are read. -/
structure FieldLine where
  name : Text
  type : Text
  isList : Bool
  isOptional : Bool
  /-- What stands behind the type and its marks. -/
  attributes : Text
deriving DecidableEq, Repr, Inhabited

namespace FieldLine

/-- The unsupported type that a text starts with, with its quoted argument, and
what follows. -/
def unsupported? (text : Text) : Option (Text × Text) := do
  let behind ← Text.after? "Unsupported(\"" text
  let argument := behind.takeWhile (· ≠ '"')
  let behind ← Text.after? "\")" (behind.dropWhile (· ≠ '"'))
  return ("Unsupported(\"" ++ argument ++ "\")", behind)

/-- The type that a text starts with, and what follows it. -/
def type? (text : Text) : Option (Text × Text) :=
  unsupported? text <|> Text.identifier? text

/-- The parts of a field line; none if the line is no field. -/
def ofText? (content : Text) : Option FieldLine := do
  let (name, behind) ← Text.identifier? content
  guard (behind.head?.any Text.isBlank)
  let (type, behind) ← type? (Text.trimStart behind)
  let (isList, behind) :=
    match Text.after? "[]" behind with
    | some behind => (true, behind)
    | none => (false, behind)
  let (isOptional, behind) :=
    match Text.after? "?" behind with
    | some behind => (true, behind)
    | none => (false, behind)
  return { name, type, isList, isOptional, attributes := behind }

end FieldLine

namespace Field

/-- The field with what one more attribute says about it. -/
def withAttribute (field : Field) (source : Attribute) : Except Fault Field :=
  if source.name = "@id" then .ok { field with isId := true }
  else if source.name = "@unique" then .ok { field with isUnique := true }
  else if source.name = "@updatedAt" then .ok { field with isUpdatedAt := true }
  else if source.name = "@default" then
    .ok { field with default := source.arguments }
  else if source.name = "@relation" then
    source.relation.map fun relation => { field with relation := some relation }
  else .ok field

/-- The field that a line of a model declares. -/
def read (names : DeclaredNames) (documentation : Option Text) (content : Text) :
    Except Fault Field := do
  match FieldLine.ofText? content with
  | none => .error (.malformedField content)
  | some line =>
    match names.kindOf? line.type with
    | none => .error (.unknownType line.type)
    | some kind =>
      let bare : Field :=
        { name := line.name, type := line.type, kind, isList := line.isList
          isRequired := !line.isOptional && !line.isList, documentation }
      let attributes ← Attribute.scan line.attributes
      attributes.foldlM withAttribute bare

end Field

namespace Model

/-- The model read so far and the documentation lines that wait for a field. -/
structure Reading where
  model : Model
  documentation : List Text := []
deriving DecidableEq, Repr

/-- The model with what one block attribute says about it. -/
def withAttribute (model : Model) (source : Attribute) : Except Fault Model :=
  if source.name = "@@map" then
    source.positional.map fun name =>
      { model with tableName := some (Text.unquote name) }
  else if source.name = "@@id" then
    source.compoundKey.map fun key => { model with primaryKey := some key }
  else if source.name = "@@unique" then
    source.compoundKey.map fun key =>
      { model with
        uniqueFields := model.uniqueFields ++ [key.fields]
        uniqueIndexes := model.uniqueIndexes ++ [key] }
  else .ok model

/-- Read one more line of a model's body. -/
def Reading.step (names : DeclaredNames) (reading : Reading) (line : Line) :
    Except ParseError Reading :=
  match line.documentation? with
  | some text =>
    .ok { reading with documentation := reading.documentation ++ [text] }
  | none =>
    if line.code.isEmpty then .ok reading
    else if Text.startsWith "@@" line.code then
      atLine line.number do
        let attributes ← Attribute.scan line.code
        let model ← attributes.foldlM withAttribute reading.model
        return { model, documentation := [] }
    else
      atLine line.number do
        let field ← Field.read names
          (joinDocumentation reading.documentation) line.code
        if reading.model.fields.any (·.name = field.name) then
          .error (.repeatedField field.name reading.model.name)
        else
          return {
            model := { reading.model with
              fields := reading.model.fields ++ [field] }
            documentation := [] }

/-- The model that a block declares. -/
def ofBlock (names : DeclaredNames) (block : Block) : Except ParseError Model := do
  let start : Model := { name := block.name, documentation := block.documentation }
  let reading ← block.body.foldlM (Reading.step names) { model := start }
  return reading.model

end Model

namespace SchemaEnum

/-- The stored name that an attribute of the given name declares; it is kept from
before if there is none. -/
def storedNameFrom (mapping : Text) (before : Option Text) (source : Attribute) :
    Except Fault (Option Text) :=
  if source.name = mapping then
    source.positional.map fun name => some (Text.unquote name)
  else .ok before

/-- Read one more line of an enum's body. -/
def step (enum : SchemaEnum) (line : Line) : Except ParseError SchemaEnum :=
  if line.code.isEmpty then .ok enum
  else
    atLine line.number do
      if Text.startsWith "@@" line.code then
        let attributes ← Attribute.scan line.code
        let storedName ← attributes.foldlM (storedNameFrom "@@map") enum.storedName
        return { enum with storedName }
      else
        match Text.identifier? line.code with
        | none => .error (.malformedEnumValue line.code)
        | some (name, behind) =>
          let attributes ← Attribute.scan behind
          let storedName ← attributes.foldlM (storedNameFrom "@map") none
          return { enum with values := enum.values ++ [{ name, storedName }] }

/-- The enum that a block declares. -/
def ofBlock (block : Block) : Except ParseError SchemaEnum :=
  block.body.foldlM step
    { name := block.name, values := [], documentation := block.documentation }

end SchemaEnum

/-- The properties of a datasource or generator, in the order of first mention. -/
abbrev Properties := Registry Text Text

namespace Properties

/-- The key and the value of a property line. -/
def line? (content : Text) : Option (Text × Text) := do
  let (key, behind) ← Text.identifier? content
  match Text.trimStart behind with
  | '=' :: value =>
    match Text.trim value with
    | [] => none
    | value => some (key, value)
  | _ => none

/-- Read one more line of a configuration block. -/
def step (kind : BlockKind) (properties : Properties) (line : Line) :
    Except ParseError Properties :=
  if line.code.isEmpty then .ok properties
  else
    match line? line.code with
    | none => .error ⟨.malformedProperty kind line.code, line.number⟩
    | some (key, value) => .ok (properties.put key value)

/-- The properties of a block and its provider, which is required. -/
def ofBlock (block : Block) : Except ParseError (Text × Properties) := do
  let properties ← block.body.foldlM (step block.kind) []
  match properties.find? ("provider" : Text) with
  | none => .error ⟨.missingProvider block.kind block.name, block.line⟩
  | some provider => return (Text.unquote provider, properties.erase "provider")

end Properties

namespace ConnectionUrl

/-- The variable that an environment call names, if the value is such a call. -/
def environmentName? (value : Text) : Option Text := do
  let behind ← Text.after? "env(" value
  let behind ← Text.after? "\"" (Text.trimStart behind)
  let name := behind.takeWhile (· ≠ '"')
  let behind ← Text.after? "\"" (behind.dropWhile (· ≠ '"'))
  guard (!name.isEmpty && Text.trimStart behind = [')'])
  return name

/-- The connection that a property value gives. -/
def ofValue (value : Text) : ConnectionUrl :=
  match environmentName? value with
  | some name => { variableName := some name }
  | none => { value := some (Text.unquote value) }

end ConnectionUrl

namespace Datasource

/-- The datasource that a block declares. -/
def ofBlock (block : Block) : Except ParseError Datasource := do
  let (provider, properties) ← Properties.ofBlock block
  return {
    name := block.name
    provider
    url := ((properties.find? ("url" : Text)).map ConnectionUrl.ofValue).getD {}
    properties := properties.erase "url" }

end Datasource

namespace Generator

/-- The generator that a block declares. -/
def ofBlock (block : Block) : Except ParseError Generator := do
  let (provider, properties) ← Properties.ofBlock block
  return { name := block.name, provider, properties }

end Generator

end SchemaCompose
