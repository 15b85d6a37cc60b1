import SchemaCompose.Schema.Fault
import SchemaCompose.Schema.Basic
import SchemaCompose.Text.Lines

/-!
# Writing a schema

A schema is written section by section: datasources, generators, models, enums.
Each block has its documentation above it, its lines indented, and a blank line
between it and the next block.
-/

namespace SchemaCompose

/-- Text between double quotes. -/
def inQuotes (text : Text) : Text :=
  '"' :: text ++ ['"']

/-- The lines that say a documentation. -/
def documentationLines : Option Text → List Text
  | none => []
  | some documentation =>
    (Text.lines documentation).map fun line => Text.trimEnd ("/// " ++ line)

/-- A body line behind its indentation; a blank line has none. -/
def indented (line : Text) : Text :=
  if line.isEmpty then [] else "  " ++ line

/-- A whole block. Its text ends with a line feed. -/
def renderBlock (kind : BlockKind) (name : Text) (body : List Text)
    (documentation : Option Text := none) : Text :=
  Text.unlines
    (documentationLines documentation ++
      [kind.keyword ++ " " ++ name ++ " \x7b"] ++ body.map indented ++ [['}'], []])

/-- A comma-separated row. -/
def commaRow (items : List Text) : Text :=
  Text.join ", " items

/-- The line of one property. -/
def propertyLine (property : Text × Text) : Text :=
  property.1 ++ " = " ++ property.2

/-- The line that names a provider. -/
def providerLine (provider : Text) : Text :=
  "provider = " ++ inQuotes provider

namespace ConnectionUrl

/-- The line of a connection; a variable comes before a literal value. -/
def lines (url : ConnectionUrl) : List Text :=
  match url.variableName, url.value with
  | some (c :: name), _ => ["url = env(" ++ inQuotes (c :: name) ++ ")"]
  | _, some (c :: value) => ["url = " ++ inQuotes (c :: value)]
  | _, _ => []

end ConnectionUrl

namespace Datasource

/-- The block of a datasource. -/
def render (datasource : Datasource) : Text :=
  renderBlock .datasource datasource.name
    (providerLine datasource.provider ::
      (datasource.url.lines ++ datasource.properties.map propertyLine))

end Datasource

namespace Generator

/-- The block of a generator. -/
def render (generator : Generator) : Text :=
  renderBlock .generator generator.name
    (providerLine generator.provider :: generator.properties.map propertyLine)

end Generator

/-- What a setting contributes when its text is present and not empty. -/
def whenSet (setting : Option Text) (write : Text → Text) : List Text :=
  match setting with
  | some (c :: text) => [write (c :: text)]
  | _ => []

/-- What a mark contributes when it is set. -/
def whenMarked (mark : Bool) (text : Text) : List Text :=
  if mark then [text] else []

namespace Relation

/-- The arguments of a relation attribute. -/
def arguments (relation : Relation) : List Text :=
  whenSet relation.name inQuotes ++
    whenMarked (!relation.fields.isEmpty)
      ("fields: [" ++ commaRow relation.fields ++ "]") ++
    whenMarked (!relation.references.isEmpty)
      ("references: [" ++ commaRow relation.references ++ "]") ++
    whenSet relation.onDelete ("onDelete: " ++ ·)

end Relation

namespace Field

/-- The type of a field with its marks. -/
def typeText (field : Field) : Text :=
  if field.isList then field.type ++ "[]"
  else if field.isRequired then field.type
  else field.type ++ "?"

/-- The relation attribute of a field. A field without a relation has one only if
it is an object and says what an update does. -/
def relationText (field : Field) : List Text :=
  let updates := whenSet field.extras.onUpdate ("onUpdate: " ++ ·)
  match field.relation with
  | some relation =>
    ["@relation(" ++ commaRow (relation.arguments ++ updates) ++ ")"]
  | none =>
    if updates.isEmpty || field.kind ≠ .object then []
    else ["@relation(" ++ commaRow updates ++ ")"]

/-- The attributes of a field, in the order in which they are written. -/
def attributeTexts (field : Field) : List Text :=
  whenMarked field.isId "@id" ++
    whenMarked field.isUnique "@unique" ++
    field.default.toList.map (fun value : Text => "@default(" ++ value ++ ")") ++
    whenMarked field.isUpdatedAt "@updatedAt" ++
    whenSet field.extras.columnName (fun name => "@map(" ++ inQuotes name ++ ")") ++
    whenSet field.extras.nativeType ("@db." ++ ·) ++
    field.relationText

/-- The federation directives of a field, each written as a comment. -/
def directiveTexts (field : Field) : List Text :=
  whenMarked field.extras.shareable "//@shareable" ++
    whenMarked field.extras.inaccessible "//@inaccessible" ++
    whenMarked field.extras.external "//@external" ++
    whenMarked field.extras.requires "//@requires"

/-- The line of a field. -/
def render (field : Field) : Text :=
  Text.join " "
    (field.name :: field.typeText :: (field.attributeTexts ++ field.directiveTexts))

end Field

namespace CompoundKey

/-- A compound attribute of the given label. -/
def render (label : Text) (key : CompoundKey) : Text :=
  label ++ "([" ++ commaRow key.fields ++ "]" ++
    (whenSet key.name (fun name => ", name: " ++ inQuotes name)).flatten ++ ")"

end CompoundKey

namespace Model

/-- The lines of a model behind its fields. -/
def attributeLines (model : Model) : List Text :=
  (model.primaryKey.toList.map (CompoundKey.render "@@id")) ++
    model.uniqueIndexes.map (CompoundKey.render "@@unique") ++
    model.extraIndexes ++
    whenSet model.tableName (fun name => "@@map(" ++ inQuotes name ++ ")") ++
    whenMarked model.isStub "//@stub"

/-- The lines of a model's body. A blank line stands before its attributes. -/
def bodyLines (model : Model) : List Text :=
  (model.fields.flatMap fun field =>
      documentationLines field.documentation ++ [field.render]) ++
    (if model.attributeLines.isEmpty then [] else [] :: model.attributeLines)

/-- The block of a model. -/
def render (model : Model) : Text :=
  renderBlock .model model.name model.bodyLines model.documentation

end Model

namespace SchemaEnum

/-- The line of one value. -/
def valueLine (value : EnumValue) : Text :=
  Text.join " " (value.name ::
    whenSet value.storedName (fun name => "@map(" ++ inQuotes name ++ ")"))

/-- The block of an enum. -/
def render (enum : SchemaEnum) : Text :=
  renderBlock .enum enum.name
    (enum.values.map valueLine ++
      whenSet enum.storedName (fun name => "@@map(" ++ inQuotes name ++ ")"))
    enum.documentation

end SchemaEnum

namespace Schema

/-- The section of the datasources. -/
def renderDatasources (datasources : List Datasource) : Text :=
  Text.unlines (datasources.map Datasource.render)

/-- The section of the generators. -/
def renderGenerators (generators : List Generator) : Text :=
  Text.unlines (generators.map Generator.render)

/-- The section of the models. -/
def renderModels (models : List Model) : Text :=
  Text.unlines (models.map Model.render)

/-- The section of the enums. -/
def renderEnums (enums : List SchemaEnum) : Text :=
  Text.unlines (enums.map SchemaEnum.render)

/-- Every section that is not empty. -/
def render (schema : Schema) : Text :=
  Text.unlines
    ([renderDatasources schema.datasources, renderGenerators schema.generators,
      renderModels schema.models, renderEnums schema.enums].filter (!·.isEmpty))

end Schema

end SchemaCompose
