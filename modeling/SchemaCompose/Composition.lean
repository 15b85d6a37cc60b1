import SchemaCompose.Merge.Model
import SchemaCompose.Merge.Selection
import SchemaCompose.Schema.Render

/-!
# Composing schemas

Several schemas are composed into one: models are merged by name, enums are taken
together, and one schema provides the datasources and one the generators.
-/

namespace SchemaCompose

namespace Schema

/-- The composition of a row of schemas. -/
def compose (schemas : List Schema) : Schema where
  models := Model.mergeAll (schemas.flatMap (·.models))
  enums := schemas.flatMap (·.enums)
  datasources := selectDatasources schemas
  generators := selectGenerators schemas

end Schema

/-- The first line of a generated file. -/
def generatedBanner : Text :=
  "// *** GENERATED BY SCHEMAMIX :: DO NOT EDIT ***"

/-- Written schemas behind the banner. -/
def withBanner (rendered : Text) : Text :=
  Text.unlines (generatedBanner :: if rendered.isEmpty then [] else [rendered])

namespace Schema

/-- The generated file of a schema. -/
def generatedFile (schema : Schema) : Text :=
  withBanner schema.render

end Schema

end SchemaCompose
