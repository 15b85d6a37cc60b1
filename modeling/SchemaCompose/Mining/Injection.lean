import SchemaCompose.Mining.Basic
import SchemaCompose.Schema.Parse

/-!
# Mined attributes on models

Whatever was recovered for a field or a model takes the place of what it carried
before; where nothing was recovered, nothing is left.
-/

namespace SchemaCompose

namespace Field

/-- The field with the attributes recovered for it. -/
def inject (mined : Registry Text FieldExtras) (field : Field) : Field :=
  { field with extras := (mined.find? field.name).getD {} }

end Field

namespace Model

/-- The model with the attributes recovered for it. -/
def inject (mined : Mined) (model : Model) : Model :=
  let own := (mined.find? model.name).getD {}
  { model with
    fields := model.fields.map (Field.inject own.fields)
    extraIndexes := own.extraIndexes
    isStub := own.isStub }

end Model

namespace Schema

/-- The schema of a document with every attribute that the document declares. -/
def ofDocument (text : Text) : Except ParseError Schema :=
  (parse text).map fun schema =>
    { schema with models := schema.models.map (Model.inject (Mining.ofText text)) }

end Schema

end SchemaCompose
