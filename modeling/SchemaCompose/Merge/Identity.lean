import SchemaCompose.Schema.Basic

/-!
# Identities of a model

An identity is a row of fields whose values tell the rows of a model apart.
-/

namespace SchemaCompose.Model

/-- Every identity of a model: its compound primary key, each compound unique
constraint, and each field that is both required and unique. -/
def identities (model : Model) : List (List Text) :=
  (model.primaryKey.toList.map (·.fields)).filter (!·.isEmpty) ++
    model.uniqueFields ++
    (model.fields.filter fun field => field.isRequired && field.isUnique).map
      ([·.name])

end SchemaCompose.Model
