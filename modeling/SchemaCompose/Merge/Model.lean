import SchemaCompose.Schema.Basic

/-!
# Merging models

Models of one name are merged into one.  A field of a later declaration takes the
place of the field of that name, and a new field goes to the end; names of tables,
keys and documentation keep the first value; constraints and indexes accumulate;
and a model stays a stub only while every declaration is one.
-/

namespace SchemaCompose

/-- The first of two settings that is present and not empty; if neither is, the
second. -/
def firstSet (earlier later : Option Text) : Option Text :=
  if Text.isSet earlier then earlier else later

namespace Field

/-- The fields with the last one of the new field's name replaced by it; none if
there is no such field. -/
def replaceLast (fields : List Field) (incoming : Field) : Option (List Field) :=
  match fields with
  | [] => none
  | field :: rest =>
    match replaceLast rest incoming with
    | some replaced => some (field :: replaced)
    | none => if field.name = incoming.name then some (incoming :: rest) else none

/-- The fields with one more declaration taken in. -/
def takeIn (fields : List Field) (incoming : Field) : List Field :=
  (replaceLast fields incoming).getD (fields ++ [incoming])

/-- The declaration changes the field of its name. -/
def changes (fields : List Field) (incoming : Field) : Bool :=
  (fields.reverse.find? (·.name = incoming.name)).any (· ≠ incoming)

end Field

namespace Model

/-- The model with a later declaration of it merged in. -/
def merge (base incoming : Model) : Model where
  name := base.name
  fields := incoming.fields.foldl Field.takeIn base.fields
  tableName := firstSet base.tableName incoming.tableName
  primaryKey := base.primaryKey <|> incoming.primaryKey
  uniqueFields := base.uniqueFields ++ incoming.uniqueFields
  uniqueIndexes := base.uniqueIndexes ++ incoming.uniqueIndexes
  extraIndexes := base.extraIndexes ++ incoming.extraIndexes
  isStub := base.isStub && incoming.isStub
  documentation := firstSet base.documentation incoming.documentation

/-- The names of the fields that a row of declarations changes, in order, starting
from some fields. -/
def changedFields (fields : List Field) : List Field → List Text
  | [] => []
  | incoming :: rest =>
    let others := changedFields (Field.takeIn fields incoming) rest
    if Field.changes fields incoming then incoming.name :: others else others

/-- The models with one more declaration taken in: merged with the model of its
name, or else put at the end. -/
def takeIn (models : List Model) (incoming : Model) : List Model :=
  match models with
  | [] => [incoming]
  | model :: rest =>
    if model.name = incoming.name then model.merge incoming :: rest
    else model :: takeIn rest incoming

/-- One model for each name, in the order in which the names first appear. -/
def mergeAll (models : List Model) : List Model :=
  models.foldl takeIn []

/-- The fields that taking in a declaration changes: none if its model is new. -/
def changedBy (models : List Model) (incoming : Model) : List Text :=
  match models.find? (·.name = incoming.name) with
  | some base => changedFields base.fields incoming.fields
  | none => []

/-- The model and the name of every field that is changed while a row of
declarations is merged into some models, in order. -/
def replacements (models : List Model) : List Model → List (Text × Text)
  | [] => []
  | incoming :: rest =>
    (changedBy models incoming).map (incoming.name, ·) ++
      replacements (takeIn models incoming) rest

end Model

end SchemaCompose
