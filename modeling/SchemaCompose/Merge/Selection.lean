import SchemaCompose.Schema.Basic

/-!
# Selecting configuration blocks

Datasources and generators are not merged: one document provides them all.
-/

namespace SchemaCompose

/-- The last candidate that is not empty and is accepted; nothing if there is
none. -/
def lastAccepted {α : Type} (accept : List α → Bool)
    (candidates : List (List α)) : List α :=
  candidates.foldl (fun selected candidate =>
    if !candidate.isEmpty && accept candidate then candidate else selected) []

namespace Schema

/-- The datasources of the last schema that names a connection. -/
def selectDatasources (schemas : List Schema) : List Datasource :=
  lastAccepted (·.any (·.url.isPopulated)) (schemas.map (·.datasources))

/-- The generators of the last schema that has any. -/
def selectGenerators (schemas : List Schema) : List Generator :=
  lastAccepted (fun _ => true) (schemas.map (·.generators))

end Schema

end SchemaCompose
