import SchemaCompose.Text.Basic

/-!
# Registries

A registry holds values under keys in the order in which the keys were first used.
Writing to a key that is present changes its value and not its place.
-/

namespace SchemaCompose

/-- Values under keys, in the order of each key's first use. -/
abbrev Registry (Key Value : Type) := List (Key × Value)

namespace Registry

variable {Key Value : Type} [DecidableEq Key]

/-- The value under a key. -/
def find? (key : Key) : Registry Key Value → Option Value
  | [] => none
  | (present, value) :: rest => if present = key then some value else find? key rest

/-- Write a value: in the place of the key if it is present, else at the end. -/
def put (key : Key) (value : Value) : Registry Key Value → Registry Key Value
  | [] => [(key, value)]
  | (present, old) :: rest =>
    if present = key then (present, value) :: rest
    else (present, old) :: put key value rest

/-- The registry without a key. -/
def erase (key : Key) (registry : Registry Key Value) : Registry Key Value :=
  registry.filter fun entry => entry.1 ≠ key

@[simp]
theorem find?_put_self (key : Key) (value : Value) (registry : Registry Key Value) :
    find? key (put key value registry) = some value := by
  induction registry with
  | nil => simp [put, find?]
  | cons entry rest ih =>
    by_cases same : entry.1 = key <;> simp [put, find?, same, ih]

theorem find?_put_of_ne {key other : Key} (different : other ≠ key) (value : Value)
    (registry : Registry Key Value) :
    find? other (put key value registry) = find? other registry := by
  induction registry with
  | nil => simp [put, find?, different.symm]
  | cons entry rest ih =>
    by_cases same : entry.1 = key
    · simp [put, find?, same, different.symm]
    · by_cases hit : entry.1 = other
      · simp [put, find?, hit, different]
      · simp [put, find?, same, hit, ih]

end Registry

end SchemaCompose
