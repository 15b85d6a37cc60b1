import SchemaCompose.Mix.Record
import SchemaCompose.Proofs.Merge.Reference

/-!
# What merging reports

The report of a merge is written while the models are taken in one by one, so that
each field is compared with the field which the merged model holds at that moment.
The main statement (`Record.merging_eq`) says what is reported without merging: a
field is reported exactly where the last earlier declaration of it, under the name
of its model, is another one; the identities that follow are those of the final
models.
-/

namespace SchemaCompose

namespace Field

variable {fields incoming : List Field} {name : Text}

theorem find?_reverse_of_distinct
    (distinct : (fields.map (·.name)).Nodup) (name : Text) :
    fields.reverse.find? (·.name = name) = fields.find? (·.name = name) := by
  induction fields with
  | nil => rfl
  | cons first rest ih =>
      rw [List.map_cons, List.nodup_cons] at distinct
      rw [List.reverse_cons, List.find?_append, ih distinct.2]
      by_cases named : first.name = name
      · simp [named, find?_of_unknown (named ▸ distinct.1)]
      · simp [named]

/-- Where names are distinct, a declaration changes the field of its name if that
field is another one. -/
theorem changes_of_distinct
    (distinct : (fields.map (·.name)).Nodup) (incoming : Field) :
    changes fields incoming =
      (fields.find? (·.name = incoming.name)).any (· ≠ incoming) := by
  rw [changes, find?_reverse_of_distinct distinct]

end Field

namespace Model

variable {fields incoming : List Field} {models : List Model} {name : Text}

/-- A row of distinct names is compared with the fields from before the whole row:
no declaration of the row is compared with another one. -/
theorem changedFields_of_distinct
    (distinct : (fields.map (·.name)).Nodup)
    (distinctIncoming : (incoming.map (·.name)).Nodup) :
    changedFields fields incoming =
      (incoming.filter fun field =>
        (fields.find? (·.name = field.name)).any (· ≠ field)).map (·.name) := by
  induction incoming generalizing fields with
  | nil => rfl
  | cons first rest ih =>
      rw [List.map_cons, List.nodup_cons] at distinctIncoming
      have others : ∀ field ∈ rest,
          ((Field.takeIn fields first).find? (·.name = field.name)).any
              (· ≠ field) =
            (fields.find? (·.name = field.name)).any (· ≠ field) := by
        intro field member
        have different : first.name ≠ field.name := fun equal =>
          distinctIncoming.1 (equal ▸ List.mem_map_of_mem member)
        rw [Field.find?_takeIn distinct, if_neg different]
      rw [changedFields, Field.changes_of_distinct distinct,
        ih (Field.nodup_names_takeIn distinct first) distinctIncoming.2,
        List.filter_congr others, List.filter_cons]
      split <;> rfl

/-- The merged model of a name, among models that were merged. -/
theorem find?_mergeAll
    (distinct : ∀ model ∈ models, model.HasDistinctFields) (name : Text) :
    (mergeAll models).find? (·.name = name) =
      if name ∈ models.map (·.name) then
        some (united name (declarationsOf name models))
      else none := by
  split
  · rename_i known
    have merged :
        united name (declarationsOf name models) ∈ mergeAll models := by
      rw [mergeAll_eq_map_united models distinct]
      exact List.mem_map_of_mem (List.mem_eraseDups.mpr known)
    cases found : (mergeAll models).find? (·.name = name) with
    | none =>
        rw [List.find?_eq_none] at found
        exact absurd (found _ merged) (by simp [united])
    | some model =>
        have named : model.name = name := by simpa using List.find?_some found
        have member := List.mem_of_find?_eq_some found
        rw [mergeAll_eq_map_united models distinct, List.mem_map] at member
        obtain ⟨other, _, rfl⟩ := member
        cases (named : other = name)
        rfl
  · rename_i unknown
    rw [List.find?_eq_none]
    intro model member named
    apply unknown
    rw [← List.mem_eraseDups, ← names_mergeAll]
    exact List.mem_map.mpr ⟨model, member, by simpa using named⟩

/-- The field of a declaration takes the place of another one: the last declaration
of it in an earlier model of the same name differs. -/
def Replaces (before : List Model) (model : Model) (field : Field) : Prop :=
  ∃ earlier ∈ lastField? (declarationsOf model.name before) field.name,
    earlier ≠ field

theorem any_lastField?_iff_replaces
    {before : List Model} {model : Model} {field : Field} :
    (lastField? (declarationsOf model.name before) field.name).any (· ≠ field) ↔
      Replaces before model field := by
  rw [Option.any_eq_true, Replaces]
  simp only [decide_eq_true_iff, Option.mem_def]

instance (before : List Model) (model : Model) :
    DecidablePred (Replaces before model) := fun _ =>
  decidable_of_iff _ any_lastField?_iff_replaces

/-- Taking a model in changes the fields that replace another one. -/
theorem changedBy_mergeAll
    (distinct : ∀ model ∈ models, model.HasDistinctFields)
    {model : Model} (distinctModel : model.HasDistinctFields) :
    changedBy (mergeAll models) model =
      (model.fields.filter (Replaces models model ·)).map (·.name) := by
  rw [changedBy, find?_mergeAll distinct]
  by_cases known : model.name ∈ models.map (·.name)
  · rw [if_pos known]
    refine (changedFields_of_distinct (nodup_names_unitedFields _)
      distinctModel).trans ?_
    congr 1
    apply List.filter_congr
    intro field _
    rw [Bool.eq_iff_iff, decide_eq_true_iff, ← any_lastField?_iff_replaces,
      ← find?_unitedFields]
  · rw [if_neg known]
    have none_replaces : ∀ field ∈ model.fields,
        ¬ decide (Replaces models model field) = true := by
      intro field _
      rw [decide_eq_true_iff, Replaces, declarationsOf_of_unknown known]
      simp [lastField?]
    rw [List.filter_eq_nil_iff.mpr none_replaces]
    rfl

theorem replacements_append_singleton
    (base models : List Model) (last : Model) :
    replacements base (models ++ [last]) =
      replacements base models ++
        (changedBy (models.foldl takeIn base) last).map (last.name, ·) := by
  induction models generalizing base with
  | nil => simp [replacements]
  | cons first rest ih =>
      rw [List.cons_append, replacements, ih, replacements, List.append_assoc]
      rfl

/-- The fields that replace another one, model by model. -/
theorem replacements_eq_flatMap
    (models : List Model) (distinct : ∀ model ∈ models, model.HasDistinctFields) :
    replacements [] models =
      models.zipIdx.flatMap fun (model, place) =>
        (model.fields.filter (Replaces (models.take place) model ·)).map
          fun field => (model.name, field.name) := by
  induction models using List.reverseRecOn with
  | nil => rfl
  | append_singleton before last ih =>
      have distinctBefore : ∀ model ∈ before, model.HasDistinctFields :=
        fun model member => distinct model (List.mem_append_left [last] member)
      have earlier : ∀ pair ∈ before.zipIdx,
          (before ++ [last]).take pair.2 = before.take pair.2 := by
        intro pair member
        have within : pair.2 < before.length := by
          simpa using List.snd_lt_add_of_mem_zipIdx member
        exact List.take_append_of_le_length (Nat.le_of_lt within)
      rw [replacements_append_singleton, ih distinctBefore, ← mergeAll,
        changedBy_mergeAll distinctBefore (distinct last (by simp)),
        List.zipIdx_append, List.flatMap_append]
      congr 1
      · apply List.flatMap_congr
        intro pair member
        simp only [earlier pair member]
      · simp [List.map_map, Function.comp_def]

/-- The identities of a model, kind by kind. -/
theorem identities_eq (model : Model) :
    model.identities =
      (match model.primaryKey with
        | some key => if key.fields = [] then [] else [key.fields]
        | none => []) ++
      model.uniqueFields ++
      (model.fields.filter fun field => field.isRequired ∧ field.isUnique).map
        ([·.name]) := by
  rw [identities]
  simp only [Bool.decide_and, Bool.decide_eq_true]
  congr 2
  cases model.primaryKey with
  | none => rfl
  | some key =>
      cases empty : key.fields <;> simp [empty]

end Model

namespace Record

open Model

theorem level_of_mem_merging
    {models : List Model} {record : Record} (member : record ∈ merging models) :
    record.level = .debug := by
  rw [merging, List.mem_append, List.mem_map, List.mem_map] at member
  rcases member with ⟨_, _, rfl⟩ | ⟨_, _, rfl⟩ <;> rfl

/--
Merging reports, at the level for debugging, every field that replaces another one,
in the order of the models and of the fields in each; then, for every merged model,
its identities: the fields of a key that has any, the unique constraints, and each
field that is both required and unique.
-/
theorem merging_eq
    (models : List Model) (distinct : ∀ model ∈ models, model.HasDistinctFields) :
    merging models =
        (models.zipIdx.flatMap fun (model, place) =>
          (model.fields.filter (Replaces (models.take place) model ·)).map
            fun field => fieldReplaced model.name field.name) ++
        (mergeAll models).map (fun merged =>
          identities merged.name
            ((match merged.primaryKey with
              | some key => if key.fields = [] then [] else [key.fields]
              | none => []) ++
            merged.uniqueFields ++
            (merged.fields.filter fun field =>
              field.isRequired ∧ field.isUnique).map ([·.name]))) ∧
      (∀ record ∈ merging models, record.level = .debug) ∧
      ∀ model field : Text, (fieldReplaced model field).message =
        "Replacing field " ++ model ++ "." ++ field ++ " with later declaration" := by
  refine ⟨?_, fun _ => level_of_mem_merging, fun _ _ => rfl⟩
  rw [merging, replacements_eq_flatMap models distinct, List.map_flatMap]
  simp only [List.map_map, Function.comp_def, identities_eq]

/-- A field that is changed and changed back is reported twice, and one that is
declared again as it was is not reported. -/
theorem merging_reports_a_change_and_its_return :
    let address : Field := { name := "mail", type := "String", isUnique := true }
    let other : Field := { name := "mail", type := "Text" }
    let count : Field := { name := "count", type := "Int" }
    let models : List Model :=
      [{ name := "User", fields := [count, address] },
        { name := "Post", fields := [count], primaryKey := some ⟨["count"], none⟩ },
        { name := "User", fields := [other, count] },
        { name := "User", fields := [address] }]
    (∀ model ∈ models, model.HasDistinctFields) ∧
      merging models =
        [.fieldReplaced "User" "mail", .fieldReplaced "User" "mail",
          .identities "User" [["mail"]], .identities "Post" [["count"]]] :=
  ⟨by decide, (merging_eq _ (by decide)).1.trans (by decide)⟩

end Record

end SchemaCompose
