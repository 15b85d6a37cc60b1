import SchemaCompose.Proofs.Merge.Closure
import SchemaCompose.Proofs.Mining.Shapes

/-!
# The texts of a composed schema

Merging takes every text over from a declaration: it writes none of its own and joins
none.  What a composition of accepted documents holds is therefore of the shape in
which it was read (`Schema.isRead_compose`).
-/

namespace SchemaCompose

/-- The setting that is kept is one of the two. -/
theorem mem_or_mem_of_mem_firstSet
    {earlier later : Option Text} {text : Text} (kept : text ∈ firstSet earlier later) :
    text ∈ earlier ∨ text ∈ later := by
  rw [firstSet] at kept
  split_ifs at kept
  · exact Or.inl kept
  · exact Or.inr kept

theorem forall_mem_firstSet
    {Holds : Text → Prop} {earlier later : Option Text}
    (first : ∀ text ∈ earlier, Holds text) (second : ∀ text ∈ later, Holds text) :
    ∀ text ∈ firstSet earlier later, Holds text := fun text kept =>
  (mem_or_mem_of_mem_firstSet kept).elim (first text) (second text)

/-- What holds of every member of every candidate holds of the members of the one that
is taken. -/
theorem forall_mem_lastAccepted
    {α : Type} {Holds : α → Prop} (accept : List α → Bool) {candidates : List (List α)}
    (each : ∀ candidate ∈ candidates, ∀ item ∈ candidate, Holds item) :
    ∀ item ∈ lastAccepted accept candidates, Holds item := by
  rcases lastAccepted_cases accept candidates with none | ⟨member, _⟩
  · rw [none]
    simp
  · exact each _ member

/-- A merged model is as its two declarations are. -/
theorem Model.IsRead.merge
    {model incoming : Model} (base : model.IsRead) (later : incoming.IsRead) :
    (model.merge incoming).IsRead := by
  refine ⟨base.name, ?_, forall_mem_firstSet base.tableName later.tableName, ?_,
    List.forall_mem_append.mpr ⟨base.uniqueIndexes, later.uniqueIndexes⟩,
    List.forall_mem_append.mpr ⟨base.extraIndexes, later.extraIndexes⟩,
    forall_mem_firstSet base.documentation later.documentation⟩
  · intro field member
    rcases Field.mem_of_mem_foldl_takeIn member with before | after
    · exact base.fields field before
    · exact later.fields field after
  · intro key kept
    cases own : model.primaryKey with
    | some first =>
        have same : first = key := by simpa [Model.merge, own] using kept
        exact base.primaryKey key (same ▸ own)
    | none => exact later.primaryKey key (by simpa [Model.merge, own] using kept)

namespace Schema

/-- The composition of schemas that are as they are read is so too. -/
theorem IsRead.compose {schemas : List Schema}
    (areRead : ∀ schema ∈ schemas, schema.IsRead) : (compose schemas).IsRead := by
  constructor
  · apply Model.forall_mem_mergeAll
    · exact fun base later isRead isReadLater => isRead.merge isReadLater
    · intro model member
      obtain ⟨schema, inRow, inSchema⟩ := List.mem_flatMap.mp member
      exact (areRead schema inRow).models model inSchema
  · intro enum member
    obtain ⟨schema, inRow, inSchema⟩ := List.mem_flatMap.mp member
    exact (areRead schema inRow).enums enum inSchema
  · apply forall_mem_lastAccepted
    rw [List.forall_mem_map]
    exact fun schema inRow => (areRead schema inRow).datasources
  · apply forall_mem_lastAccepted
    rw [List.forall_mem_map]
    exact fun schema inRow => (areRead schema inRow).generators

/-- The texts of a composition of accepted documents are as they are read. -/
theorem isRead_compose
    {texts : List Text} {schemas : List Schema}
    (accepted : texts.mapM ofDocument = .ok schemas) : (compose schemas).IsRead := by
  apply IsRead.compose
  intro schema inRow
  obtain ⟨text, _, read⟩ :=
    Reading.exists_of_mem_results (Reading.mapM_eq_ok.mp accepted) inRow
  exact isRead_of_ofDocument read

end Schema

end SchemaCompose
