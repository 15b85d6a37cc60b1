import SchemaCompose.Composition
import SchemaCompose.Proofs.Merge.Models

/-!
# Composing in stages

Some of the schemas that are composed may be composed beforehand: the composition
of any contiguous run can stand in the place of the run.  For models this is
`foldl_takeIn_mergeAll`, for datasources and generators it is that the last
accepted candidate of a run stands for the run.
-/

namespace SchemaCompose

variable {α : Type} (accept : List α → Bool)

theorem lastAccepted_append_singleton (candidates : List (List α))
    (candidate : List α) :
    lastAccepted accept (candidates ++ [candidate]) =
      if !candidate.isEmpty && accept candidate then candidate
      else lastAccepted accept candidates := by
  rw [lastAccepted, List.foldl_append]
  rfl

/-- Nothing is selected, or a candidate that is accepted. -/
theorem lastAccepted_cases (candidates : List (List α)) :
    lastAccepted accept candidates = [] ∨
      lastAccepted accept candidates ∈ candidates ∧
        accept (lastAccepted accept candidates) = true := by
  induction candidates using List.reverseRecOn with
  | nil => exact Or.inl rfl
  | append_singleton before last ih =>
      rw [lastAccepted_append_singleton]
      split
      · rename_i accepted
        rw [Bool.and_eq_true] at accepted
        exact Or.inr ⟨by simp, accepted.2⟩
      · rcases ih with none | ⟨member, accepted⟩
        · exact Or.inl none
        · exact Or.inr ⟨List.mem_append_left [last] member, accepted⟩

/-- Candidates that follow take the place of the selection, and what they select
does the same. -/
theorem lastAccepted_append_lastAccepted (earlier run : List (List α)) :
    lastAccepted accept (earlier ++ [lastAccepted accept run]) =
      lastAccepted accept (earlier ++ run) := by
  induction run using List.reverseRecOn with
  | nil =>
      rw [lastAccepted_append_singleton, List.append_nil]
      rfl
  | append_singleton before last ih =>
      rw [lastAccepted_append_singleton accept before, ← List.append_assoc,
        lastAccepted_append_singleton accept (earlier ++ before)]
      split
      · rename_i accepted
        rw [lastAccepted_append_singleton, if_pos accepted]
      · exact ih

/-- What a run of candidates selects may stand in its place. -/
theorem lastAccepted_staged (earlier run later : List (List α)) :
    lastAccepted accept (earlier ++ lastAccepted accept run :: later) =
      lastAccepted accept (earlier ++ run ++ later) := by
  induction later using List.reverseRecOn with
  | nil =>
      rw [List.append_nil]
      exact lastAccepted_append_lastAccepted accept earlier run
  | append_singleton before last ih =>
      rw [← List.append_assoc, lastAccepted_append_singleton, ← ih,
        ← List.cons_append, ← List.append_assoc, lastAccepted_append_singleton]

namespace Schema

/-- The models of a run may be merged on their own before they are merged with the
others. -/
theorem mergeAll_staged (earlier run later : List Model) :
    Model.mergeAll (earlier ++ Model.mergeAll run ++ later) =
      Model.mergeAll (earlier ++ run ++ later) := by
  have merged : ∀ models, Model.mergeAll models = models.foldl Model.takeIn [] :=
    fun _ => rfl
  rw [merged (earlier ++ _ ++ later), merged (earlier ++ run ++ later),
    List.foldl_append, List.foldl_append, List.foldl_append, List.foldl_append,
    Model.foldl_takeIn_mergeAll]

/-- The composition of a contiguous run of schemas may stand in the place of the
run. -/
theorem compose_staged (earlier run later : List Schema) :
    compose (earlier ++ [compose run] ++ later) =
      compose (earlier ++ run ++ later) := by
  have models :
      Model.mergeAll ((earlier ++ [compose run] ++ later).flatMap (·.models)) =
        Model.mergeAll ((earlier ++ run ++ later).flatMap (·.models)) := by
    rw [List.flatMap_append, List.flatMap_append, List.flatMap_singleton,
      List.flatMap_append, List.flatMap_append]
    exact mergeAll_staged _ _ _
  have enums :
      (earlier ++ [compose run] ++ later).flatMap (·.enums) =
        (earlier ++ run ++ later).flatMap (·.enums) := by
    rw [List.flatMap_append, List.flatMap_append, List.flatMap_singleton,
      List.flatMap_append, List.flatMap_append]
    rfl
  have datasources :
      selectDatasources (earlier ++ [compose run] ++ later) =
        selectDatasources (earlier ++ run ++ later) := by
    rw [selectDatasources, selectDatasources, List.map_append, List.map_append,
      List.map_append, List.map_append, List.append_assoc]
    exact lastAccepted_staged _ _ _ _
  have generators :
      selectGenerators (earlier ++ [compose run] ++ later) =
        selectGenerators (earlier ++ run ++ later) := by
    rw [selectGenerators, selectGenerators, List.map_append, List.map_append,
      List.map_append, List.map_append, List.append_assoc]
    exact lastAccepted_staged _ _ _ _
  show Schema.mk _ _ _ _ = Schema.mk _ _ _ _
  rw [models, enums, datasources, generators]

end Schema

end SchemaCompose
