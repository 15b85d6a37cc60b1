import SchemaCompose.Proofs.Merge.Fields

/-!
# Taking models in

A model that is taken in is merged with the model of its name, or goes to the end.
The main statement is that a row of models may be taken in at once or after it was
merged on its own (`foldl_takeIn_mergeAll`); it rests on merging being associative
(`merge_assoc`).
-/

namespace SchemaCompose

theorem firstSet_assoc (first second third : Option Text) :
    firstSet (firstSet first second) third =
      firstSet first (firstSet second third) := by
  unfold firstSet
  by_cases set : Text.isSet first = true
  · simp [set]
  · simp [set]

namespace Model

variable {models : List Model} {model incoming : Model} {name : Text}

/-- Three declarations may be merged from either end. -/
theorem merge_assoc (first second third : Model) :
    (first.merge second).merge third = first.merge (second.merge third) := by
  have fields := Field.foldl_takeIn_assoc first.fields second.fields third.fields
  simp only [merge, firstSet_assoc, List.append_assoc, Bool.and_assoc, fields]
  cases first.primaryKey <;> rfl

@[simp]
theorem takeIn_cons_of_same (same : model.name = incoming.name) :
    takeIn (model :: models) incoming = model.merge incoming :: models :=
  if_pos same

@[simp]
theorem takeIn_cons_of_ne (different : model.name ≠ incoming.name) :
    takeIn (model :: models) incoming = model :: takeIn models incoming :=
  if_neg different

/-! ## Names and members -/

theorem names_takeIn (models : List Model) (incoming : Model) :
    (takeIn models incoming).map (·.name) =
      if incoming.name ∈ models.map (·.name) then models.map (·.name)
      else models.map (·.name) ++ [incoming.name] := by
  induction models with
  | nil => rfl
  | cons first rest ih =>
      by_cases same : first.name = incoming.name
      · have merged : (first.merge incoming).name = incoming.name := same
        simp [same, merged]
      · rw [takeIn_cons_of_ne same, List.map_cons, ih]
        simp only [List.map_cons, List.mem_cons, Ne.symm same, false_or]
        split <;> rfl

theorem mem_names_takeIn :
    name ∈ (takeIn models incoming).map (·.name) ↔
      name ∈ models.map (·.name) ∨ name = incoming.name := by
  rw [names_takeIn]
  exact Row.mem_ite_append_singleton

theorem mergeAll_append_singleton (models : List Model) (last : Model) :
    mergeAll (models ++ [last]) = takeIn (mergeAll models) last := by
  rw [mergeAll, List.foldl_append]
  rfl

/-- Every name once, in the order of their first appearance. -/
theorem names_mergeAll (models : List Model) :
    (mergeAll models).map (·.name) = (models.map (·.name)).eraseDups := by
  induction models using List.reverseRecOn with
  | nil => rfl
  | append_singleton before last ih =>
      rw [mergeAll_append_singleton, names_takeIn, ih, List.map_append,
        List.map_cons, List.map_nil, Row.eraseDups_append_singleton]
      simp only [List.mem_eraseDups]

theorem nodup_names_mergeAll (models : List Model) :
    ((mergeAll models).map (·.name)).Nodup := by
  rw [names_mergeAll]
  exact Row.nodup_eraseDups _

/-- What holds of every model and survives merging holds of every merged model. -/
theorem forall_mem_takeIn
    {Holds : Model → Prop}
    (merged : ∀ base later : Model, Holds base → Holds later →
      Holds (base.merge later))
    (before : ∀ model ∈ models, Holds model) (taken : Holds incoming) :
    ∀ model ∈ takeIn models incoming, Holds model := by
  induction models with
  | nil =>
      intro model member
      rw [takeIn, List.mem_singleton] at member
      exact member ▸ taken
  | cons first rest ih =>
      intro model member
      rw [List.forall_mem_cons] at before
      by_cases same : first.name = incoming.name
      · rw [takeIn_cons_of_same same] at member
        rcases List.mem_cons.mp member with equal | inRest
        · exact equal ▸ merged first incoming before.1 taken
        · exact before.2 model inRest
      · rw [takeIn_cons_of_ne same] at member
        rcases List.mem_cons.mp member with equal | inRest
        · exact equal ▸ before.1
        · exact ih before.2 model inRest

theorem forall_mem_mergeAll
    {Holds : Model → Prop}
    (merged : ∀ base later : Model, Holds base → Holds later →
      Holds (base.merge later))
    (each : ∀ model ∈ models, Holds model) :
    ∀ model ∈ mergeAll models, Holds model := by
  induction models using List.reverseRecOn with
  | nil =>
      intro model member
      exact absurd member (by simp [mergeAll])
  | append_singleton before last ih =>
      rw [mergeAll_append_singleton]
      apply forall_mem_takeIn merged
      · exact ih fun model member => each model (List.mem_append_left [last] member)
      · exact each last (by simp)

/-! ## Taking a merged row in -/

theorem takeIn_of_new
    (new : incoming.name ∉ models.map (·.name)) :
    takeIn models incoming = models ++ [incoming] := by
  induction models with
  | nil => rfl
  | cons first rest ih =>
      simp only [List.map_cons, List.mem_cons, not_or] at new
      rw [takeIn_cons_of_ne (Ne.symm new.1), ih new.2]
      rfl

theorem takeIn_append_cons
    {earlier later : List Model}
    (same : model.name = incoming.name)
    (first : incoming.name ∉ earlier.map (·.name)) :
    takeIn (earlier ++ model :: later) incoming =
      earlier ++ model.merge incoming :: later := by
  induction earlier with
  | nil => exact takeIn_cons_of_same same
  | cons head rest ih =>
      simp only [List.map_cons, List.mem_cons, not_or] at first
      rw [List.cons_append, takeIn_cons_of_ne (Ne.symm first.1), ih first.2]
      rfl

/-- Two declarations of one name may be merged before they are taken in. -/
theorem takeIn_takeIn_of_same
    (models : List Model) (same : model.name = incoming.name) :
    takeIn (takeIn models model) incoming =
      takeIn models (model.merge incoming) := by
  induction models with
  | nil => exact takeIn_cons_of_same same
  | cons first rest ih =>
      by_cases here : first.name = model.name
      · have atOnce : first.name = (model.merge incoming).name := here
        have again : (first.merge model).name = incoming.name := here.trans same
        rw [takeIn_cons_of_same here, takeIn_cons_of_same again,
          takeIn_cons_of_same atOnce, merge_assoc]
      · have atOnce : first.name ≠ (model.merge incoming).name := here
        have again : first.name ≠ incoming.name :=
          fun equal => here (equal.trans same.symm)
        rw [takeIn_cons_of_ne here, takeIn_cons_of_ne again,
          takeIn_cons_of_ne atOnce, ih]

/-- A model whose name is known may be taken in before a model of another name. -/
theorem takeIn_comm
    (present : incoming.name ∈ models.map (·.name))
    (different : model.name ≠ incoming.name) :
    takeIn (takeIn models model) incoming =
      takeIn (takeIn models incoming) model := by
  induction models with
  | nil => simp at present
  | cons first rest ih =>
      by_cases here : first.name = incoming.name
      · have other : first.name ≠ model.name :=
          fun equal => different (equal.symm.trans here)
        have merged : (first.merge incoming).name ≠ model.name := other
        rw [takeIn_cons_of_ne other, takeIn_cons_of_same here, takeIn_cons_of_same here,
          takeIn_cons_of_ne merged]
      · have further : incoming.name ∈ rest.map (·.name) := by
          rcases List.mem_cons.mp present with equal | inRest
          · exact absurd equal.symm here
          · exact inRest
        by_cases other : first.name = model.name
        · have merged : (first.merge model).name ≠ incoming.name := here
          rw [takeIn_cons_of_same other, takeIn_cons_of_ne merged, takeIn_cons_of_ne here,
            takeIn_cons_of_same other]
        · rw [takeIn_cons_of_ne other, takeIn_cons_of_ne here, takeIn_cons_of_ne here,
            takeIn_cons_of_ne other, ih further]

/-- A merged row into which a model was taken leaves what the row and then the
model leave. -/
theorem foldl_takeIn_takeIn
    (base : List Model) (distinct : (models.map (·.name)).Nodup)
    (incoming : Model) :
    (takeIn models incoming).foldl takeIn base =
      takeIn (models.foldl takeIn base) incoming := by
  by_cases present : incoming.name ∈ models.map (·.name)
  · obtain ⟨earlier, member, later, split, named, last⟩ :=
      Row.exists_last_split present
    have first : incoming.name ∉ earlier.map (·.name) := by
      intro inEarlier
      rw [split, List.map_append, List.map_cons, List.nodup_append] at distinct
      exact distinct.2.2 incoming.name inEarlier member.name
        List.mem_cons_self named.symm
    have swap :
        takeIn (later.foldl takeIn
          (takeIn (earlier.foldl takeIn base) member)) incoming =
          later.foldl takeIn
            (takeIn (takeIn (earlier.foldl takeIn base) member) incoming) := by
      apply Row.take_foldl_comm (fun row => incoming.name ∈ row.map (·.name))
      · intro row other inLater ready
        exact mem_names_takeIn.mpr (Or.inl ready)
      · intro row other inLater ready
        apply takeIn_comm ready
        intro equal
        exact last (equal ▸ List.mem_map_of_mem inLater)
      · exact mem_names_takeIn.mpr (Or.inr named.symm)
    rw [split, takeIn_append_cons named first, List.foldl_append, List.foldl_append,
      List.foldl_cons, List.foldl_cons, swap, takeIn_takeIn_of_same _ named]
  · rw [takeIn_of_new present, List.foldl_append]
    rfl

/-- A row of models may be merged on its own before it is taken in. -/
theorem foldl_takeIn_mergeAll (base models : List Model) :
    (mergeAll models).foldl takeIn base = models.foldl takeIn base := by
  induction models using List.reverseRecOn with
  | nil => rfl
  | append_singleton before last ih =>
      rw [mergeAll_append_singleton,
        foldl_takeIn_takeIn base (nodup_names_mergeAll before) last, ih,
        List.foldl_append]
      rfl

end Model

end SchemaCompose
