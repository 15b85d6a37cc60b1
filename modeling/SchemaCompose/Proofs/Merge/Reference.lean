import SchemaCompose.Proofs.Merge.Models

/-!
# What merging amounts to

Merging is a fold, and this file says what the fold computes without folding.  The
declarations of one name are united (`Model.united`): names of fields in the order
of their first appearance, each field as the last declaration of it has it, the
first mapping, key and documentation that is set, all constraints and indexes, and
a stub only where every declaration is one.  The main statement
(`mergeAll_eq_united`) is that merging unites the declarations of each name and
keeps the names in the order of their first appearance.
-/

namespace SchemaCompose

/-- The first entry that is present and not empty; if there is none, the last
entry. -/
def firstSetOf (settings : List (Option Text)) : Option Text :=
  (settings.find? Text.isSet).getD (settings.getLast?.getD none)

theorem firstSetOf_append_singleton (settings : List (Option Text))
    (setting : Option Text) :
    firstSetOf (settings ++ [setting]) =
      firstSet (firstSetOf settings) setting := by
  unfold firstSetOf firstSet
  cases found : settings.find? Text.isSet with
  | some first =>
      have set : Text.isSet first = true := by simpa using List.find?_some found
      simp [found, set]
  | none =>
      have unset : Text.isSet (settings.getLast?.getD none) = false := by
        cases last : settings.getLast? with
        | none => rfl
        | some other =>
            rw [List.find?_eq_none] at found
            simpa using found other (List.mem_of_getLast? last)
      simp only [Option.getD_none, unset]
      by_cases set : Text.isSet setting = true <;> simp [found, set]

namespace Model

/-- The names of the fields of some declarations, in the order of their first
appearance. -/
def fieldNames (declarations : List Model) : List Text :=
  ((declarations.flatMap (·.fields)).map (·.name)).eraseDups

/-- The field of a name, as the last declaration that has it declares it. -/
def lastField? (declarations : List Model) (name : Text) : Option Field :=
  declarations.reverse.findSome? (·.fieldNamed? name)

/-- The fields of some declarations, each as the last declaration of it has it. -/
def unitedFields (declarations : List Model) : List Field :=
  (fieldNames declarations).filterMap (lastField? declarations)

/-- The model that the declarations of one name make up together. -/
def united (name : Text) (declarations : List Model) : Model where
  name := name
  fields := unitedFields declarations
  tableName := firstSetOf (declarations.map (·.tableName))
  primaryKey := declarations.findSome? (·.primaryKey)
  uniqueFields := declarations.flatMap (·.uniqueFields)
  uniqueIndexes := declarations.flatMap (·.uniqueIndexes)
  extraIndexes := declarations.flatMap (·.extraIndexes)
  isStub := declarations.all (·.isStub)
  documentation := firstSetOf (declarations.map (·.documentation))

/-- The declarations of one name among some models. -/
def declarationsOf (name : Text) (models : List Model) : List Model :=
  models.filter (·.name = name)

/-- No two fields of the model have one name. -/
def HasDistinctFields (model : Model) : Prop :=
  (model.fields.map (·.name)).Nodup

instance : DecidablePred HasDistinctFields := fun model =>
  inferInstanceAs (Decidable (model.fields.map (·.name)).Nodup)

variable {declarations : List Model} {model last : Model} {name : Text}

/-! ## United fields -/

theorem lastField?_append_singleton (declarations : List Model) (last : Model)
    (name : Text) :
    lastField? (declarations ++ [last]) name =
      (last.fieldNamed? name).or (lastField? declarations name) := by
  rw [lastField?, List.reverse_append, List.reverse_singleton,
    List.singleton_append, List.findSome?_cons]
  cases last.fieldNamed? name <;> rfl

theorem name_of_lastField?
    {field : Field} (found : lastField? declarations name = some field) :
    field.name = name := by
  obtain ⟨model, _, inModel⟩ := List.exists_of_findSome?_eq_some found
  simpa [fieldNamed?] using List.find?_some inModel

theorem isSome_lastField?
    (known : name ∈ fieldNames declarations) :
    (lastField? declarations name).isSome := by
  rw [fieldNames, List.mem_eraseDups, List.mem_map] at known
  obtain ⟨field, member, named⟩ := known
  obtain ⟨model, inRow, inModel⟩ := List.mem_flatMap.mp member
  rw [lastField?, List.findSome?_isSome_iff]
  refine ⟨model, List.mem_reverse.mpr inRow, ?_⟩
  rw [fieldNamed?, List.find?_isSome]
  exact ⟨field, inModel, by simpa using named⟩

theorem lastField?_of_unknown
    (unknown : name ∉ fieldNames declarations) :
    lastField? declarations name = none := by
  rw [lastField?, List.findSome?_eq_none_iff]
  intro model inRow
  rw [fieldNamed?, List.find?_eq_none]
  intro field inModel named
  apply unknown
  rw [fieldNames, List.mem_eraseDups]
  exact List.mem_map.mpr
    ⟨field, List.mem_flatMap.mpr ⟨model, List.mem_reverse.mp inRow, inModel⟩,
    by simpa using named⟩

/-- Each name is kept, and none is added. -/
theorem names_filterMap_lastField?
    {names : List Text}
    (known : ∀ name ∈ names, (lastField? declarations name).isSome) :
    (names.filterMap (lastField? declarations)).map (·.name) = names := by
  induction names with
  | nil => rfl
  | cons first rest ih =>
      obtain ⟨field, found⟩ :=
        Option.isSome_iff_exists.mp (known first List.mem_cons_self)
      rw [List.filterMap_cons_some found, List.map_cons, name_of_lastField? found,
        ih fun name member => known name (List.mem_cons_of_mem first member)]

theorem names_unitedFields (declarations : List Model) :
    (unitedFields declarations).map (·.name) = fieldNames declarations :=
  names_filterMap_lastField? fun _ known => isSome_lastField? known

theorem nodup_names_unitedFields (declarations : List Model) :
    ((unitedFields declarations).map (·.name)).Nodup := by
  rw [names_unitedFields]
  exact Row.nodup_eraseDups _

theorem find?_filterMap_lastField? {names : List Text} (distinct : names.Nodup) :
    (names.filterMap (lastField? declarations)).find? (·.name = name) =
      if name ∈ names then lastField? declarations name else none := by
  induction names with
  | nil => simp
  | cons first rest ih =>
      rw [List.nodup_cons] at distinct
      by_cases same : name = first
      · subst same
        cases found : lastField? declarations name with
        | none => simp [found, ih distinct.2, distinct.1]
        | some field => simp [found, name_of_lastField? found]
      · cases found : lastField? declarations first with
        | none => simp [found, ih distinct.2, same]
        | some field =>
            have other : field.name ≠ name := fun equal =>
              same (equal.symm.trans (name_of_lastField? found))
            simp [found, ih distinct.2, same, other]

theorem find?_unitedFields (declarations : List Model) (name : Text) :
    (unitedFields declarations).find? (·.name = name) =
      lastField? declarations name := by
  have distinct : (fieldNames declarations).Nodup := Row.nodup_eraseDups _
  rw [unitedFields, find?_filterMap_lastField? distinct]
  split
  · rfl
  · rename_i unknown
    exact (lastField?_of_unknown unknown).symm

/-- One more declaration is taken into the united fields field by field. -/
theorem unitedFields_append_singleton
    (declarations : List Model) (distinct : last.HasDistinctFields) :
    unitedFields (declarations ++ [last]) =
      last.fields.foldl Field.takeIn (unitedFields declarations) := by
  have base := nodup_names_unitedFields declarations
  apply Field.eq_of_names_of_find? (nodup_names_unitedFields _)
  · rw [names_unitedFields, Field.names_foldl_takeIn base, List.map_append,
      names_unitedFields, fieldNames, fieldNames, List.flatMap_append,
      List.flatMap_singleton, List.map_append, Row.eraseDups_eraseDups_append]
  · intro name
    rw [find?_unitedFields, lastField?_append_singleton,
      Field.find?_foldl_takeIn base distinct, find?_unitedFields]
    rfl

/-! ## United declarations -/

/-- One more declaration is united with the others by merging it in. -/
theorem united_append_singleton
    (name : Text) (declarations : List Model) (distinct : last.HasDistinctFields) :
    united name (declarations ++ [last]) =
      (united name declarations).merge last := by
  have key :
      (declarations ++ [last]).findSome? (·.primaryKey) =
        (declarations.findSome? (·.primaryKey) <|> last.primaryKey) := by
    rw [List.findSome?_append, List.findSome?_singleton]
    cases declarations.findSome? (·.primaryKey) <;> rfl
  simp only [united, merge, unitedFields_append_singleton _ distinct, key,
    List.map_append, List.map_cons, List.map_nil, firstSetOf_append_singleton,
    List.flatMap_append, List.flatMap_singleton, List.all_append, List.all_cons,
    List.all_nil, Bool.and_true]

/-- A declaration that stands alone is what it declares. -/
theorem united_singleton (distinct : model.HasDistinctFields) :
    united model.name [model] = model := by
  have fields : unitedFields [model] = model.fields := by
    apply Field.eq_of_names_of_find? (nodup_names_unitedFields _)
    · rw [names_unitedFields, fieldNames, List.flatMap_singleton]
      exact Row.eraseDups_of_nodup distinct
    · intro name
      rw [find?_unitedFields]
      exact (lastField?_append_singleton [] model name).trans Option.or_none
  have setting : ∀ entry : Option Text, firstSetOf [entry] = entry := by
    intro entry
    exact firstSetOf_append_singleton [] entry
  simp [united, fields, setting]

/-- Taking a model into merged ones merges it with the model of its name only. -/
theorem takeIn_map
    {names : List Text} {merged : Text → Model}
    (named : ∀ name, (merged name).name = name) (distinct : names.Nodup)
    (present : last.name ∈ names) :
    takeIn (names.map merged) last =
      names.map fun name => if name = last.name then (merged name).merge last
        else merged name := by
  induction names with
  | nil => simp at present
  | cons first rest ih =>
      rw [List.nodup_cons] at distinct
      by_cases here : first = last.name
      · have others : ∀ name ∈ rest, name ≠ last.name := by
          intro name member equal
          exact distinct.1 (here ▸ equal ▸ member)
        rw [List.map_cons, takeIn_cons_of_same ((named first).trans here),
          List.map_cons, if_pos here]
        congr 1
        apply List.map_congr_left
        intro name member
        rw [if_neg (others name member)]
      · have further : last.name ∈ rest := by
          rcases List.mem_cons.mp present with equal | inRest
          · exact absurd equal.symm here
          · exact inRest
        rw [List.map_cons,
          takeIn_cons_of_ne fun equal => here ((named first).symm.trans equal),
          ih distinct.2 further, List.map_cons, if_neg here]

/-! ## Merging and uniting -/

theorem declarationsOf_append_singleton_of_same
    (models : List Model) (same : last.name = name) :
    declarationsOf name (models ++ [last]) =
      declarationsOf name models ++ [last] := by
  rw [declarationsOf, List.filter_append, List.filter_singleton]
  simp [declarationsOf, same]

theorem declarationsOf_append_singleton_of_ne
    (models : List Model) (different : last.name ≠ name) :
    declarationsOf name (models ++ [last]) = declarationsOf name models := by
  rw [declarationsOf, List.filter_append, List.filter_singleton]
  simp [declarationsOf, different]

theorem declarationsOf_of_unknown
    {models : List Model} (unknown : name ∉ models.map (·.name)) :
    declarationsOf name models = [] := by
  rw [declarationsOf, List.filter_eq_nil_iff]
  intro model member named
  exact unknown (List.mem_map.mpr ⟨model, member, by simpa using named⟩)

/-- The models that rows of declarations make up, one for each name. -/
theorem mergeAll_eq_map_united
    (models : List Model) (distinct : ∀ model ∈ models, model.HasDistinctFields) :
    mergeAll models =
      (models.map (·.name)).eraseDups.map
        (fun name => united name (declarationsOf name models)) := by
  induction models using List.reverseRecOn with
  | nil => rfl
  | append_singleton before last ih =>
      have distinctLast : last.HasDistinctFields := distinct last (by simp)
      rw [mergeAll_append_singleton, ih fun model member =>
          distinct model (List.mem_append_left [last] member),
        List.map_append, List.map_cons, List.map_nil,
        Row.eraseDups_append_singleton]
      split
      · rename_i present
        rw [takeIn_map (fun _ => rfl) (Row.nodup_eraseDups _)
          (List.mem_eraseDups.mpr present)]
        apply List.map_congr_left
        intro name member
        by_cases same : name = last.name
        · rw [if_pos same, declarationsOf_append_singleton_of_same before same.symm,
            united_append_singleton _ _ distinctLast]
        · rw [if_neg same,
            declarationsOf_append_singleton_of_ne before (Ne.symm same)]
      · rename_i new
        have unmerged :
            last.name ∉ ((before.map (·.name)).eraseDups.map
              fun name => united name (declarationsOf name before)).map
                (·.name) := by
          simpa [united, List.map_map, Function.comp_def] using new
        have others : ∀ name ∈ (before.map (·.name)).eraseDups,
            united name (declarationsOf name before) =
              united name (declarationsOf name (before ++ [last])) := by
          intro name member
          rw [declarationsOf_append_singleton_of_ne]
          intro equal
          exact new (equal ▸ List.mem_eraseDups.mp member)
        rw [takeIn_of_new unmerged, List.map_append, List.map_cons, List.map_nil,
          List.map_congr_left others,
          declarationsOf_append_singleton_of_same before rfl,
          declarationsOf_of_unknown new, List.nil_append,
          united_singleton distinctLast]

/--
Merging yields one model for each name, in the order in which the names first
appear, and the model of a name is what the declarations of that name alone make
up; the names of its fields stand in the order in which those declarations first
have them.
-/
theorem mergeAll_eq_united
    (models : List Model) (distinct : ∀ model ∈ models, model.HasDistinctFields) :
    mergeAll models =
        (models.map (·.name)).eraseDups.map
          (fun name => united name (declarationsOf name models)) ∧
      ∀ merged ∈ mergeAll models,
        merged.fields.map (·.name) =
          fieldNames (declarationsOf merged.name models) := by
  have merged := mergeAll_eq_map_united models distinct
  refine ⟨merged, ?_⟩
  intro model member
  rw [merged, List.mem_map] at member
  obtain ⟨name, _, rfl⟩ := member
  exact names_unitedFields _

/-- Declarations of one model around another model are united field by field. -/
theorem mergeAll_eq_united_around_another :
    let user : Model := {
      name := "User", tableName := some []
      fields :=
        [{ name := "id", type := "Int" }, { name := "mail", type := "String" }] }
    let post : Model :=
      { name := "Post", fields := [{ name := "id", type := "Int" }] }
    let user' : Model := {
      name := "User", tableName := "users", isStub := true
      fields :=
        [{ name := "age", type := "Int" }, { name := "id", type := "BigInt" }] }
    (∀ model ∈ [user, post, user'], model.HasDistinctFields) ∧
      mergeAll [user, post, user'] =
        [{ name := "User", tableName := "users"
           fields :=
             [{ name := "id", type := "BigInt" }, { name := "mail", type := "String" },
               { name := "age", type := "Int" }] }, post] :=
  ⟨by decide, (mergeAll_eq_united _ (by decide)).1.trans (by decide)⟩

end Model

end SchemaCompose
