import SchemaCompose.Merge.Model
import SchemaCompose.Proofs.Merge.Row

/-!
# Taking fields in

A field that is taken in goes into the place of the last field of its name, or to
the end.  The main statements are that a row of fields may be taken in at once or
after it was merged with a later row (`foldl_takeIn_assoc`), and that taking a row
in changes a field exactly where the row has its name (`find?_foldl_takeIn`).
-/

namespace SchemaCompose.Field

variable {earlier later fields : List Field} {field incoming : Field} {name : Text}

theorem replaceLast_of_new
    (new : incoming.name ∉ fields.map (·.name)) :
    replaceLast fields incoming = none := by
  induction fields with
  | nil => rfl
  | cons first rest ih =>
      simp only [List.map_cons, List.mem_cons, not_or] at new
      rw [replaceLast, ih new.2]
      exact if_neg fun same => new.1 same.symm

theorem replaceLast_append_cons
    (same : field.name = incoming.name)
    (last : incoming.name ∉ later.map (·.name)) :
    replaceLast (earlier ++ field :: later) incoming =
      some (earlier ++ incoming :: later) := by
  induction earlier with
  | nil =>
      rw [List.nil_append, replaceLast, replaceLast_of_new last]
      exact if_pos same
  | cons first rest ih =>
      rw [List.cons_append, replaceLast, ih]
      rfl

/-- A field of a new name goes to the end. -/
theorem takeIn_of_new
    (new : incoming.name ∉ fields.map (·.name)) :
    takeIn fields incoming = fields ++ [incoming] := by
  rw [takeIn, replaceLast_of_new new]
  rfl

/-- A field of a known name goes into the place of the last one. -/
theorem takeIn_append_cons
    (same : field.name = incoming.name)
    (last : incoming.name ∉ later.map (·.name)) :
    takeIn (earlier ++ field :: later) incoming = earlier ++ incoming :: later := by
  rw [takeIn, replaceLast_append_cons same last]
  rfl

/-- The two ways in which a field is taken in. -/
theorem takeIn_cases (fields : List Field) (incoming : Field) :
    (incoming.name ∉ fields.map (·.name) ∧
      takeIn fields incoming = fields ++ [incoming]) ∨
      ∃ earlier field later,
        fields = earlier ++ field :: later ∧ field.name = incoming.name ∧
        incoming.name ∉ later.map (·.name) ∧
        takeIn fields incoming = earlier ++ incoming :: later := by
  by_cases present : incoming.name ∈ fields.map (·.name)
  · obtain ⟨earlier, field, later, split, same, last⟩ :=
      Row.exists_last_split present
    refine Or.inr ⟨earlier, field, later, split, same, last, ?_⟩
    rw [split, takeIn_append_cons same last]
  · exact Or.inl ⟨present, takeIn_of_new present⟩

/-! ## Names and members -/

theorem names_takeIn (fields : List Field) (incoming : Field) :
    (takeIn fields incoming).map (·.name) =
      if incoming.name ∈ fields.map (·.name) then fields.map (·.name)
      else fields.map (·.name) ++ [incoming.name] := by
  rcases takeIn_cases fields incoming with
    ⟨new, taken⟩ | ⟨earlier, field, later, split, same, last, taken⟩
  · rw [if_neg new, taken]
    simp
  · rw [taken, split]
    simp [same]

theorem mem_names_takeIn :
    name ∈ (takeIn fields incoming).map (·.name) ↔
      name ∈ fields.map (·.name) ∨ name = incoming.name := by
  rw [names_takeIn]
  exact Row.mem_ite_append_singleton

theorem nodup_names_takeIn
    (distinct : (fields.map (·.name)).Nodup) (incoming : Field) :
    ((takeIn fields incoming).map (·.name)).Nodup := by
  rw [names_takeIn]
  exact Row.nodup_ite_append_singleton distinct incoming.name

/-- Every field of the result was there before or is the one taken in. -/
theorem mem_of_mem_takeIn
    (member : field ∈ takeIn fields incoming) :
    field ∈ fields ∨ field = incoming := by
  rcases takeIn_cases fields incoming with
    ⟨new, taken⟩ | ⟨earlier, replaced, later, split, same, last, taken⟩
  · rw [taken, List.mem_append, List.mem_singleton] at member
    exact member
  · rw [taken] at member
    rw [split]
    simp only [List.mem_append, List.mem_cons] at member ⊢
    tauto

theorem mem_of_mem_foldl_takeIn
    (member : field ∈ later.foldl takeIn earlier) :
    field ∈ earlier ∨ field ∈ later := by
  induction later generalizing earlier with
  | nil => exact Or.inl member
  | cons first rest ih =>
      rcases ih member with before | inRest
      · rcases mem_of_mem_takeIn before with kept | taken
        · exact Or.inl kept
        · exact Or.inr (taken ▸ List.mem_cons_self)
      · exact Or.inr (List.mem_cons_of_mem first inRest)

theorem nodup_names_foldl_takeIn
    (distinct : (earlier.map (·.name)).Nodup) (later : List Field) :
    ((later.foldl takeIn earlier).map (·.name)).Nodup := by
  induction later generalizing earlier with
  | nil => exact distinct
  | cons first rest ih => exact ih (nodup_names_takeIn distinct first)

/-- The names of both rows, in the order of their first appearance. -/
theorem names_foldl_takeIn
    (distinct : (earlier.map (·.name)).Nodup) (later : List Field) :
    (later.foldl takeIn earlier).map (·.name) =
      ((earlier ++ later).map (·.name)).eraseDups := by
  induction later using List.reverseRecOn with
  | nil =>
      rw [List.append_nil]
      exact (Row.eraseDups_of_nodup distinct).symm
  | append_singleton before last ih =>
      have names :
          (earlier ++ (before ++ [last])).map (·.name) =
            (earlier ++ before).map (·.name) ++ [last.name] := by
        simp
      rw [List.foldl_append, List.foldl_cons, List.foldl_nil, names_takeIn, ih,
        names, Row.eraseDups_append_singleton]
      simp only [List.mem_eraseDups]

/-! ## Looking a field up -/

theorem find?_of_unknown (unknown : name ∉ fields.map (·.name)) :
    fields.find? (·.name = name) = none := by
  rw [List.find?_eq_none]
  intro field member named
  exact unknown (List.mem_map.mpr ⟨field, member, by simpa using named⟩)

theorem find?_takeIn
    (distinct : (fields.map (·.name)).Nodup) (incoming : Field) (name : Text) :
    (takeIn fields incoming).find? (·.name = name) =
      if incoming.name = name then some incoming
        else fields.find? (·.name = name) := by
  rcases takeIn_cases fields incoming with
    ⟨new, taken⟩ | ⟨earlier, field, later, split, same, last, taken⟩
  · rw [taken, List.find?_append]
    split
    · rename_i named
      subst named
      simp [find?_of_unknown new]
    · rename_i different
      simp [different]
  · rw [split, List.map_append, List.map_cons, List.nodup_append] at distinct
    have first : incoming.name ∉ earlier.map (·.name) := by
      intro inEarlier
      exact distinct.2.2 incoming.name inEarlier field.name
        List.mem_cons_self same.symm
    rw [taken, split, List.find?_append, List.find?_append]
    split
    · rename_i named
      subst named
      simp [find?_of_unknown first]
    · rename_i different
      have differs : field.name ≠ name := fun equal => different (same ▸ equal)
      simp [different, differs]

/-- A name stands for the field of the later row where that row has it. -/
theorem find?_foldl_takeIn
    (distinctEarlier : (earlier.map (·.name)).Nodup)
    (distinctLater : (later.map (·.name)).Nodup) (name : Text) :
    (later.foldl takeIn earlier).find? (·.name = name) =
      (later.find? (·.name = name)).or (earlier.find? (·.name = name)) := by
  induction later generalizing earlier with
  | nil => simp
  | cons first rest ih =>
      rw [List.map_cons, List.nodup_cons] at distinctLater
      rw [List.foldl_cons,
        ih (nodup_names_takeIn distinctEarlier first) distinctLater.2,
        find?_takeIn distinctEarlier]
      by_cases named : first.name = name
      · have absent : rest.find? (·.name = name) = none :=
          find?_of_unknown (named ▸ distinctLater.1)
        simp [named, absent]
      · simp [named]

/-- Two rows of distinct names are one row if they have the same names in the same
order and the same field under each name. -/
theorem eq_of_names_of_find?
    {left right : List Field}
    (distinct : (left.map (·.name)).Nodup)
    (names : left.map (·.name) = right.map (·.name))
    (found : ∀ name, left.find? (·.name = name) = right.find? (·.name = name)) :
    left = right := by
  induction left generalizing right with
  | nil =>
      symm
      simpa using names.symm
  | cons first rest ih =>
      cases right with
      | nil => simp at names
      | cons other others =>
          simp only [List.map_cons, List.cons.injEq] at names
          rw [List.map_cons, List.nodup_cons] at distinct
          have head : first = other := by
            have here := found first.name
            simpa [names.1] using here
          subst head
          congr 1
          apply ih distinct.2 names.2
          intro name
          by_cases named : first.name = name
          · have unknown : name ∉ rest.map (·.name) := named ▸ distinct.1
            rw [find?_of_unknown unknown, find?_of_unknown (names.2 ▸ unknown)]
          · have here := found name
            simpa [named] using here

/-! ## Taking a merged row in -/

/-- Of two fields of one name only the later one leaves a trace. -/
theorem takeIn_takeIn_of_same
    (same : field.name = incoming.name) :
    takeIn (takeIn fields field) incoming = takeIn fields incoming := by
  rcases takeIn_cases fields field with
    ⟨new, taken⟩ | ⟨before, replaced, after, split, named, last, taken⟩
  · rw [taken, takeIn_append_cons same (by simp), takeIn_of_new (same ▸ new)]
  · rw [taken, takeIn_append_cons same (same ▸ last), split,
      takeIn_append_cons (named.trans same) (same ▸ last)]

theorem takeIn_append_left
    (present : incoming.name ∈ earlier.map (·.name))
    (last : incoming.name ∉ later.map (·.name)) :
    takeIn (earlier ++ later) incoming = takeIn earlier incoming ++ later := by
  obtain ⟨before, field, after, split, same, lastBefore⟩ :=
    Row.exists_last_split present
  have lastOfAll : incoming.name ∉ (after ++ later).map (·.name) := by
    simp only [List.map_append, List.mem_append, not_or]
    exact ⟨lastBefore, last⟩
  rw [split, takeIn_append_cons same lastBefore, List.append_assoc,
    List.cons_append, takeIn_append_cons same lastOfAll]
  simp

theorem takeIn_append_right
    (present : incoming.name ∈ later.map (·.name)) :
    takeIn (earlier ++ later) incoming = earlier ++ takeIn later incoming := by
  obtain ⟨before, field, after, split, same, last⟩ := Row.exists_last_split present
  rw [split, takeIn_append_cons same last, ← List.append_assoc,
    takeIn_append_cons same last]
  simp

/-- A field whose name is known may be taken in before a field of another name. -/
theorem takeIn_comm
    (present : incoming.name ∈ fields.map (·.name))
    (different : field.name ≠ incoming.name) :
    takeIn (takeIn fields field) incoming =
      takeIn (takeIn fields incoming) field := by
  rcases takeIn_cases fields field with
    ⟨new, taken⟩ | ⟨before, replaced, after, split, named, last, taken⟩
  · have stillNew : field.name ∉ (takeIn fields incoming).map (·.name) := by
      rw [mem_names_takeIn]
      rintro (member | equal)
      · exact new member
      · exact different equal
    rw [taken, takeIn_append_left present (by simpa using different.symm),
      takeIn_of_new stillNew]
  · subst split
    rw [taken]
    by_cases behind : incoming.name ∈ after.map (·.name)
    · have stillLast : field.name ∉ (takeIn after incoming).map (·.name) := by
        rw [mem_names_takeIn]
        rintro (member | equal)
        · exact last member
        · exact different equal
      have around : ∀ middle : Field,
          takeIn (before ++ middle :: after) incoming =
            before ++ middle :: takeIn after incoming := by
        intro middle
        rw [List.append_cons, takeIn_append_right behind, ← List.append_cons]
      rw [around, around, takeIn_append_cons named stillLast]
    · have inFront : incoming.name ∈ before.map (·.name) := by
        simp only [List.map_append, List.map_cons, List.mem_append,
          List.mem_cons] at present
        rcases present with member | equal | member
        · exact member
        · exact absurd (named.symm.trans equal.symm) different
        · exact absurd member behind
      have around : ∀ middle : Field, middle.name = field.name →
          takeIn (before ++ middle :: after) incoming =
            takeIn before incoming ++ middle :: after := by
        intro middle same
        apply takeIn_append_left inFront
        simp only [List.map_cons, List.mem_cons, not_or]
        exact ⟨fun equal => different (same.symm.trans equal.symm), behind⟩
      rw [around field rfl, around replaced named, takeIn_append_cons named last]

/-- A row into which a field was taken leaves what the row and then the field
leave. -/
theorem foldl_takeIn_takeIn
    (base fields : List Field) (incoming : Field) :
    (takeIn fields incoming).foldl takeIn base =
      takeIn (fields.foldl takeIn base) incoming := by
  rcases takeIn_cases fields incoming with
    ⟨new, taken⟩ | ⟨before, replaced, after, split, named, last, taken⟩
  · rw [taken, List.foldl_append]
    rfl
  · have swap :
        takeIn (after.foldl takeIn
          (takeIn (before.foldl takeIn base) replaced)) incoming =
          after.foldl takeIn
            (takeIn (takeIn (before.foldl takeIn base) replaced) incoming) := by
      apply Row.take_foldl_comm (fun row => incoming.name ∈ row.map (·.name))
      · intro row other member present
        exact mem_names_takeIn.mpr (Or.inl present)
      · intro row other member present
        apply takeIn_comm present
        intro equal
        exact last (equal ▸ List.mem_map_of_mem member)
      · exact mem_names_takeIn.mpr (Or.inr named.symm)
    rw [taken, split, List.foldl_append, List.foldl_append, List.foldl_cons,
      List.foldl_cons, swap, takeIn_takeIn_of_same named]

/-- Three rows may be merged from either end. -/
theorem foldl_takeIn_assoc (base middle last : List Field) :
    (last.foldl takeIn middle).foldl takeIn base =
      last.foldl takeIn (middle.foldl takeIn base) := by
  induction last using List.reverseRecOn with
  | nil => rfl
  | append_singleton before incoming ih =>
      rw [List.foldl_append, List.foldl_append, List.foldl_cons, List.foldl_cons,
        List.foldl_nil, List.foldl_nil, foldl_takeIn_takeIn, ih]

end SchemaCompose.Field
