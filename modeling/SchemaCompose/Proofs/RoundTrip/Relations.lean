import SchemaCompose.Proofs.RoundTrip.Writable

/-!
# Relations and keys that are written out

A relation is written as a row of arguments, its name first and everything else
under a key.  All of it is read back except a name that holds a colon: the reader
takes such a first argument for one that has a key, and finds no name
(`Attribute.relation_of_arguments`).  A compound key has its fields first and its
name under a key, and is read back in full.
-/

namespace SchemaCompose

open Arguments

/-! ## Optional arguments -/

variable {setting : Option Text} {mark : Bool} {write : Text → Text}

theorem forall_mem_whenSet
    {Holds : Text → Prop} (holds : ∀ text ∈ setting, Holds (write text)) :
    ∀ argument ∈ whenSet setting write, Holds argument := by
  intro argument member
  rcases setting with _ | _ | ⟨c, text⟩
  · contradiction
  · contradiction
  · rw [List.mem_singleton.mp member]
    exact holds _ rfl

theorem forall_mem_whenMarked
    {Holds : Text → Prop} {text : Text} (holds : Holds text) :
    ∀ argument ∈ whenMarked mark text, Holds argument := by
  intro argument member
  cases mark with
  | false => contradiction
  | true =>
      rw [List.mem_singleton.mp member]
      exact holds

theorem whenSet_of_filled (filled : ∀ text ∈ setting, text ≠ []) :
    whenSet setting write = setting.toList.map write := by
  rcases setting with _ | _ | ⟨c, text⟩
  · rfl
  · exact absurd rfl (filled [] rfl)
  · rfl

/-- A value behind a space that has no quotes around it is given back. -/
theorem unquote_space
    {text : Text} (trimmed : Text.IsTrimmed text) (plain : text.head? ≠ some '"') :
    Text.unquote (' ' :: text) = text := by
  have behind : Text.trim (' ' :: text) = text :=
    trimmed.trim_append (show ∀ c ∈ [' '], _ by decide)
  rw [unquote_of_head, behind]
  rwa [behind]

theorem unquote_bracketed (items : List Text) :
    Text.unquote (' ' :: bracketed items) = bracketed items :=
  unquote_space (isTrimmed_bracketed items) (by simp [bracketed])

theorem named?_whenSet_keyed
    (filled : ∀ value ∈ setting, value ≠ []) {key : Text} (isName : Text.IsName key)
    (sought : Text) :
    named? sought (whenSet setting (keyed key)) =
      if key = sought then setting.map Text.unquote else none := by
  cases setting with
  | none => simp [whenSet, named?]
  | some value =>
      rw [whenSet_of_filled filled, Option.toList_some, List.map_singleton,
        named?_singleton_keyed isName, unquote_cons_space, Option.map_some]

theorem named?_whenMarked_keyed
    (items : List Text) {key : Text} (isName : Text.IsName key) (sought : Text) :
    named? sought (whenMarked (!items.isEmpty) (keyed key (bracketed items))) =
      if key = sought ∧ items ≠ [] then some (bracketed items) else none := by
  cases items with
  | nil => simp [whenMarked, named?]
  | cons item others =>
      rw [List.isEmpty_cons, Bool.not_false, whenMarked, if_pos rfl,
        named?_singleton_keyed isName, unquote_bracketed]
      simp

theorem named?_whenSet_inQuotes {key : Text} (plain : key.head? ≠ some '"') :
    named? key (whenSet setting inQuotes) = none := by
  rcases setting with _ | _ | ⟨c, text⟩
  · rfl
  · rfl
  · exact named?_inQuotes plain (c :: text)

/-! ## Relations -/

namespace Relation

/-- The arguments of a relation attribute with an action on update. -/
def argumentsWith (relation : Relation) (onUpdate : Option Text) : List Text :=
  relation.arguments ++ whenSet onUpdate (keyed "onUpdate")

theorem arguments_eq (relation : Relation) :
    relation.arguments =
      whenSet relation.name inQuotes ++
        whenMarked (!relation.fields.isEmpty)
          (keyed "fields" (bracketed relation.fields)) ++
        whenMarked (!relation.references.isEmpty)
          (keyed "references" (bracketed relation.references)) ++
        whenSet relation.onDelete (keyed "onDelete") :=
  rfl

theorem forall_mem_argumentsWith
    {Holds : Text → Prop} {relation : Relation} {onUpdate : Option Text}
    (name : ∀ name ∈ relation.name, Holds (inQuotes name))
    (fields : Holds (keyed "fields" (bracketed relation.fields)))
    (references : Holds (keyed "references" (bracketed relation.references)))
    (onDelete : ∀ action ∈ relation.onDelete, Holds (keyed "onDelete" action))
    (update : ∀ action ∈ onUpdate, Holds (keyed "onUpdate" action)) :
    ∀ argument ∈ relation.argumentsWith onUpdate, Holds argument := by
  rw [argumentsWith, arguments_eq]
  simp only [List.forall_mem_append]
  exact ⟨⟨⟨⟨forall_mem_whenSet name, forall_mem_whenMarked fields⟩,
    forall_mem_whenMarked references⟩, forall_mem_whenSet onDelete⟩,
      forall_mem_whenSet update⟩

variable {relation : Relation} {onUpdate : Option Text}

theorem IsWritable.isArgument
    (writable : relation.IsWritable)
    (update : ∀ action ∈ onUpdate, IsItem action) :
    ∀ argument ∈ relation.argumentsWith onUpdate, IsArgument argument := by
  apply forall_mem_argumentsWith
  · intro name member
    exact isArgument_inQuotes (writable.name name member).1.contained
  · exact isArgument_keyed (by decide) (isArgument_bracketed writable.fields)
  · exact isArgument_keyed (by decide) (isArgument_bracketed writable.references)
  · intro action member
    have readable := writable.onDelete action member
    exact isArgument_keyed (by decide) (readable.1.isArgument readable.2)
  · intro action member
    exact isArgument_keyed (by decide) (update action member).isArgument

theorem IsWritable.balanced
    (writable : relation.IsWritable)
    (update : ∀ action ∈ onUpdate, IsItem action) :
    ∀ argument ∈ relation.argumentsWith onUpdate, Balanced argument := by
  apply forall_mem_argumentsWith
  · intro name member
    exact balanced_inQuotes (writable.name name member).1.contained.isDelimited
  · exact balanced_keyed (by decide) (balanced_bracketed writable.fields)
  · exact balanced_keyed (by decide) (balanced_bracketed writable.references)
  · intro action member
    exact balanced_keyed (by decide) (writable.onDelete action member).1.balanced
  · intro action member
    exact balanced_keyed (by decide) (update action member).balanced

/-- What the arguments of a relation hold under a key. -/
theorem IsWritable.named?_argumentsWith
    (writable : relation.IsWritable) (update : ∀ action ∈ onUpdate, IsItem action)
    {key : Text} (plain : key.head? ≠ some '"') :
    named? key (relation.argumentsWith onUpdate) =
      (((if "fields".toList = key ∧ relation.fields ≠ [] then
              some (bracketed relation.fields) else none).or
          (if "references".toList = key ∧ relation.references ≠ [] then
              some (bracketed relation.references) else none)).or
          (if "onDelete".toList = key then relation.onDelete.map Text.unquote
            else none)).or
        (if "onUpdate".toList = key then onUpdate.map Text.unquote else none) := by
  rw [argumentsWith, arguments_eq, named?_append, named?_append, named?_append,
    named?_append, named?_whenSet_inQuotes plain,
    named?_whenMarked_keyed _ (by decide), named?_whenMarked_keyed _ (by decide),
    named?_whenSet_keyed (fun action member => (writable.onDelete action member).2)
      (by decide),
    named?_whenSet_keyed (fun action member => (update action member).filled)
      (by decide), Option.none_or]

/-- A relation that has no name starts with a key, if it has any argument. -/
theorem colon_mem_of_head?
    (unnamed : relation.name = none) :
    ∀ first ∈ (relation.argumentsWith onUpdate).head?, ':' ∈ first := by
  intro first found
  have colon : ∀ key value : Text, ':' ∈ keyed key value := by
    intro key value
    simp [keyed]
  refine forall_mem_argumentsWith ?_ (colon _ _) (colon _ _) (fun _ _ => colon _ _)
    (fun _ _ => colon _ _) first (List.mem_of_mem_head? found)
  simp [unnamed]

/-- A relation that has a name starts with it. -/
theorem exists_argumentsWith
    {text : Text} (named : relation.name = some text) (filled : text ≠ [])
    (onUpdate : Option Text) :
    ∃ others, relation.argumentsWith onUpdate = inQuotes text :: others := by
  obtain ⟨c, rest, rfl⟩ := List.exists_cons_of_ne_nil filled
  rw [argumentsWith, arguments_eq, named]
  exact ⟨_, rfl⟩

end Relation

namespace Attribute

variable {relation : Relation} {onUpdate : Option Text}

theorem listNamed_of_named?
    {source : Attribute} {arguments items : List Text}
    (splits : source.split = .ok arguments)
    (key : Text) (each : ∀ item ∈ items, IsMember item)
    (found : Arguments.named? key arguments =
      if items ≠ [] then some (bracketed items) else none) :
    source.listNamed key = .ok (withoutEmptyLast items) := by
  have named : source.named? key =
      .ok (if items ≠ [] then some (bracketed items) else none) := by
    rw [Attribute.named?, splits, ← found]
    rfl
  rw [listNamed, named]
  cases items with
  | nil => rfl
  | cons item others => exact listOf_bracketed each

/-- The relation that is written is read back, except for a name that holds a
colon. -/
theorem relation_of_arguments
    (writable : relation.IsWritable)
    (update : ∀ action ∈ onUpdate, IsItem action) :
    (Attribute.mk "@relation"
      (some (commaRow (relation.argumentsWith onUpdate)))).relation =
      .ok relation.reread := by
  have splits :
      (Attribute.mk "@relation"
        (some (commaRow (relation.argumentsWith onUpdate)))).split =
        .ok (relation.argumentsWith onUpdate) :=
    split_commaRow (writable.isArgument update)
  have name : Arguments.named? "name" (relation.argumentsWith onUpdate) = none := by
    rw [writable.named?_argumentsWith update (by decide)]
    simp
  have onDelete :
      Arguments.named? "onDelete" (relation.argumentsWith onUpdate) =
        relation.onDelete.map Text.unquote := by
    rw [writable.named?_argumentsWith update (by decide)]
    simp
  have fields := listNamed_of_named? splits "fields" writable.fields (by
    rw [writable.named?_argumentsWith update (by decide)]
    simp)
  have references :=
    listNamed_of_named? splits "references" writable.references (by
    rw [writable.named?_argumentsWith update (by decide)]
    simp)
  rw [Attribute.relation, splits, Reading.ok_bind, fields, Reading.ok_bind,
    references, Reading.ok_bind, name, onDelete]
  -- What is left is the name, which only the first argument decides.
  refine congrArg Except.ok ?_
  cases named : relation.name with
  | none =>
      have colon : ∀ first ∈ (relation.argumentsWith onUpdate).head?, ':' ∈ first :=
        Relation.colon_mem_of_head? named
      cases row : relation.argumentsWith onUpdate with
      | nil => simp [Relation.reread, named]
      | cons first others =>
          have own : ':' ∈ first := colon first (by simp [row])
          simp [Relation.reread, named, own]
  | some text =>
      obtain ⟨quoted, filled⟩ := writable.name text named
      obtain ⟨others, row⟩ :=
        Relation.exists_argumentsWith named filled onUpdate
      have unquoted : Text.unquote (inQuotes text) = text :=
        unquote_inQuotes quoted.contained.plain
      have holds : (inQuotes text).contains ':' = text.contains ':' := by
        simp [inQuotes]
      simp only [row, holds, unquoted, Relation.reread, named, Option.filter_some]
      cases text.contains ':' with
      | true => rfl
      | false => rfl

end Attribute

/-! ## Compound keys -/

namespace CompoundKey

/-- The arguments of a compound attribute. -/
def arguments (key : CompoundKey) : List Text :=
  bracketed key.fields :: whenSet key.name fun name => keyed "name" (inQuotes name)

theorem render_eq (label : Text) (key : CompoundKey) :
    key.render label =
      (Attribute.mk label (some (commaRow key.arguments))).write := by
  obtain ⟨fields, name⟩ := key
  rcases name with _ | _ | ⟨c, name⟩
  · simp [render, Attribute.write, arguments, whenSet, commaRow, Text.join,
      bracketed]
  · simp [render, Attribute.write, arguments, whenSet, commaRow, Text.join,
      bracketed]
  · simp [render, Attribute.write, arguments, whenSet, commaRow, Text.join,
      bracketed, keyed]

variable {key : CompoundKey}

theorem forall_mem_arguments
    {Holds : Text → Prop} (fields : Holds (bracketed key.fields))
    (name : ∀ name ∈ key.name, Holds (keyed "name" (inQuotes name))) :
    ∀ argument ∈ key.arguments, Holds argument :=
  List.forall_mem_cons.mpr ⟨fields, forall_mem_whenSet name⟩

theorem IsWritable.isArgument (writable : key.IsWritable) :
    ∀ argument ∈ key.arguments, IsArgument argument := by
  apply forall_mem_arguments
  · exact isArgument_bracketed writable.fields
  · intro name member
    exact isArgument_keyed (by decide)
      (isArgument_inQuotes (writable.name name member).1.contained)

theorem IsWritable.balanced (writable : key.IsWritable) :
    ∀ argument ∈ key.arguments, Balanced argument := by
  apply forall_mem_arguments
  · exact balanced_bracketed writable.fields
  · intro name member
    exact balanced_keyed (by decide)
      (balanced_inQuotes (writable.name name member).1.contained.isDelimited)

theorem IsWritable.named?_arguments (writable : key.IsWritable) {sought : Text}
    (plain : sought.head? ≠ some '[') :
    Arguments.named? sought key.arguments =
      if "name".toList = sought then key.name else none := by
  have first : Arguments.named? sought [bracketed key.fields] = none :=
    named?_bracketed plain key.fields
  have row : key.arguments = [bracketed key.fields] ++
      whenSet key.name fun name => keyed "name" (inQuotes name) := rfl
  rw [row, named?_append, first, Option.none_or,
    whenSet_of_filled fun name member => (writable.name name member).2]
  cases named : key.name with
  | none => simp [Arguments.named?]
  | some name =>
      have unquoted : Text.unquote (' ' :: inQuotes name) = name :=
        (unquote_cons_space _).trans
          (unquote_inQuotes (writable.name name named).1.contained.plain)
      rw [Option.toList_some, List.map_singleton,
        named?_singleton_keyed (by decide), unquoted]

/-- A compound key is read again. -/
theorem compoundKey_of_arguments (label : Text) (writable : key.IsWritable) :
    (Attribute.mk label (some (commaRow key.arguments))).compoundKey =
      .ok key.reread := by
  have splits :
      (Attribute.mk label (some (commaRow key.arguments))).split =
        .ok key.arguments :=
    split_commaRow writable.isArgument
  have fields :
      (Attribute.mk label (some (commaRow key.arguments))).named? "fields" =
        .ok none := by
    rw [Attribute.named?, splits, Except.map, writable.named?_arguments (by decide)]
    rfl
  have name :
      (Attribute.mk label (some (commaRow key.arguments))).named? "name" =
        .ok key.name := by
    rw [Attribute.named?, splits, Except.map, writable.named?_arguments (by decide)]
    rfl
  have positional :
      (Attribute.mk label (some (commaRow key.arguments))).positional =
        .ok (bracketed key.fields) := by
    rw [Attribute.positional, splits]
    rfl
  rw [Attribute.compoundKey, fields, Reading.ok_bind, positional, Reading.ok_bind,
    listOf_bracketed writable.fields]
  simp only [Reading.ok_bind, name]
  rfl

end CompoundKey

/-- A quoted argument is found in its place. -/
theorem Attribute.positional_of_inQuotes
    (label : Text) {text : Text} (contained : IsContained text) :
    (Attribute.mk label (some (inQuotes text))).positional =
      .ok (inQuotes text) := by
  have splits :
      (Attribute.mk label (some (inQuotes text))).split = .ok [inQuotes text] :=
    split_commaRow (show ∀ argument ∈ [inQuotes text], IsArgument argument by
      simpa using isArgument_inQuotes contained)
  rw [Attribute.positional, splits]
  rfl

end SchemaCompose
