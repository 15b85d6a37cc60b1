import SchemaCompose.Proofs.Mining.Extras
import SchemaCompose.Proofs.RoundTrip.Fields

/-!
# What is recovered from field lines

The mapping of a column, its native type and the action on update stand in
attributes of their own, and the directives behind them, so that searching the line
of a field gives back exactly what the field carries (`Field.extrasOf_render`).  In
a model with distinct field names, what is recovered for a field is then found
under its name (`Field.find?_foldl_keep`).
-/

namespace SchemaCompose

open Mining

/-! ## Attributes on a line -/

section Attribute

variable {β : Type} {sources : List Attribute} {word inner : Text}

theorem startsBlank_row (sources : List Attribute) :
    StartsBlank (sources.flatMap fun source => ' ' :: source.write) := by
  intro c first
  rw [Text.head?_flatMap_space Attribute.write sources c first]
  decide

theorem isClosed_call (word inner : Text) :
    IsClosed (word ++ '(' :: inner ++ [')']) :=
  IsClosed.append (by simp) (by decide)

theorem mines_marked_row
    (mark : Bool) {name : Text} (mines : Mines (' ' :: name) none none none) :
    Mines (((whenMarked mark name).map (Attribute.mk · none)).flatMap fun source =>
      ' ' :: source.write) none none none := by
  cases mark with
  | false => exact mines_nil
  | true =>
      have one := mines
      rw [← List.append_nil (' ' :: name)] at one
      exact one

theorem mines_optional_row
    {setting : Option β} {source : β → Attribute}
    {column type update : β → Option Text}
    (mines : ∀ value ∈ setting,
      Mines (' ' :: (source value).write) (column value) (type value)
        (update value)) :
    Mines ((setting.toList.map source).flatMap fun source => ' ' :: source.write)
      (setting.bind column) (setting.bind type) (setting.bind update) := by
  cases setting with
  | none => exact mines_nil
  | some value =>
      have one := mines value rfl
      rw [← List.append_nil (' ' :: (source value).write)] at one
      exact one

end Attribute

/-! ## Relations -/

namespace Relation

variable {relation : Relation}

theorem isInert_of_mem_arguments (silent : relation.IsSilent) :
    ∀ argument ∈ relation.arguments, IsInert argument := by
  have each : ∀ argument ∈ relation.argumentsWith none, IsInert argument := by
    apply forall_mem_argumentsWith
    · intro name member
      exact isInert_inQuotes (silent.name name member)
    · exact isInert_keyed (by decide) (isInert_bracketed silent.fields)
    · exact isInert_keyed (by decide) (isInert_bracketed silent.references)
    · intro action member
      exact isInert_keyed (by decide) (silent.onDelete action member)
    · simp
  intro argument member
  exact each argument (List.mem_append_left _ member)

theorem commaRow_concat {arguments : List Text} (filled : arguments ≠ [])
    (last : Text) :
    commaRow (arguments ++ [last]) = commaRow arguments ++ ',' :: ' ' :: last := by
  induction arguments with
  | nil => contradiction
  | cons argument others ih =>
      cases others with
      | nil => exact Arguments.commaRow_cons_cons argument last []
      | cons next others =>
          rw [List.cons_append, List.cons_append, Arguments.commaRow_cons_cons,
            Arguments.commaRow_cons_cons, ← List.cons_append, ih (by simp),
            List.append_assoc]
          rfl

/-- The relation without an action on update. -/
theorem isInert_call_arguments (silent : relation.IsSilent) :
    IsInert ("relation" ++ '(' :: commaRow relation.arguments ++ [')']) :=
  isInert_call (by decide) (isInert_commaRow (isInert_of_mem_arguments silent))

theorem argumentsWith_eq_concat {action : Text} (known : action ∈ relationActions) :
    relation.argumentsWith (some action) =
      relation.arguments ++ ["onUpdate: " ++ action] := by
  have filled : action ≠ [] := (isItem_of_mem_relationActions action known).filled
  rw [argumentsWith, whenSet_of_filled (by simpa using filled)]
  rfl

/-- Of all marks only that of an action on update can stand in a relation. -/
theorem lacks_signs_call (silent : relation.IsSilent) {action : Text}
    (known : action ∈ relationActions) :
    Lacks signMarks ("relation" ++
      '(' :: commaRow (relation.arguments ++ ["onUpdate: " ++ action]) ++ [')']) := by
  have behind : ∀ action ∈ relationActions,
      Lacks signMarks ("onUpdate: " ++ action ++ [')']) ∧
        Lacks signMarks (' ' :: ("onUpdate: " ++ action ++ [')'])) := by
    decide
  have lead : IsLead signMarks "relation".toList := by decide
  by_cases empty : relation.arguments = []
  · rw [empty]
    exact (behind action known).1.behind lead (by decide)
  · have row : IsInert (commaRow relation.arguments) :=
      isInert_commaRow (isInert_of_mem_arguments silent)
    have whole := (row.lacksSigns.append_cons
      (show Separates signMarks ',' by decide) (behind action known).2).behind lead
      (show Borders signMarks '(' by decide)
    rw [commaRow_concat empty]
    simpa using whole

theorem finds_onUpdate_relation
    (silent : relation.IsSilent) {action : Text}
    (known : action ∈ relationActions) :
    Finds (fun _ => onUpdate?)
      (' ' :: '@' ::
        ("relation" ++
        '(' :: commaRow (relation.arguments ++ ["onUpdate: " ++ action]) ++
        [')'])) (some action) := by
  by_cases empty : relation.arguments = []
  · have left : ¬ "onUpdate:".toList <:+: " @relation".toList := by decide
    have finds := finds_onUpdate left (show '(' ∉ "onUpdate:".toList by decide) known
    rw [empty]
    exact finds
  · have row : IsInert (commaRow relation.arguments ++ [',']) :=
      (isInert_commaRow (isInert_of_mem_arguments silent)).concat (by decide)
    have call :
        IsInert ("relation" ++ '(' :: (commaRow relation.arguments ++ [','])) :=
      row.behind (by decide) (by decide)
    have left : ¬ "onUpdate:".toList <:+:
        [' ', '@'] ++ ("relation" ++
          '(' :: (commaRow relation.arguments ++ [','])) := fun inside =>
      call.unmarked _ (by decide) (infix_of_apart_append (by decide) (by decide) inside)
    have finds := finds_onUpdate left (show ' ' ∉ "onUpdate:".toList by decide) known
    rw [commaRow_concat empty]
    simpa using finds

/-- The relation of a field gives its action on update. -/
theorem mines_write
    (silent : relation.IsSilent) {onUpdate : Option Text}
    (update : ∀ action ∈ onUpdate, action ∈ relationActions) :
    Mines (' ' :: (Attribute.mk "@relation"
      (some (commaRow (relation.argumentsWith onUpdate)))).write) none none
        onUpdate := by
  cases onUpdate with
  | none =>
      have none : relation.argumentsWith none = relation.arguments :=
        List.append_nil _
      rw [none]
      exact mines_of_inert_tail (isInert_call_arguments silent) (isClosed_call _ _)
        (fun _ _ => rfl) (fun _ _ => rfl) (fun _ _ => rfl)
  | some action =>
      have known := update action rfl
      rw [argumentsWith_eq_concat known]
      exact mines_of_marked (lacks_signs_call silent known) (isClosed_call _ _)
        (fun _ _ => rfl) (fun _ _ => rfl) (fun _ _ => rfl)
        (finds_onUpdate_relation silent known)

end Relation

/-! ## Fields -/

theorem FieldExtras.eq_empty
    {extras : FieldExtras} (writable : extras.IsWritable)
    (empty : extras.isEmpty = true) :
    extras = {} := by
  have unset : ∀ {setting : Option Text}, (∀ text ∈ setting, text ≠ []) →
      Text.isSet setting = false → setting = none := by
    rintro (_ | _ | ⟨c, text⟩) filled none
    · rfl
    · exact absurd rfl (filled [] rfl)
    · contradiction
  obtain ⟨column, type, update, shareable, inaccessible, external,
    requires⟩ := extras
  simp only [isEmpty, Bool.not_eq_true', Bool.or_eq_false_iff] at empty
  obtain ⟨⟨⟨⟨⟨⟨noColumn, noType⟩, noUpdate⟩, rfl⟩, rfl⟩, rfl⟩, rfl⟩ := empty
  obtain rfl :=
    unset (fun name member => (writable.columnName name member).2.2) noColumn
  obtain rfl :=
    unset (fun type member => (writable.nativeType type member).filled) noType
  obtain rfl := unset (fun action member =>
    (isItem_of_mem_relationActions action
      (writable.onUpdate action member)).filled) noUpdate
  rfl

namespace Field

variable {names : DeclaredNames} {field : Field}

theorem isClosed_type {type : Text} (isType : IsWritableType type) :
    IsClosed type := by
  rcases isType with isName | ⟨written, _⟩
  · exact isClosed_of_isWord isName.isWord
  · rw [written]
    exact IsClosed.append (by decide) (by decide)

theorem mines_lead (writable : field.IsWritable) (silent : field.IsSilent) :
    Mines (field.name ++ ' ' :: field.typeText) none none none := by
  have type := silent.type
  have closed := isClosed_type writable.type
  have marked : IsInert field.typeText ∧ IsClosed field.typeText := by
    rw [typeText_eq]
    apply field.forall_marks fun marks =>
      IsInert (field.type ++ marks) ∧ IsClosed (field.type ++ marks)
    · exact ⟨type.append_cons (by decide) (by decide),
        IsClosed.append (by decide) (by decide)⟩
    · show IsInert (field.type ++ []) ∧ IsClosed (field.type ++ [])
      rw [List.append_nil]
      exact ⟨type, closed⟩
    · exact ⟨type.concat (by decide), IsClosed.append (by decide) (by decide)⟩
  have behind : IsClosed ([' '] ++ field.typeText) :=
    IsClosed.append (typeText_ne_nil writable) marked.2
  exact mines_of_isInert
    (marked.1.behind (isLead_of_isWord writable.name.isWord) (by decide))
    (IsClosed.append (by simp) behind)

theorem mines_nativeAttribute
    {type : Text} (isNativeType : IsWritableNativeType type) (isInert : IsInert type) :
    Mines (' ' :: (nativeAttribute type).write) none (some type) none := by
  have run : ∀ c ∈ type.takeWhile Text.isWord, Text.isWord c = true := by
    intro c member
    exact List.mem_takeWhile_imp member
  have inert : IsInert ("db." ++ type) :=
    isInert.behind (show IsLead rowMarks "db".toList by decide)
      (show Borders rowMarks '.' by decide)
  have closed : IsClosed ("db." ++ type) := by
    apply IsClosed.append isNativeType.filled
    rcases isNativeType.cases with ⟨_, whole⟩ | ⟨inner, _, whole⟩
    · rw [whole] at run
      exact isClosed_of_isWord run
    · rw [whole]
      exact isClosed_call _ _
  rw [isNativeType.written]
  exact mines_of_inert_tail inert closed (fun _ _ => rfl)
    (fun _ blank => nativeType?_of_isWritable isNativeType blank) (fun _ _ => rfl)

theorem onUpdate_of_relation (writable : field.IsWritable) :
    (field.relation.bind fun _ => field.extras.onUpdate) =
      field.extras.onUpdate := by
  cases relates : field.relation with
  | some relation => rfl
  | none =>
      cases active : field.extras.onUpdate with
      | none => rfl
      | some action =>
          have present := writable.onUpdate (by rw [active]; rfl)
          rw [relates] at present
          contradiction

theorem mines_mark
    (name : Text)
    (known : name ∈ ["@id".toList, "@unique".toList, "@updatedAt".toList]) :
    Mines (' ' :: name) none none none := by
  have each : ∀ name ∈ ["@id".toList, "@unique".toList, "@updatedAt".toList],
      Mines (' ' :: name) none none none := by
    simp only [List.forall_mem_cons]
    refine ⟨?_, ?_, ?_, by simp⟩
    · exact mines_of_inert_tail (by decide) (by decide) (fun _ _ => rfl)
        (fun _ _ => rfl) (fun _ _ => rfl)
    · exact mines_of_inert_tail (by decide) (by decide) (fun _ _ => rfl)
        (fun _ _ => rfl) (fun _ _ => rfl)
    · exact mines_of_inert_tail (by decide) (by decide) (fun _ _ => rfl)
        (fun _ _ => rfl) (fun _ _ => rfl)
  exact each name known

theorem mines_default {value : Text} (isInert : IsInert value) :
    Mines (' ' :: (Attribute.mk "@default" (some value)).write) none none none :=
  mines_of_inert_tail
    (isInert_call (show IsLead rowMarks "default".toList by decide) isInert)
    (isClosed_call _ _) (fun _ _ => rfl) (fun _ _ => rfl) (fun _ _ => rfl)

theorem mines_mapping {name : Text} (plain : '"' ∉ name)
    (isInert : IsInert name) :
    Mines (' ' :: (Attribute.mk "@map" (some (inQuotes name))).write)
      (some name) none none :=
  mines_of_inert_tail
    (isInert_call (show IsLead rowMarks "map".toList by decide)
      (isInert_inQuotes isInert))
    (isClosed_call _ _) (fun rest _ => columnName?_mapping plain rest)
    (fun _ _ => rfl) (fun _ _ => rfl)

/-- Every attribute gives its own, and the row of attributes gives all of it. -/
theorem mines_attributeRow (writable : field.IsWritable)
    (silent : field.IsSilent) :
    Mines field.attributeRow field.extras.columnName field.extras.nativeType
      field.extras.onUpdate := by
  have identified := mines_marked_row field.isId (mines_mark "@id" (by simp))
  have unique := mines_marked_row field.isUnique (mines_mark "@unique" (by simp))
  have updated :=
    mines_marked_row field.isUpdatedAt (mines_mark "@updatedAt" (by simp))
  have default := mines_optional_row fun value member =>
    mines_default (silent.default value member)
  have column := mines_optional_row fun name member =>
    mines_mapping (writable.extras.columnName name member).1.plain
      (silent.columnName name member)
  have type := mines_optional_row fun type member =>
    mines_nativeAttribute (writable.extras.nativeType type member)
      (silent.nativeType type member)
  have relation := mines_optional_row fun relation member =>
    Relation.mines_write
      (silent.relation relation member) writable.extras.onUpdate
  have whole := identified.append unique (startsBlank_row _)
    |>.append default (startsBlank_row _)
    |>.append updated (startsBlank_row _)
    |>.append column (startsBlank_row _)
    |>.append type (startsBlank_row _)
    |>.append relation (startsBlank_row _)
  simp only [Option.none_or, Option.or_none, Option.bind_fun_none,
    Option.bind_fun_some, onUpdate_of_relation writable] at whole
  rw [attributeRow, attributes]
  simp only [List.flatMap_append]
  exact whole

/-- The code of a field's line gives the mapping, the native type and the action on
update. -/
theorem mines_code (writable : field.IsWritable) (silent : field.IsSilent) :
    Mines field.code field.extras.columnName field.extras.nativeType
      field.extras.onUpdate := by
  have whole := (mines_lead writable silent).append
    (mines_attributeRow writable silent)
    (startsBlank_row _)
  simp only [Option.none_or] at whole
  rw [code]
  simpa only [List.append_assoc, List.cons_append] using whole

/-- Every choice of directives is found again, and nothing else is found with it. -/
theorem mined_directives :
    ∀ shareable inaccessible external requires : Bool,
      let row :=
        (whenMarked shareable "//@shareable" ++
        whenMarked inaccessible "//@inaccessible" ++
        whenMarked external "//@external" ++
          whenMarked requires "//@requires").flatMap (' ' :: ·)
      extrasOf row = { shareable, inaccessible, external, requires } ∧
        firstMatch (fun _ => extraIndex?) none row = none := by
  decide

theorem extrasOf_directiveRow (field : Field) :
    extrasOf field.directiveRow =
        { field.extras with
          columnName := none, nativeType := none, onUpdate := none } ∧
      firstMatch (fun _ => extraIndex?) none field.directiveRow = none :=
  mined_directives field.extras.shareable field.extras.inaccessible
    field.extras.external
    field.extras.requires

theorem startsBlank_directiveRow (field : Field) :
    StartsBlank field.directiveRow := by
  rcases directiveRow_cases field with none | ⟨rest, row⟩
  · rw [none]
    exact startsBlank_nil
  · rw [row]
    exact startsBlank_space _

/-- The line of a field gives everything that is recovered for the field. -/
theorem extrasOf_render (writable : field.IsWritable)
    (silent : field.IsSilent) :
    extrasOf field.render = field.extras := by
  rw [render_eq writable,
    (mines_code writable silent).extrasOf_append (startsBlank_directiveRow field),
    (extrasOf_directiveRow field).1]
  simp only [Option.or_none]

theorem takeWhile_render (writable : field.IsWritable) :
    field.render.takeWhile (!Text.isBlank ·) = field.name := by
  rw [render_eq writable, code, List.append_assoc]
  exact (writable.name.takeWhile_visible (startsBlank_space _)).1

/-- The registry of a model's fields with what is recovered for one more field. -/
def keep (mined : Registry Text FieldExtras) (field : Field) :
    Registry Text FieldExtras :=
  if field.extras.isEmpty then mined else mined.put field.name field.extras

theorem keepLine_render (writable : field.IsWritable)
    (silent : field.IsSilent) (mined : MinedModel) :
    keepLine mined field.render =
      { mined with fields := keep mined.fields field } := by
  have plain : field.render.head? ≠ some '/' := by
    rw [render_eq writable, code, List.append_assoc]
    exact writable.name.head?_ne (by decide) _
  have noIndex : firstMatch (fun _ => extraIndex?) none field.render = none := by
    rw [render_eq writable,
      (mines_code writable silent).extraIndex none _ (startsBlank_directiveRow field),
      (extrasOf_directiveRow field).2]
    rfl
  rw [keepLine_of_extras plain noIndex (extrasOf_render writable silent),
    takeWhile_render writable, keep]
  split
  · rfl
  · rfl

theorem find?_foldl_keep_of_unknown
    {fields : List Field} {name : Text} (unknown : name ∉ fields.map (·.name))
    (mined : Registry Text FieldExtras) :
    Registry.find? name (fields.foldl keep mined) = Registry.find? name mined := by
  induction fields generalizing mined with
  | nil => rfl
  | cons field others ih =>
      rw [List.map_cons, List.mem_cons, not_or] at unknown
      rw [List.foldl_cons, ih unknown.2, keep]
      split
      · rfl
      · exact Registry.find?_put_of_ne unknown.1 _ _

/-- What is found under the name of a field is what it carries. -/
theorem find?_foldl_keep
    {fields : List Field} (writable : ∀ field ∈ fields, field.extras.IsWritable)
    (distinct : (fields.map (·.name)).Nodup) (mined : Registry Text FieldExtras)
    (unknown : ∀ field ∈ fields, Registry.find? field.name mined = none) :
    ∀ field ∈ fields,
      (Registry.find? field.name (fields.foldl keep mined)).getD {} =
        field.extras := by
  induction fields generalizing mined with
  | nil => simp
  | cons field others ih =>
      rw [List.map_cons, List.nodup_cons] at distinct
      rw [List.forall_mem_cons] at writable unknown ⊢
      constructor
      · rw [List.foldl_cons, find?_foldl_keep_of_unknown distinct.1, keep]
        split
        · rename_i empty
          rw [unknown.1, FieldExtras.eq_empty writable.1 empty]
          rfl
        · rw [Registry.find?_put_self]
          rfl
      · rw [List.foldl_cons]
        apply ih writable.2 distinct.2
        intro other member
        rw [keep]
        split
        · exact unknown.2 other member
        · rw [Registry.find?_put_of_ne _]
          · exact unknown.2 other member
          · intro same
            exact distinct.1 (same ▸ List.mem_map_of_mem member)

end Field

end SchemaCompose
