import SchemaCompose.Proofs.Reading.Exchange

/-!
# A change to one field

The line of a field may be exchanged for one that declares the same field with a change.
Of a field that was declared, the lines behind it see no more than its name, so they are
read as before (`Model.Reading.step_modifyField`), and the document declares the same but
for the change to that one field (`Schema.parse_modifyField`).
-/

namespace SchemaCompose

/-! ## Changes under a key -/

section Keys

variable {α : Type} {key : α → Text} {name : Text} {change further : α → α}
  {row front back : List α} {item : α}

/-- The row with a change to what stands under that key. -/
def modifyKey (key : α → Text) (name : Text) (change : α → α) (row : List α) : List α :=
  row.map fun item => if key item = name then change item else item

theorem map_key_modifyKey (keeps : ∀ item, key (change item) = key item) :
    (modifyKey key name change row).map key = row.map key := by
  rw [modifyKey, List.map_map]
  refine List.map_congr_left fun item _ => ?_
  rw [Function.comp_apply]
  split_ifs
  · exact keeps item
  · rfl

theorem modifyKey_append :
    modifyKey key name change (front ++ back) =
      modifyKey key name change front ++ modifyKey key name change back :=
  List.map_append

theorem modifyKey_of_unknown (unknown : name ∉ row.map key) :
    modifyKey key name change row = row := by
  refine (List.map_congr_left fun item member => if_neg fun same => ?_).trans row.map_id
  exact unknown (List.mem_map.mpr ⟨item, member, same⟩)

/-- Under keys that differ there is one item to change. -/
theorem modifyKey_around (distinct : ((front ++ item :: back).map key).Nodup) :
    modifyKey key (key item) change (front ++ item :: back) = front ++ change item :: back := by
  rw [List.map_append, List.map_cons, List.nodup_append, List.nodup_cons] at distinct
  obtain ⟨-, ⟨notBehind, -⟩, apart⟩ := distinct
  have notBefore : key item ∉ front.map key := fun before =>
    apart _ before _ List.mem_cons_self rfl
  have behind : modifyKey key (key item) change back = back := modifyKey_of_unknown notBehind
  have here : modifyKey key (key item) change (item :: back) =
      change item :: modifyKey key (key item) change back := by
    rw [modifyKey, List.map_cons, if_pos rfl]
    rfl
  rw [modifyKey_append, modifyKey_of_unknown notBefore, here, behind]

/-- Two changes that follow each other are one. -/
theorem modifyKey_modifyKey (keeps : ∀ item, key (change item) = key item) :
    modifyKey key name further (modifyKey key name change row) =
      modifyKey key name (further ∘ change) row := by
  rw [modifyKey, modifyKey, modifyKey, List.map_map]
  refine List.map_congr_left fun item _ => ?_
  rw [Function.comp_apply]
  by_cases named : key item = name
  · rw [if_pos named, if_pos ((keeps item).trans named), if_pos named]
    rfl
  · rw [if_neg named, if_neg named, if_neg named]

end Keys

/-- What every step does alike in front of a change and behind it, a whole run does. -/
theorem Reading.foldlM_carries {ε α σ : Type} (Holds : σ → Prop) {change : σ → σ}
    {step : σ → α → Except ε σ} {row : List α} {start final : σ}
    (carries : ∀ state item next, Holds state → step state item = .ok next →
      Holds next ∧ step (change state) item = .ok (change next))
    (holds : Holds start) (read : row.foldlM step start = .ok final) :
    row.foldlM step (change start) = .ok (change final) := by
  induction row generalizing start with
  | nil =>
      rw [List.foldlM_nil, pure_eq_ok] at read
      rw [List.foldlM_nil, read]
      rfl
  | cons item row ih =>
      rw [List.foldlM_cons, bind_eq_ok] at read
      obtain ⟨next, stepped, further⟩ := read
      obtain ⟨still, changed⟩ := carries start item next holds stepped
      rw [List.foldlM_cons, changed, ok_bind]
      exact ih still further

/-! ## Models -/

namespace Model

variable {name : Text} {change : Field → Field} {model next : Model} {names : DeclaredNames}
  {line fresh : Line}

/-- The model with a change to the field of that name. -/
def modifyField (name : Text) (change : Field → Field) (model : Model) : Model :=
  { model with fields := modifyKey (·.name) name change model.fields }

/-- The attributes of a model do not look at its fields. -/
theorem withAttribute_modifyField {source : Attribute}
    (read : model.withAttribute source = .ok next) :
    (model.modifyField name change).withAttribute source =
      .ok (next.modifyField name change) := by
  unfold withAttribute at read ⊢
  split_ifs at read ⊢
  · obtain ⟨stored, found, rfl⟩ := SchemaCompose.Reading.map_eq_ok.mp read
    rw [found]
    rfl
  · obtain ⟨key, found, rfl⟩ := SchemaCompose.Reading.map_eq_ok.mp read
    rw [found]
    rfl
  · obtain ⟨key, found, rfl⟩ := SchemaCompose.Reading.map_eq_ok.mp read
    rw [found]
    rfl
  · obtain rfl := Except.ok.inj read
    rfl

namespace Reading

variable {reading after : Model.Reading}

/-- The model that is read so far, with a change to the field of that name. -/
def modifyField (name : Text) (change : Field → Field) (reading : Model.Reading) :
    Model.Reading :=
  { reading with model := reading.model.modifyField name change }

/-- A field line declares the field that is read from it, which has a new name. -/
theorem step_eq_ok_iff_of_isField (isField : line.isField = true) :
    reading.step names line = .ok after ↔
      ∃ field, Field.read names (joinDocumentation reading.documentation) line.code =
          .ok field ∧
        field.name ∉ reading.model.fields.map (·.name) ∧
        after = { model :=
          { reading.model with fields := reading.model.fields ++ [field] } } := by
  rw [step_of_isField reading isField, SchemaCompose.Reading.atLine_eq_ok,
    SchemaCompose.Reading.bind_eq_ok]
  refine exists_congr fun field => and_congr_right fun _ => ?_
  have repeated : reading.model.fields.any (·.name = field.name) = true ↔
      field.name ∈ reading.model.fields.map (·.name) := by
    simp
  split_ifs with known
  · exact iff_of_false nofun fun given => given.1 (repeated.mp known)
  · rw [SchemaCompose.Reading.pure_eq_ok, ← repeated]
    exact ⟨fun same => ⟨known, same.symm⟩, fun given => given.2.symm⟩

/-- Behind a field, every line is read as it is behind the field with the change. -/
theorem step_modifyField (keeps : ∀ field, (change field).name = field.name)
    (known : name ∈ reading.model.fields.map (·.name))
    (read : reading.step names line = .ok after) :
    (reading.modifyField name change).step names line =
      .ok (after.modifyField name change) := by
  rcases step_cases_of_sort read with
    ⟨silent, rfl⟩ | ⟨marked, sources, model, scanned, folded, rfl⟩ |
      ⟨isField, field, readField, new, rfl⟩
  · rw [step_of_isSilent _ silent]
    rfl
  · have changed : sources.foldlM withAttribute (reading.model.modifyField name change) =
        .ok (model.modifyField name change) :=
      SchemaCompose.Reading.foldlM_carries (fun _ => True)
        (fun _ _ _ _ stepped => ⟨trivial, withAttribute_modifyField stepped⟩) trivial folded
    rw [step_of_isMarked _ marked, scanned, SchemaCompose.Reading.ok_bind, modifyField, changed]
    rfl
  · refine (step_eq_ok_iff_of_isField isField).mpr ⟨field, readField, ?_, ?_⟩
    · rwa [modifyField, Model.modifyField, map_key_modifyKey keeps]
    · have apart : name ∉ [field].map (·.name) := by
        rw [List.map_singleton, List.mem_singleton]
        rintro rfl
        exact new known
      rw [modifyField, Model.modifyField, modifyKey_append, modifyKey_of_unknown apart]
      rfl

end Reading

/-- The line of a field is exchanged for one that declares the field with the change. -/
structure IsChange (names : DeclaredNames) (name : Text) (change : Field → Field)
    (line fresh : Line) : Prop where
  isField : line.isField = true
  freshField : fresh.isField = true
  named : line.fieldName? = some name
  keeps : ∀ field, (change field).name = field.name
  changed : ∀ documentation field, Field.read names documentation line.code = .ok field →
    Field.read names documentation fresh.code = .ok (change field)

theorem IsChange.step (isChange : IsChange names name change line fresh)
    {reading after : Model.Reading} (read : reading.step names line = .ok after) :
    name ∈ after.model.fields.map (·.name) ∧
      reading.step names fresh = .ok (after.modifyField name change) := by
  obtain ⟨field, readField, new, rfl⟩ :=
    (Reading.step_eq_ok_iff_of_isField isChange.isField).mp read
  have named := isChange.named
  rw [Line.fieldName?, if_pos isChange.isField,
    (Field.documentation_of_read readField).1] at named
  obtain rfl := Option.some.inj named
  refine ⟨by simp, (Reading.step_eq_ok_iff_of_isField isChange.freshField).mpr
    ⟨change field, isChange.changed _ field readField, ?_, ?_⟩⟩
  · rwa [isChange.keeps]
  · rw [Reading.modifyField, Model.modifyField, modifyKey_append, modifyKey_of_unknown new,
      modifyKey, List.map_singleton, if_pos rfl]

theorem ofBlock_modifyField {block : Block} {above below : List Line}
    (isChange : IsChange names name change line fresh)
    (body : block.body = above ++ line :: below) (read : ofBlock names block = .ok model) :
    ofBlock names (block.withBody (above ++ fresh :: below)) =
      .ok (model.modifyField name change) := by
  rw [ofBlock, body, SchemaCompose.Reading.bind_eq_ok] at read
  obtain ⟨final, folded, finished⟩ := read
  rw [List.foldlM_append, SchemaCompose.Reading.bind_eq_ok] at folded
  obtain ⟨reading, front, folded⟩ := folded
  rw [List.foldlM_cons, SchemaCompose.Reading.bind_eq_ok] at folded
  obtain ⟨next, stepped, behind⟩ := folded
  obtain ⟨known, changed⟩ := isChange.step stepped
  have further : below.foldlM (Reading.step names) (next.modifyField name change) =
      .ok (final.modifyField name change) := by
    refine SchemaCompose.Reading.foldlM_carries
      (fun state : Model.Reading => name ∈ state.model.fields.map (·.name)) ?_ known behind
    intro state item after holds stepped
    refine ⟨?_, Reading.step_modifyField isChange.keeps holds stepped⟩
    rw [Reading.names_of_step stepped]
    exact List.mem_append_left _ holds
  have whole : (above ++ fresh :: below).foldlM (Reading.step names)
      { model := { name := block.name, documentation := block.documentation } } =
        .ok (final.modifyField name change) := by
    rw [List.foldlM_append, front, SchemaCompose.Reading.ok_bind, List.foldlM_cons, changed,
      SchemaCompose.Reading.ok_bind, further]
  obtain rfl := SchemaCompose.Reading.pure_eq_ok.mp finished
  exact SchemaCompose.Reading.bind_eq_ok.mpr ⟨_, whole, rfl⟩

end Model

/-! ## Documents -/

namespace Schema

variable {model name : Text} {change further : Field → Field} {schema : Schema}

/-- The schema with a change to the field of that name in the model of that name. -/
def modifyField (model name : Text) (change : Field → Field) (schema : Schema) : Schema :=
  { schema with
    models := modifyKey (·.name) model (Model.modifyField name change) schema.models }

theorem modifyField_modifyField (keeps : ∀ field, (change field).name = field.name) :
    (schema.modifyField model name change).modifyField model name further =
      schema.modifyField model name (further ∘ change) := by
  have models : Model.modifyField name further ∘ Model.modifyField name change =
      Model.modifyField name (further ∘ change) := by
    funext declared
    rw [Function.comp_apply, Model.modifyField, Model.modifyField, Model.modifyField,
      modifyKey_modifyKey keeps]
  have whole : modifyKey (·.name) model (Model.modifyField name further)
      (modifyKey (·.name) model (Model.modifyField name change) schema.models) =
        modifyKey (·.name) model (Model.modifyField name (further ∘ change)) schema.models := by
    rw [← models]
    exact modifyKey_modifyKey fun _ => rfl
  exact congrArg (fun models => { schema with models }) whole

/-- With the other line the document declares the field with the change, and all else as
before. -/
theorem parse_modifyField
    {text other : Text} {block : Block} {line fresh : Line}
    (exchange : Exchange text other block line fresh) (isModel : block.kind = .model)
    (inside : fresh.code ≠ ['}']) (accepted : parse text = .ok schema)
    (isChange : Model.IsChange schema.names name change line fresh) :
    parse other = .ok (schema.modifyField block.name name change) := by
  obtain ⟨above, below, front, declared, back, body, own, models, read⟩ :=
    parse_of_exchange_model exchange isModel inside accepted
  have distinct : (schema.models.map (·.name)).Nodup :=
    (List.nodup_append.mp (nodup_of_parse accepted)).1
  rw [models] at distinct
  rw [read, Model.ofBlock_modifyField isChange body own, Except.map, modifyField, models,
    ← Model.name_of_ofBlock own, modifyKey_around distinct]

end Schema

end SchemaCompose
