import SchemaCompose.Proofs.Reading.Attribution
import SchemaCompose.Proofs.Text.Names

/-!
# Bodies that are accepted

Whether the body of a model or an enum is accepted is decided line by line: a line is
readable by itself, whatever was read before, except that no field may be declared
twice (`Model.exists_ofBlock_iff`, `SchemaEnum.exists_ofBlock_iff`).  What an accepted
body declares is collected in the same way: its fields are those of its field lines, and
its keys those of its marked lines (`Model.fields_of_ofBlock`, `Model.hasKeys_of_ofBlock`).
-/

namespace SchemaCompose

/-- Steps that do not depend on the state go through a row exactly if each item is
taken. -/
theorem Reading.exists_foldlM_iff
    {ε α σ : Type} {Takes : α → Prop} {step : σ → α → Except ε σ}
    (each : ∀ state item, (∃ next, step state item = .ok next) ↔ Takes item)
    (row : List α) (start : σ) :
    (∃ final, row.foldlM step start = .ok final) ↔ ∀ item ∈ row, Takes item := by
  induction row generalizing start with
  | nil => simp [pure, Except.pure]
  | cons item rest ih =>
      rw [List.forall_mem_cons, ← each start]
      simp only [List.foldlM_cons, bind_eq_ok]
      constructor
      · rintro ⟨final, next, stepped, further⟩
        exact ⟨⟨next, stepped⟩, (ih next).mp ⟨final, further⟩⟩
      · rintro ⟨⟨next, stepped⟩, others⟩
        obtain ⟨final, further⟩ := (ih next).mpr others
        exact ⟨final, next, stepped, further⟩

/-! ## Attributes -/

/-- A field takes the attribute: a relation must be readable. -/
def Field.Takes (source : Attribute) : Prop :=
  source.name = "@relation" → ∃ relation, source.relation = .ok relation

/-- A model takes the attribute: a stored name and a key must be readable. -/
@[mk_iff takes_iff]
structure Model.Takes (source : Attribute) : Prop where
  name : source.name = "@@map" → ∃ value, source.positional = .ok value
  key : source.name = "@@id" ∨ source.name = "@@unique" →
    ∃ key, source.compoundKey = .ok key

/-- An enum or its value, whose stored name has the label, takes the attribute. -/
def SchemaEnum.Takes (label : Text) (source : Attribute) : Prop :=
  source.name = label → ∃ value, source.positional = .ok value

section Attributes

theorem Field.exists_withAttribute_iff (field : Field) (source : Attribute) :
    (∃ next, field.withAttribute source = .ok next) ↔ Takes source := by
  unfold withAttribute Takes
  split_ifs with id unique updatedAt default relates
  · simp [id]
  · simp [unique]
  · simp [updatedAt]
  · simp [default]
  · simp [relates, Reading.map_eq_ok]
  · exact ⟨fun _ labelled => absurd labelled relates, fun _ => ⟨field, rfl⟩⟩

theorem Model.exists_withAttribute_iff (model : Model) (source : Attribute) :
    (∃ next, model.withAttribute source = .ok next) ↔ Takes source := by
  unfold withAttribute
  rw [takes_iff]
  split_ifs with name id unique
  · simp [name, Reading.map_eq_ok]
  · simp [id, Reading.map_eq_ok]
  · simp [unique, Reading.map_eq_ok]
  · exact ⟨fun _ => ⟨fun labelled => absurd labelled name,
      fun labelled => absurd labelled (not_or.mpr ⟨id, unique⟩)⟩, fun _ => ⟨model, rfl⟩⟩

theorem SchemaEnum.exists_storedNameFrom_iff (label : Text) (before : Option Text)
    (source : Attribute) :
    (∃ next, storedNameFrom label before source = .ok next) ↔ Takes label source := by
  unfold storedNameFrom Takes
  split_ifs with labelled
  · simp [labelled, Reading.map_eq_ok]
  · exact ⟨fun _ same => absurd same labelled, fun _ => ⟨before, rfl⟩⟩

variable (sources : List Attribute)

theorem Field.exists_foldlM_iff (field : Field) :
    (∃ final, sources.foldlM withAttribute field = .ok final) ↔
      ∀ source ∈ sources, Takes source :=
  Reading.exists_foldlM_iff exists_withAttribute_iff sources field

theorem Model.exists_foldlM_iff (model : Model) :
    (∃ final, sources.foldlM withAttribute model = .ok final) ↔
      ∀ source ∈ sources, Takes source :=
  Reading.exists_foldlM_iff exists_withAttribute_iff sources model

theorem SchemaEnum.exists_foldlM_iff (label : Text) (before : Option Text) :
    (∃ final, sources.foldlM (storedNameFrom label) before = .ok final) ↔
      ∀ source ∈ sources, Takes label source :=
  Reading.exists_foldlM_iff (exists_storedNameFrom_iff label) sources before

end Attributes

/-! ## Keys -/

/-- The key that the attribute declares under the label. -/
def Attribute.keys (label : Text) (source : Attribute) : List CompoundKey :=
  if source.name = label then source.compoundKey.toOption.toList else []

namespace Attribute

variable {label : Text} {key : CompoundKey}

theorem keys_of_ne (source : Attribute) (other : source.name ≠ label) :
    source.keys label = [] :=
  if_neg other

theorem keys_of_eq (source : Attribute) (labelled : source.name = label)
    (read : source.compoundKey = .ok key) : source.keys label = [key] := by
  rw [keys, if_pos labelled, read]
  rfl

end Attribute

namespace Line

/-- The keys that a line of a model declares under the label. -/
def keys (label : Text) (line : Line) : List CompoundKey :=
  if line.isMarked then
    ((Attribute.scan line.code).toOption.getD []).flatMap (·.keys label)
  else []

variable {line : Line} {label : Text}

theorem keys_of_isMarked (marked : line.isMarked = true) {sources : List Attribute}
    (scanned : Attribute.scan line.code = .ok sources) :
    line.keys label = sources.flatMap (·.keys label) := by
  rw [keys, marked, if_pos rfl, scanned]
  rfl

theorem keys_of_isSilent (silent : line.isSilent = true) : line.keys label = [] := by
  rw [keys, if_neg]
  intro marked
  rw [isSilent_of_isMarked marked] at silent
  contradiction

theorem keys_of_isField (isField : line.isField = true) : line.keys label = [] := by
  rw [keys, (isField_iff.mp isField).2]
  rfl

end Line

/-! ## Lines of a model -/

namespace Line

/-- The name of the field that a line of a model declares. -/
def fieldName? (line : Line) : Option Text :=
  if line.isField then (FieldLine.ofText? line.code).map (·.name) else none

/-- A line that has the shape of a field line is one. -/
theorem isField_of_ofText? {line : Line} {parts : FieldLine}
    (declares : FieldLine.ofText? line.code = some parts) : line.isField = true := by
  obtain ⟨gap, readable, whole⟩ := FieldLine.ofText?_eq_some_iff.mp declares
  rw [isField_iff]
  constructor
  · rw [← Bool.not_eq_true, isSilent_iff, whole]
    simp [FieldLine.row, readable.name.ne_nil]
  · rw [isMarked, whole]
    exact Text.startsWith_of_head? rfl (readable.name.head?_ne (by decide) _)

/-- A line that has the shape of a field line closes no block. -/
theorem not_closing_of_ofText? {line : Line} {parts : FieldLine}
    (declares : FieldLine.ofText? line.code = some parts) : line.code ≠ ['}'] := by
  intro closes
  rw [closes] at declares
  contradiction

/-- A line with block attributes closes no block. -/
theorem not_closing_of_isMarked {line : Line} (marked : line.isMarked = true) :
    line.code ≠ ['}'] := by
  intro closes
  rw [isMarked, closes] at marked
  contradiction

end Line

/-- A field is read from its line exactly if the line has the shape of one, its type is
known and its attributes are readable. -/
theorem Field.exists_read_iff {names : DeclaredNames} {documentation : Option Text}
    {content : Text} :
    (∃ field, read names documentation content = .ok field) ↔
      ∃ parts kind sources, FieldLine.ofText? content = some parts ∧
        names.kindOf? parts.type = some kind ∧
        Attribute.scan parts.attributes = .ok sources ∧
        ∀ source ∈ sources, Takes source := by
  constructor
  · rintro ⟨field, read⟩
    obtain ⟨parts, kind, sources, declares, known, scanned, folded⟩ := exists_of_read read
    exact ⟨parts, kind, sources, declares, known, scanned,
      (exists_foldlM_iff sources _).mp ⟨field, folded⟩⟩
  · rintro ⟨parts, kind, sources, declares, known, scanned, taken⟩
    simp only [read, declares, known, scanned, Reading.ok_bind]
    exact (exists_foldlM_iff sources _).mpr taken

/-- Whether a field is read from its line does not depend on its documentation. -/
theorem Field.exists_read_of_read {names : DeclaredNames} {documentation : Option Text}
    {content : Text} {field : Field}
    (read : Field.read names documentation content = .ok field) (other : Option Text) :
    ∃ field, Field.read names other content = .ok field :=
  Field.exists_read_iff.mpr (Field.exists_read_iff.mp ⟨field, read⟩)

namespace Model

/-- The line is readable in the body of a model. -/
inductive Accepts (names : DeclaredNames) (line : Line) : Prop
  | silent (silent : line.isSilent = true)
  | marked (marked : line.isMarked = true) {sources : List Attribute}
      (scanned : Attribute.scan line.code = .ok sources)
      (taken : ∀ source ∈ sources, Takes source)
  | field (isField : line.isField = true) {field : Field} {documentation : Option Text}
      (read : Field.read names documentation line.code = .ok field)

variable {names : DeclaredNames} {reading next : Model.Reading} {line : Line}

theorem accepts_iff_of_isMarked (marked : line.isMarked = true) {sources : List Attribute}
    (scanned : Attribute.scan line.code = .ok sources) :
    Accepts names line ↔ ∀ source ∈ sources, Takes source := by
  refine ⟨fun accepts => ?_, .marked marked scanned⟩
  cases accepts with
  | silent silent =>
      rw [Line.isSilent_of_isMarked marked] at silent
      contradiction
  | marked _ own taken =>
      obtain rfl := Except.ok.inj (own.symm.trans scanned)
      exact taken
  | field isField _ =>
      rw [Line.isField_of_isMarked marked] at isField
      contradiction

theorem accepts_iff_of_isField (isField : line.isField = true) :
    Accepts names line ↔ ∃ field, Field.read names none line.code = .ok field := by
  refine ⟨fun accepts => ?_, fun ⟨_, read⟩ => .field isField read⟩
  cases accepts with
  | silent silent =>
      rw [Line.isField_of_isSilent silent] at isField
      contradiction
  | marked marked _ _ =>
      rw [Line.isField_of_isMarked marked] at isField
      contradiction
  | field _ read => exact Field.exists_read_of_read read none

/-- A line declares the field that it names, and no other. -/
theorem Reading.names_of_step (read : reading.step names line = .ok next) :
    next.model.fields.map (·.name) =
      reading.model.fields.map (·.name) ++ line.fieldName?.toList := by
  rcases Reading.step_cases_of_sort read with
    ⟨silent, rfl⟩ | ⟨marked, _, model, _, folded, rfl⟩ |
      ⟨isField, field, readField, _, rfl⟩
  · simp [Line.fieldName?, Line.isField_of_isSilent silent]
  · simp [Line.fieldName?, Line.isField_of_isMarked marked,
      (kept_of_foldlM_withAttribute folded).1]
  · simp [Line.fieldName?, isField, (Field.documentation_of_read readField).1]

theorem Reading.exists_step_iff :
    (∃ next, reading.step names line = .ok next) ↔
      Accepts names line ∧
        ∀ name ∈ line.fieldName?, name ∉ reading.model.fields.map (·.name) := by
  constructor
  · rintro ⟨next, read⟩
    rcases Reading.step_cases_of_sort read with
      ⟨silent, rfl⟩ | ⟨marked, sources, model, scanned, folded, rfl⟩ |
        ⟨isField, field, readField, new, rfl⟩
    · exact ⟨.silent silent, by simp [Line.fieldName?, Line.isField_of_isSilent silent]⟩
    · exact ⟨.marked marked scanned ((exists_foldlM_iff sources _).mp ⟨model, folded⟩),
        by simp [Line.fieldName?, Line.isField_of_isMarked marked]⟩
    · refine ⟨.field isField readField, fun name named => ?_⟩
      rw [Line.fieldName?, isField, if_pos rfl, (Field.documentation_of_read readField).1]
        at named
      obtain rfl := Option.some.inj named
      exact new
  · rintro ⟨accepts, new⟩
    cases accepts with
    | silent silent => exact ⟨_, step_of_isSilent reading silent⟩
    | @marked marked sources scanned taken =>
        obtain ⟨model, folded⟩ := (exists_foldlM_iff sources reading.model).mpr taken
        exact ⟨{ model }, by rw [step_of_isMarked reading marked, scanned,
          SchemaCompose.Reading.ok_bind, folded]; rfl⟩
    | field isField read =>
        obtain ⟨field, readField⟩ := Field.exists_read_of_read read
          (joinDocumentation reading.documentation)
        have own : reading.model.fields.any (·.name = field.name) = false := by
          have named : line.fieldName? = some field.name := by
            rw [Line.fieldName?, isField, if_pos rfl,
              (Field.documentation_of_read readField).1]
          simpa using new field.name named
        exact ⟨_, by rw [step_of_isField reading isField, readField,
          SchemaCompose.Reading.ok_bind, own]; rfl⟩

/-- The lines of a body are read behind others exactly if each of them is readable and no
field is declared twice. -/
theorem exists_foldlM_step_iff
    (names : DeclaredNames) (body : List Line) {reading : Model.Reading}
    (distinct : (reading.model.fields.map (·.name)).Nodup) :
    (∃ final, body.foldlM (Reading.step names) reading = .ok final) ↔
      (∀ line ∈ body, Accepts names line) ∧
        (reading.model.fields.map (·.name) ++ body.filterMap Line.fieldName?).Nodup := by
  induction body generalizing reading with
  | nil => simpa [pure, Except.pure] using distinct
  | cons line body ih =>
      rw [List.forall_mem_cons]
      -- The fields named so far are told apart from those that the line and the others name.
      have split : ∀ names : List Text,
          (names ++ (line :: body).filterMap Line.fieldName?).Nodup ↔
            (names ++ line.fieldName?.toList ++ body.filterMap Line.fieldName?).Nodup := by
        intro names
        cases named : line.fieldName? with
        | none => rw [List.filterMap_cons_none named]; simp
        | some name => rw [List.filterMap_cons_some named]; simp
      rw [split]
      constructor
      · rintro ⟨final, read⟩
        rw [List.foldlM_cons, SchemaCompose.Reading.bind_eq_ok] at read
        obtain ⟨next, stepped, further⟩ := read
        have named := Reading.names_of_step stepped
        obtain ⟨accepts, new⟩ := Reading.exists_step_iff.mp ⟨next, stepped⟩
        have nodup : (next.model.fields.map (·.name)).Nodup := by
          rw [named, List.nodup_append]
          refine ⟨distinct, by cases line.fieldName? <;> simp, ?_⟩
          rintro name member other inLine rfl
          exact new name (Option.mem_toList.mp inLine) member
        obtain ⟨others, whole⟩ := (ih nodup).mp ⟨final, further⟩
        exact ⟨⟨accepts, others⟩, named ▸ whole⟩
      · rintro ⟨⟨accepts, others⟩, whole⟩
        have front := (List.nodup_append.mp whole).1
        obtain ⟨next, stepped⟩ := Reading.exists_step_iff.mpr ⟨accepts, by
          intro name inLine member
          exact (List.nodup_append.mp front).2.2 name member name
            (Option.mem_toList.mpr inLine) rfl⟩
        rw [← Reading.names_of_step stepped] at front whole
        obtain ⟨final, further⟩ := (ih front).mpr ⟨others, whole⟩
        exact ⟨final, by rw [List.foldlM_cons, stepped]; exact further⟩

/-- A body is accepted exactly if each of its lines is readable and no field is declared
twice. -/
theorem exists_ofBlock_iff {block : Block} :
    (∃ model, ofBlock names block = .ok model) ↔
      (∀ line ∈ block.body, Accepts names line) ∧
        (block.body.filterMap Line.fieldName?).Nodup := by
  let start : Model := { name := block.name, documentation := block.documentation }
  have body : (∃ final, block.body.foldlM (Reading.step names) { model := start } =
      .ok final) ↔ _ := exists_foldlM_step_iff names block.body List.nodup_nil
  rw [show start.fields.map (·.name) = [] from rfl, List.nil_append] at body
  rw [← body]
  constructor
  · rintro ⟨model, read⟩
    obtain ⟨reading, folded, _⟩ := SchemaCompose.Reading.bind_eq_ok.mp read
    exact ⟨reading, folded⟩
  · rintro ⟨reading, folded⟩
    exact ⟨reading.model, SchemaCompose.Reading.bind_eq_ok.mpr ⟨reading, folded, rfl⟩⟩

/-! ## What a body declares -/

/-- The fields of a model are read from its field lines. -/
theorem fields_of_ofBlock {block : Block} {model : Model}
    (read : ofBlock names block = .ok model) :
    List.Forall₂
      (fun line field => ∃ documentation,
        Field.read names documentation line.code = .ok field)
      (block.body.filter Line.isField) model.fields := by
  obtain ⟨reading, folded, same⟩ := SchemaCompose.Reading.bind_eq_ok.mp read
  obtain rfl := SchemaCompose.Reading.pure_eq_ok.mp same
  apply SchemaCompose.Reading.foldlM_keeps_along
    (fun seen (reading : Model.Reading) => List.Forall₂ _ (seen.filter Line.isField)
      reading.model.fields) ?_ .nil folded
  intro seen line behind state next _ holds stepped
  have row : (seen ++ [line]).filter Line.isField =
      seen.filter Line.isField ++ bif line.isField then [line] else [] := by
    rw [List.filter_append, List.filter_singleton]
  rw [row]
  rcases Reading.step_cases_of_sort stepped with
    ⟨silent, rfl⟩ | ⟨marked, _, model, _, folded, rfl⟩ |
      ⟨isField, field, readField, _, rfl⟩
  · simpa [Line.isField_of_isSilent silent] using holds
  · simpa [Line.isField_of_isMarked marked, (kept_of_foldlM_withAttribute folded).1]
      using holds
  · rw [isField]
    exact List.rel_append holds (.cons ⟨_, readField⟩ .nil)

/-- The unique constraints and the primary keys declared for the model; of the primary keys
the last one counts. -/
structure HasKeys (unique primary : List CompoundKey) (model : Model) : Prop where
  uniqueIndexes : model.uniqueIndexes = unique
  uniqueFields : model.uniqueFields = unique.map (·.fields)
  primaryKey : model.primaryKey = primary.getLast?

variable {model after : Model} {unique primary : List CompoundKey}

theorem HasKeys.withAttribute (has : HasKeys unique primary model) {source : Attribute}
    (read : model.withAttribute source = .ok after) :
    after.HasKeys (unique ++ source.keys "@@unique") (primary ++ source.keys "@@id") := by
  obtain ⟨uniqueIndexes, uniqueFields, primaryKey⟩ := has
  rw [Model.withAttribute] at read
  split_ifs at read with stored isId isUnique
  · obtain ⟨name, _, rfl⟩ := SchemaCompose.Reading.map_eq_ok.mp read
    have apart : "@@map".toList ≠ "@@unique" ∧ "@@map".toList ≠ "@@id" := by decide
    rw [source.keys_of_ne (stored ▸ apart.1), source.keys_of_ne (stored ▸ apart.2)]
    exact ⟨by simpa, by simpa, by simpa⟩
  · obtain ⟨key, own, rfl⟩ := SchemaCompose.Reading.map_eq_ok.mp read
    have apart : "@@id".toList ≠ "@@unique" := by decide
    rw [source.keys_of_ne (isId ▸ apart), source.keys_of_eq isId own]
    exact ⟨by simpa, by simpa, by simp⟩
  · obtain ⟨key, own, rfl⟩ := SchemaCompose.Reading.map_eq_ok.mp read
    rw [source.keys_of_eq isUnique own, source.keys_of_ne isId]
    exact ⟨by simpa, by simpa, by simpa⟩
  · obtain rfl := Except.ok.inj read
    rw [source.keys_of_ne isUnique, source.keys_of_ne isId]
    exact ⟨by simpa, by simpa, by simpa⟩

theorem HasKeys.foldlM (has : HasKeys unique primary model) {sources : List Attribute}
    (read : sources.foldlM Model.withAttribute model = .ok after) :
    after.HasKeys (unique ++ sources.flatMap (·.keys "@@unique"))
      (primary ++ sources.flatMap (·.keys "@@id")) := by
  apply SchemaCompose.Reading.foldlM_keeps_along
    (fun (seen : List Attribute) model =>
      Model.HasKeys (unique ++ seen.flatMap (·.keys "@@unique"))
        (primary ++ seen.flatMap (·.keys "@@id")) model) ?_ (by simpa) read
  intro seen source behind state next _ holds stepped
  simpa using holds.withAttribute stepped

/-- The keys of a model are those of its marked lines. -/
theorem hasKeys_of_ofBlock {block : Block} (read : ofBlock names block = .ok model) :
    model.HasKeys (block.body.flatMap (Line.keys "@@unique"))
      (block.body.flatMap (Line.keys "@@id")) := by
  obtain ⟨reading, folded, same⟩ := SchemaCompose.Reading.bind_eq_ok.mp read
  obtain rfl := SchemaCompose.Reading.pure_eq_ok.mp same
  apply SchemaCompose.Reading.foldlM_keeps_along
    (fun (seen : List Line) (reading : Model.Reading) =>
      Model.HasKeys (seen.flatMap (Line.keys "@@unique"))
        (seen.flatMap (Line.keys "@@id")) reading.model) ?_ ⟨rfl, rfl, rfl⟩ folded
  intro seen line behind state next _ holds stepped
  simp only [List.flatMap_append, List.flatMap_singleton]
  rcases Reading.step_cases_of_sort stepped with
    ⟨silent, rfl⟩ | ⟨marked, sources, model, scanned, folded, rfl⟩ |
      ⟨isField, field, _, _, rfl⟩
  · simpa [Line.keys_of_isSilent silent] using holds
  · rw [Line.keys_of_isMarked marked scanned, Line.keys_of_isMarked marked scanned]
    exact holds.foldlM folded
  · rw [Line.keys_of_isField isField, Line.keys_of_isField isField, List.append_nil,
      List.append_nil]
    exact ⟨holds.uniqueIndexes, holds.uniqueFields, holds.primaryKey⟩

end Model

/-! ## Lines of an enum -/

namespace SchemaEnum

/-- The line is readable in the body of an enum. -/
inductive Accepts (line : Line) : Prop
  | silent (silent : line.isSilent = true)
  | marked (marked : line.isMarked = true) {sources : List Attribute}
      (scanned : Attribute.scan line.code = .ok sources)
      (taken : ∀ source ∈ sources, Takes "@@map" source)
  | value (unmarked : line.isMarked = false) {name behind : Text}
      {sources : List Attribute}
      (identifier : Text.identifier? line.code = some (name, behind))
      (scanned : Attribute.scan behind = .ok sources)
      (taken : ∀ source ∈ sources, Takes "@map" source)

variable {line : Line} {sources : List Attribute}

theorem accepts_iff_of_isMarked (marked : line.isMarked = true)
    (scanned : Attribute.scan line.code = .ok sources) :
    Accepts line ↔ ∀ source ∈ sources, Takes "@@map" source := by
  refine ⟨fun accepts => ?_, .marked marked scanned⟩
  cases accepts with
  | silent silent =>
      rw [Line.isSilent_of_isMarked marked] at silent
      contradiction
  | marked _ own taken =>
      obtain rfl := Except.ok.inj (own.symm.trans scanned)
      exact taken
  | value unmarked _ _ _ =>
      rw [marked] at unmarked
      contradiction

theorem accepts_iff_of_identifier? (unmarked : line.isMarked = false) {name behind : Text}
    (identifier : Text.identifier? line.code = some (name, behind))
    (scanned : Attribute.scan behind = .ok sources) :
    Accepts line ↔ ∀ source ∈ sources, Takes "@map" source := by
  refine ⟨fun accepts => ?_, .value unmarked identifier scanned⟩
  cases accepts with
  | silent silent =>
      rw [Line.isSilent_iff.mp silent] at identifier
      contradiction
  | marked marked _ _ =>
      rw [marked] at unmarked
      contradiction
  | value _ own ownScanned taken =>
      obtain ⟨rfl, rfl⟩ := Prod.mk.inj (Option.some.inj (own.symm.trans identifier))
      obtain rfl := Except.ok.inj (ownScanned.symm.trans scanned)
      exact taken

theorem exists_step_iff (enum : SchemaEnum) (line : Line) :
    (∃ next, enum.step line = .ok next) ↔ Accepts line := by
  by_cases silent : line.isSilent = true
  · refine ⟨fun _ => .silent silent, fun _ => ⟨enum, ?_⟩⟩
    rw [step, show line.code.isEmpty = true from silent, if_pos rfl]
  · rw [Bool.not_eq_true] at silent
    rw [step, show line.code.isEmpty = false from silent, if_neg Bool.false_ne_true]
    simp only [Reading.atLine_eq_ok]
    by_cases marked : line.isMarked = true
    · rw [show Text.startsWith "@@" line.code = true from marked, if_pos rfl]
      constructor
      · rintro ⟨next, read⟩
        obtain ⟨sources, scanned, further⟩ := Reading.bind_eq_ok.mp read
        obtain ⟨storedName, stored, _⟩ := Reading.bind_eq_ok.mp further
        exact .marked marked scanned ((exists_foldlM_iff sources _ _).mp ⟨_, stored⟩)
      · intro accepts
        cases accepts with
        | silent own => rw [silent] at own; contradiction
        | value unmarked _ _ _ => rw [marked] at unmarked; contradiction
        | @marked _ sources scanned taken =>
            obtain ⟨storedName, stored⟩ :=
              (exists_foldlM_iff sources _ enum.storedName).mpr taken
            exact ⟨_, by rw [scanned, Reading.ok_bind, stored, Reading.ok_bind]; rfl⟩
    · rw [Bool.not_eq_true] at marked
      rw [show Text.startsWith "@@" line.code = false from marked,
        if_neg Bool.false_ne_true]
      constructor
      · rintro ⟨next, read⟩
        split at read
        · contradiction
        · rename_i name behind identifier
          obtain ⟨sources, scanned, further⟩ := Reading.bind_eq_ok.mp read
          obtain ⟨storedName, stored, _⟩ := Reading.bind_eq_ok.mp further
          exact .value marked identifier scanned
            ((exists_foldlM_iff sources _ _).mp ⟨_, stored⟩)
      · intro accepts
        cases accepts with
        | silent own => rw [silent] at own; contradiction
        | marked own _ _ => rw [marked] at own; contradiction
        | @value _ name behind sources identifier scanned taken =>
            obtain ⟨storedName, stored⟩ := (exists_foldlM_iff sources _ none).mpr taken
            exact ⟨_, by
              rw [identifier]
              dsimp only
              rw [scanned, Reading.ok_bind, stored, Reading.ok_bind]
              rfl⟩

/-- A body is accepted exactly if each of its lines is readable. -/
theorem exists_ofBlock_iff {block : Block} :
    (∃ enum, ofBlock block = .ok enum) ↔ ∀ line ∈ block.body, Accepts line :=
  Reading.exists_foldlM_iff exists_step_iff block.body _

end SchemaEnum

end SchemaCompose
