import SchemaCompose.Proofs.Reading.Exchange
import SchemaCompose.Proofs.Reading.Places

/-!
# The order of attributes

The attributes of a field line may stand in any order, with any white space in front of
each of them or none, and with a comment behind them or without one.  The scanner cuts
the line into the same attributes (`Attribute.spells_spaced`), each says something else
about the field than the others (`Field.change_comm`), and so the line declares the same
field (`Schema.parse_of_reordered`).
-/

namespace SchemaCompose

/-! ## Attributes with gaps -/

namespace Attribute

variable {text : Text} {row : List (Text × Attribute)}
  {order : List (Text × Text × Attribute)}

/-- The texts of attributes, each behind a gap. -/
def spaced (order : List (Text × Text × Attribute)) : Text :=
  order.flatMap fun (gap, cut, _) => gap ++ cut

theorem Spells.gaps {gap : Text} (blank : ∀ c ∈ gap, Text.isBlank c = true)
    (spells : Spells text row) : Spells (gap ++ text) row := by
  induction gap with
  | nil => exact spells
  | cons c gap ih =>
      rw [List.forall_mem_cons] at blank
      exact .gap blank.1 (ih blank.2)

/-- Attributes with gaps between them are a row. -/
theorem spells_spaced (spelled : ∀ entry ∈ order, IsSpelled entry.2.1 entry.2.2)
    (blank : ∀ entry ∈ order, ∀ c ∈ entry.1, Text.isBlank c = true) :
    Spells (spaced order) (order.map Prod.snd) := by
  induction order with
  | nil => exact .nil
  | cons entry order ih =>
      obtain ⟨gap, cut, source⟩ := entry
      rw [List.forall_mem_cons] at spelled blank
      have whole : spaced ((gap, cut, source) :: order) = gap ++ (cut ++ spaced order) := by
        simp [spaced]
      rw [whole]
      exact (Spells.entry spelled.1 (ih spelled.2 blank.2)).gaps blank.1

theorem spells_of_perm (spells : Spells text row) (perm : (order.map Prod.snd).Perm row)
    (blank : ∀ entry ∈ order, ∀ c ∈ entry.1, Text.isBlank c = true) :
    Spells (spaced order) (order.map Prod.snd) := by
  apply spells_spaced ?_ blank
  intro entry member
  have inRow := perm.mem_iff.mp (List.mem_map_of_mem member)
  exact (spells.isInfix_of_mem entry.2 inRow).2

/-- An attribute of a row without comment holds none. -/
theorem Spells.silent_of_mem (spells : Spells text row)
    (silent : Text.beforeComment .outside text = text) :
    ∀ entry ∈ row, Text.beforeComment .outside entry.1 = entry.1 := by
  induction spells with
  | nil => simp
  | @gap c behind _ isBlank further ih =>
      have apart : '"' ∉ [c] := by
        rw [List.mem_singleton]
        rintro rfl
        contradiction
      have parted : Text.beforeComment .outside ([c] ++ behind) = [c] ++ behind := silent
      have own := (Text.beforeComment_of_append parted).2
      rw [LiteralState.run_outside_of_no_quote apart] at own
      exact ih own
  | entry spelled further ih =>
      obtain ⟨own, behind⟩ := Text.beforeComment_of_append silent
      rw [spelled.run_eq] at behind
      exact List.forall_mem_cons.mpr ⟨own, ih behind⟩

/-- A row holds no comment if none of its attributes does. -/
theorem Spells.silent (spells : Spells text row)
    (each : ∀ entry ∈ row, Text.beforeComment .outside entry.1 = entry.1) :
    Text.beforeComment .outside text = text := by
  induction spells with
  | nil => rfl
  | @gap c behind _ isBlank further ih =>
      have visible : c ≠ '/' ∧ c ≠ '"' := by
        constructor <;> rintro rfl <;> contradiction
      rw [Text.beforeComment, if_neg fun starts => visible.1 starts.2.1,
        LiteralState.next, if_neg visible.2, ih each]
  | @entry cut behind _ _ spelled further ih =>
      rw [List.forall_mem_cons] at each
      have apart : behind.head? ≠ some '/' := by
        intro slash
        rcases further.head_cases '/' slash with blank | sign
        · contradiction
        · contradiction
      rw [Text.beforeComment_append each.1 (Or.inr apart), spelled.run_eq, ih each.2]

/-- An attribute ends with its name or with a bracket. -/
theorem IsSpelled.ends {cut : Text} {source : Attribute} (spelled : IsSpelled cut source) :
    ∀ c ∈ cut.getLast?, Text.isBlank c = false ∧ c ≠ '/' := by
  intro c last
  cases spelled with
  | bare isName =>
      have member := List.mem_of_mem_getLast? last
      refine ⟨isName.not_isBlank c member, ?_⟩
      rintro rfl
      exact isName.not_mem (by decide) member
  | @call name inner closing isName nested closes =>
      have whole : name ++ '(' :: (inner ++ [closing]) =
          name ++ '(' :: inner ++ [closing] := by
        simp
      rw [whole, List.getLast?_concat] at last
      obtain rfl := Option.some.inj last
      rcases closes with rfl | rfl <;> decide

theorem ends_append_spaced
    {head : Text} (ends : ∀ c ∈ head.getLast?, Text.isBlank c = false ∧ c ≠ '/')
    (spelled : ∀ entry ∈ order, IsSpelled entry.2.1 entry.2.2) :
    ∀ c ∈ (head ++ spaced order).getLast?, Text.isBlank c = false ∧ c ≠ '/' := by
  induction order using List.reverseRecOn with
  | nil => simpa [spaced] using ends
  | append_singleton order entry _ =>
      obtain ⟨gap, cut, source⟩ := entry
      have own := spelled (gap, cut, source) (by simp)
      have whole : head ++ spaced (order ++ [(gap, cut, source)]) =
          head ++ spaced order ++ gap ++ cut := by
        simp [spaced]
      rw [whole, List.getLast?_append_of_ne_nil _ own.ne_nil]
      exact own.ends

end Attribute

/-! ## The head of a field line -/

namespace FieldLine

variable {head : Text} {parts : FieldLine}

/-- A name, a gap, a type that is a name, and marks are the head of a field line. -/
theorem isHead_of_isName {gap : Text} (isField : Text.IsName parts.name)
    (isName : Text.IsName parts.type) (blank : ∀ c ∈ gap, Text.isBlank c = true)
    (filled : gap ≠ []) :
    IsHead (parts.name ++ (gap ++ (parts.type ++ parts.marks)))
      { parts with attributes := [] } := by
  refine ⟨ofText?_eq_some_iff.mpr ⟨gap, isReadable isField filled blank (Or.inl isName)
    (by simp), ?_⟩, rfl⟩
  simp [row, marks]

/-- What stands in front of the attributes of a field line is its head. -/
theorem isHead_of_ofText? (declares : ofText? (head ++ parts.attributes) = some parts)
    (isName : Text.IsName parts.type) :
    IsHead head { parts with attributes := [] } := by
  obtain ⟨gap, readable, whole⟩ := ofText?_eq_some_iff.mp declares
  have parted : head ++ parts.attributes =
      parts.name ++ (gap ++ (parts.type ++ parts.marks)) ++ parts.attributes := by
    rw [whole, row]
    simp
  obtain rfl := List.append_cancel_right parted
  exact isHead_of_isName readable.name isName readable.blank readable.filled

/-- The head of a field line whose type is a name holds no literal, and it ends where
something is seen. -/
theorem IsHead.plain (isHead : IsHead head parts) (isName : Text.IsName parts.type) :
    '"' ∉ head ∧ ∀ c ∈ head.getLast?, Text.isBlank c = false ∧ c ≠ '/' := by
  obtain ⟨isField, -, gap, marks, whole, -, blank, known⟩ :=
    exists_of_ofText? isHead.declares
  have quote : Text.isWord '"' = false := by decide
  have quoteGap : '"' ∉ gap := fun quote => absurd (blank '"' quote) (by decide)
  have quoteMarks : '"' ∉ marks := fun quote => absurd (known '"' quote) (by decide)
  rw [whole, isHead.bare]
  refine ⟨by simp [isField.not_mem quote, quoteGap, isName.not_mem quote, quoteMarks], ?_⟩
  intro c last
  have filled : parts.type ++ marks ≠ [] := by simp [isName.ne_nil]
  rw [List.append_nil, List.append_assoc, List.getLast?_append_of_ne_nil _ filled] at last
  rcases List.mem_append.mp (List.mem_of_mem_getLast? last) with inType | inMarks
  · refine ⟨isName.not_isBlank c inType, ?_⟩
    rintro rfl
    exact isName.not_mem (by decide) inType
  · exact (show ∀ c ∈ ['[', ']', '?'], Text.isBlank c = false ∧ c ≠ '/' by decide) c
      (known c inMarks)

end FieldLine

/-! ## Attributes of a field in any order -/

namespace Field

variable {sources others : List Attribute}

/-- The field with what one more attribute says about it, if that can be read. -/
def change (field : Field) (source : Attribute) : Field :=
  (field.withAttribute source).toOption.getD field

theorem withAttribute_eq_change {source : Attribute} (taken : Takes source)
    (field : Field) : field.withAttribute source = .ok (field.change source) := by
  obtain ⟨next, read⟩ := (exists_withAttribute_iff field source).mpr taken
  rw [change, read]
  rfl

theorem foldlM_withAttribute_eq_change (taken : ∀ source ∈ sources, Takes source)
    (field : Field) :
    sources.foldlM withAttribute field = .ok (sources.foldl change field) := by
  induction sources generalizing field with
  | nil => rfl
  | cons source sources ih =>
      rw [List.forall_mem_cons] at taken
      rw [List.foldlM_cons, withAttribute_eq_change taken.1, Reading.ok_bind, ih taken.2]
      rfl

/-- An attribute changes nothing, or what its name stands for. -/
theorem change_cases (source : Attribute) :
    (∀ field : Field, field.change source = field) ∨
    (source.name = ("@id" : Text) ∧
      ∀ field : Field, field.change source = { field with isId := true }) ∨
    (source.name = ("@unique" : Text) ∧
      ∀ field : Field, field.change source = { field with isUnique := true }) ∨
    (source.name = ("@updatedAt" : Text) ∧
      ∀ field : Field, field.change source = { field with isUpdatedAt := true }) ∨
    (source.name = ("@default" : Text) ∧
      ∀ field : Field, field.change source = { field with default := source.arguments }) ∨
    source.name = ("@relation" : Text) ∧ ∃ relation,
      ∀ field : Field, field.change source = { field with relation := some relation } := by
  unfold change withAttribute
  split_ifs with id unique updatedAt default relates
  · exact Or.inr (Or.inl ⟨id, fun _ => rfl⟩)
  · exact Or.inr (Or.inr (Or.inl ⟨unique, fun _ => rfl⟩))
  · exact Or.inr (Or.inr (Or.inr (Or.inl ⟨updatedAt, fun _ => rfl⟩)))
  · exact Or.inr (Or.inr (Or.inr (Or.inr (Or.inl ⟨default, fun _ => rfl⟩))))
  · cases source.relation with
    | error fault => exact Or.inl fun _ => rfl
    | ok relation =>
        exact Or.inr (Or.inr (Or.inr (Or.inr (Or.inr ⟨relates, relation, fun _ => rfl⟩))))
  · exact Or.inl fun _ => rfl

/-- Attributes with different names say different things. -/
theorem change_comm {first second : Attribute} (distinct : first.name ≠ second.name)
    (field : Field) : (field.change first).change second =
      (field.change second).change first := by
  rcases change_cases first with
    one | ⟨own, one⟩ | ⟨own, one⟩ | ⟨own, one⟩ | ⟨own, one⟩ | ⟨own, _, one⟩ <;>
  rcases change_cases second with
    two | ⟨other, two⟩ | ⟨other, two⟩ | ⟨other, two⟩ | ⟨other, two⟩ | ⟨other, _, two⟩ <;>
  first
    | (simp only [one, two]; done)
    | exact absurd (own.trans other.symm) distinct

theorem foldlM_withAttribute_of_perm (perm : others.Perm sources)
    (distinct : (sources.map (·.name)).Nodup) (taken : ∀ source ∈ sources, Takes source)
    (field : Field) :
    others.foldlM withAttribute field = sources.foldlM withAttribute field := by
  rw [foldlM_withAttribute_eq_change taken,
    foldlM_withAttribute_eq_change fun source member => taken source (perm.mem_iff.mp member)]
  congr 1
  apply perm.foldl_eq'
  intro first inFirst second inSecond field
  by_cases same : first = second
  · rw [same]
  · have pairwise := (perm.map (·.name)).nodup_iff.mpr distinct
    exact change_comm (fun name => same (List.inj_on_of_nodup_map pairwise inFirst inSecond name))
      field

/-- A field is read from its line as it is read from the line with the attributes in
another order, with other gaps. -/
theorem read_of_reordered
    {names : DeclaredNames} {documentation : Option Text} {field : Field}
    {head : Text} {parts : FieldLine} {row : List (Text × Attribute)}
    {order : List (Text × Text × Attribute)}
    (declares : FieldLine.ofText? (head ++ parts.attributes) = some parts)
    (isName : Text.IsName parts.type) (spells : Attribute.Spells parts.attributes row)
    (distinct : (row.map (·.2.name)).Nodup) (perm : (order.map Prod.snd).Perm row)
    (blank : ∀ entry ∈ order, ∀ c ∈ entry.1, Text.isBlank c = true)
    (read : Field.read names documentation (head ++ parts.attributes) = .ok field) :
    Field.read names documentation (head ++ Attribute.spaced order) = .ok field := by
  obtain ⟨own, kind, sources, same, known, scanned, folded⟩ := exists_of_read read
  obtain rfl := Option.some.inj (same.symm.trans declares)
  obtain rfl := Except.ok.inj (scanned.symm.trans spells.scan_eq)
  have reordered := Attribute.spells_of_perm spells perm blank
  have parted := (FieldLine.isHead_of_ofText? declares isName).ofText?_append
    reordered.head_cases
  simp only [Field.read, parted, known, reordered.scan_eq, Reading.ok_bind]
  rw [foldlM_withAttribute_of_perm (perm.map Prod.snd) (by rwa [List.map_map])
    ((exists_foldlM_iff _ _).mp ⟨field, folded⟩)]
  exact folded

end Field

namespace Schema

open Attribute

/-- The attributes of a field line may be put in any order, with any white space in front
of each or none and with a comment behind them or none: the document is accepted and
declares the same. -/
theorem parse_of_reordered
    {text other : Text} {block : Block} {line fresh : Line} {schema : Schema}
    {head behind : Text} {parts : FieldLine} {row : List (Text × Attribute)}
    {order : List (Text × Text × Attribute)}
    (exchange : Exchange text other block line fresh) (isModel : block.kind = .model)
    (accepted : parse text = .ok schema)
    (declares : FieldLine.ofText? line.code = some parts) (isName : Text.IsName parts.type)
    (whole : line.code = head ++ parts.attributes)
    (spells : Spells parts.attributes row) (distinct : (row.map (·.2.name)).Nodup)
    (perm : (order.map Prod.snd).Perm row)
    (blank : ∀ entry ∈ order, ∀ c ∈ entry.1, Text.isBlank c = true)
    (silent : Text.code behind = [])
    (written : fresh.text = head ++ spaced order ++ behind) :
    parse other = .ok schema ∧
      ∀ documentation field,
        Field.read schema.names documentation line.code = .ok field →
        Field.read schema.names documentation fresh.code = .ok field := by
  have parted : FieldLine.ofText? (head ++ parts.attributes) = some parts := whole ▸ declares
  have isHead := FieldLine.isHead_of_ofText? parted isName
  obtain ⟨plain, ends⟩ := isHead.plain isName
  have closed := LiteralState.run_outside_of_no_quote plain
  have spelled : ∀ entry ∈ order, IsSpelled entry.2.1 entry.2.2 := fun entry member =>
    (spells.isInfix_of_mem entry.2 (perm.mem_iff.mp (List.mem_map_of_mem member))).2
  have reordered := spells_spaced spelled blank
  have code : fresh.code = head ++ spaced order := by
    have own := Text.silent_code line.text
    rw [show Text.code line.text = _ from whole] at own
    obtain ⟨silentHead, silentRow⟩ := Text.beforeComment_of_append own
    rw [closed] at silentRow
    have each := spells.silent_of_mem silentRow
    have silentOrder := reordered.silent fun entry member =>
      each entry (perm.mem_iff.mp member)
    have apart : (spaced order).head? ≠ some '/' := by
      intro slash
      rcases reordered.head_cases '/' slash with blank | sign
      · contradiction
      · contradiction
    rw [Line.code, written, Text.code_append_of_closed, silent, List.append_nil]
    · rw [Text.beforeComment_append silentHead (Or.inr apart), closed, silentOrder]
    · rw [LiteralState.run_append, closed, reordered.run_eq]
    · exact ends_append_spaced ends spelled
  have same : ∀ documentation field,
      Field.read schema.names documentation line.code = .ok field →
      Field.read schema.names documentation fresh.code = .ok field := by
    intro documentation field read
    rw [whole] at read
    rw [code]
    exact Field.read_of_reordered parted isName spells distinct perm blank read
  have isField := Line.isField_of_ofText? declares
  obtain ⟨freshDeclares, freshField, -⟩ := isHead.declares_append reordered.head_cases code
  have inside : fresh.code ≠ ['\x7d'] := by
    intro closes
    rw [closes] at freshDeclares
    contradiction
  refine ⟨?_, same⟩
  exact parse_of_same_step_model exchange isModel inside accepted fun _ _ =>
    Model.Reading.step_of_same_field isField freshField same

/-- The default holds what could be taken for other attributes and for a comment, and
nothing stands between the attributes once they are turned around. -/
theorem parse_of_reordered_default :
    let text : Text :=
      "model A \x7b\n  id Int @id @db.Int @default(f(\"]) // @id\")) // key\n\x7d\n"
    let other : Text :=
      "model A \x7b\n  id Int@default(f(\"]) // @id\"))@id\t@db.Int\n\x7d\n"
    ∃ schema, parse text = .ok schema ∧ parse other = .ok schema := by
  intro text other
  let line : Line := ⟨2, "id Int @id @db.Int @default(f(\"]) // @id\")) // key"⟩
  let fresh : Line := ⟨2, "id Int@default(f(\"]) // @id\"))@id\t@db.Int"⟩
  let block : Block := ⟨.model, "A", 1, none, [line]⟩
  let id : Text × Attribute := ("@id", ⟨"@id", none⟩)
  let native : Text × Attribute := ("@db.Int", ⟨"@db.Int", none⟩)
  let default : Text × Attribute :=
    ("@default(f(\"]) // @id\"))", ⟨"@default", some "f(\"]) // @id\")"⟩)
  let row : List (Text × Attribute) := [id, native, default]
  let order : List (Text × Text × Attribute) := [([], default), ([], id), (['\t'], native)]
  have exchange : Exchange text other block line fresh :=
    ⟨⟨[block], by decide +kernel, by decide⟩, by decide,
      [⟨1, "model A \x7b"⟩], [⟨3, "\x7d"⟩], by decide +kernel, by decide +kernel⟩
  let parts : FieldLine :=
    ⟨"id", "Int", false, false, " @id @db.Int @default(f(\"]) // @id\"))"⟩
  have spells : Spells parts.attributes row := by
    have whole : parts.attributes =
        ' ' :: (id.1 ++ ' ' :: (native.1 ++ ' ' :: (default.1 ++ []))) := by decide
    have isName : IsName "@default" := by decide
    have nested : nesting 0 .outside "f(\"]) // @id\")" = some (0, .outside) := by decide
    have called : IsSpelled default.1 default.2 := .call isName nested (Or.inl rfl)
    rw [whole]
    exact .gap rfl (.entry (.bare (by decide)) (.gap rfl (.entry (.bare (by decide))
      (.gap rfl (.entry called .nil)))))
  have accepted : ∃ schema, parse text = .ok schema := by
    have read : (parse text).toOption.isSome := by decide +kernel
    cases parsed : parse text with
    | ok schema => exact ⟨schema, rfl⟩
    | error error =>
        rw [parsed] at read
        contradiction
  obtain ⟨schema, accepted⟩ := accepted
  have declares : FieldLine.ofText? line.code = some parts := by decide +kernel
  let head : Text := "id Int"
  have whole : line.code = head ++ parts.attributes := by decide +kernel
  have perm : (order.map Prod.snd).Perm row := by decide
  have silent : Text.code [] = [] := rfl
  have written : fresh.text = head ++ spaced order ++ [] := by decide
  have reordered := parse_of_reordered exchange rfl accepted declares (by decide +kernel) whole
    spells (by decide) perm (by decide) silent written
  exact ⟨schema, accepted, reordered.1⟩

end Schema

end SchemaCompose
