import SchemaCompose.Proofs.Mining.Kept

/-!
# What a model declares and what is recovered for it

Where the lines of a block are candid, nothing is recovered that is no attribute of the
field or the model (`Model.mined_is_declared`), and every attribute in a form that is
recognised is recovered (`Model.declared_is_mined`).
-/

namespace SchemaCompose

namespace Mining

variable {row : Text}

/-! ## Rows without marks -/

/-- No mark stands in the row. -/
def IsUnmarked (row : Text) : Prop :=
  (∀ mark ∈ fieldMarks, ¬ mark <:+: row) ∧ ¬ "@@index(".toList <:+: row

instance : DecidablePred IsUnmarked := fun row =>
  inferInstanceAs (Decidable ((∀ mark ∈ fieldMarks, ¬ mark <:+: row) ∧
    ¬ "@@index(".toList <:+: row))

/-- Nothing is recovered but directives. -/
structure IsBare (extras : FieldExtras) : Prop where
  columnName : extras.columnName = none
  nativeType : extras.nativeType = none
  onUpdate : extras.onUpdate = none

theorem isBare_empty : IsBare {} :=
  ⟨rfl, rfl, rfl⟩

theorem isBare_extrasOf (unmarked : IsUnmarked row) : IsBare (extrasOf row) where
  columnName :=
    isLed_columnName?.firstMatch_eq_none (by decide) (unmarked.1 _ (by decide)) none
  nativeType :=
    isLed_nativeType?.firstMatch_eq_none (by decide) (unmarked.1 _ (by decide)) none
  onUpdate :=
    isLed_onUpdate?.firstMatch_eq_none (by decide) (unmarked.1 _ (by decide)) none

end Mining

/-! ## What the attributes of a row say -/

namespace FieldExtras

/-- Whatever is recovered is said by an attribute of the row: a column name is the
argument of a mapping, a native type is what stands behind the sign and the prefix of
one, and an action is the value of an argument of a relation. -/
structure IsDeclaredBy (extras : FieldExtras) (row : List (Text × Attribute)) : Prop where
  columnName : ∀ column ∈ extras.columnName,
    ∃ entry ∈ row, entry.2 = ⟨"@map", some (inQuotes column)⟩
  nativeType : ∀ type ∈ extras.nativeType, ∃ entry ∈ row, entry.1 = "@db." ++ type
  onUpdate : ∀ action ∈ extras.onUpdate, ∃ entry ∈ row, entry.2.name = "@relation" ∧
    ∃ arguments, entry.2.split = .ok arguments ∧
      ∃ value : Text, "onUpdate:" ++ value ∈ arguments ∧ Text.trim value = action

/-- What the first attribute of each kind says is recovered, and nothing else. A first
column without a name may count as none. -/
structure IsExactly (extras : FieldExtras) (row : List (Text × Attribute)) : Prop where
  columnName : row.findSome? (·.2.column?) ≠ some [] →
    extras.columnName = row.findSome? (·.2.column?)
  nativeType : extras.nativeType = row.findSome? (Attribute.nativeType? ·.1)
  onUpdate : extras.onUpdate = row.findSome? (·.2.action?)

/-- What the first attribute of each kind says is recovered. -/
structure Keeps (extras : FieldExtras) (row : List (Text × Attribute)) : Prop where
  columnName : ∀ column, row.findSome? (·.2.column?) = some column → column ≠ [] →
    extras.columnName = some column
  nativeType : ∀ type, row.findSome? (Attribute.nativeType? ·.1) = some type →
    extras.nativeType = some type
  onUpdate : ∀ action, row.findSome? (·.2.action?) = some action →
    extras.onUpdate = some action

end FieldExtras

namespace Mining

variable {line : Line} {parts : FieldLine} {row : List (Text × Attribute)}

theorem IsBare.isDeclaredBy {extras : FieldExtras} (bare : IsBare extras) :
    extras.IsDeclaredBy row := by
  obtain ⟨columnName, nativeType, onUpdate⟩ := bare
  constructor
  · simp [columnName]
  · simp [nativeType]
  · simp [onUpdate]

theorem isDeclaredBy_of_isCandid (candid : line.IsCandid parts row) :
    (extrasOf line.text).IsDeclaredBy row := by
  constructor
  · intro column found
    rw [columnName_of_isCandid candid] at found
    obtain ⟨⟨cut, name, arguments⟩, member, isColumn⟩ :=
      List.exists_of_findSome?_eq_some found
    dsimp only [Attribute.column?] at isColumn
    split_ifs at isColumn with mapping
    obtain ⟨inner, rfl, between⟩ := Option.bind_eq_some_iff.mp isColumn
    obtain ⟨rfl, _⟩ := betweenQuotes?_eq_some.mp between
    exact ⟨_, member, by rw [mapping]⟩
  · intro type found
    rw [nativeType_of_isCandid candid] at found
    obtain ⟨entry, member, isType⟩ := List.exists_of_findSome?_eq_some found
    obtain ⟨behind, _⟩ := Option.filter_eq_some_iff.mp isType
    exact ⟨entry, member, Text.eq_append_of_after? behind⟩
  · intro action found
    rw [onUpdate_of_isCandid candid] at found
    obtain ⟨entry, member, isAction⟩ := List.exists_of_findSome?_eq_some found
    dsimp only [Attribute.action?] at isAction
    split_ifs at isAction with relation
    obtain ⟨argument, inArguments, asks⟩ := List.exists_of_findSome?_eq_some isAction
    obtain ⟨trimmed, _⟩ := Option.filter_eq_some_iff.mp asks
    obtain ⟨value, behind, same⟩ := Option.map_eq_some_iff.mp trimmed
    refine ⟨entry, member, relation, ?_⟩
    cases arguments : entry.2.split with
    | error fault =>
        rw [arguments] at inArguments
        contradiction
    | ok arguments' =>
        rw [arguments] at inArguments
        refine ⟨arguments', rfl, value, ?_, same⟩
        rw [← Text.eq_append_of_after? behind]
        exact inArguments

theorem isExactly_of_isCandid (candid : line.IsCandid parts row) :
    (extrasOf line.text).IsExactly row where
  columnName _ := columnName_of_isCandid candid
  nativeType := nativeType_of_isCandid candid
  onUpdate := onUpdate_of_isCandid candid

end Mining

namespace Attribute

/-- A native type is no empty text. -/
theorem findSome?_nativeType?_ne (row : List (Text × Attribute)) :
    row.findSome? (nativeType? ·.1) ≠ some [] := by
  intro found
  obtain ⟨entry, _, isType⟩ := List.exists_of_findSome?_eq_some found
  obtain ⟨_, filled⟩ := Option.filter_eq_some_iff.mp isType
  contradiction

/-- An action on update is no empty text. -/
theorem findSome?_action?_ne (row : List (Text × Attribute)) :
    row.findSome? (·.2.action?) ≠ some [] := by
  intro found
  obtain ⟨entry, _, isAction⟩ := List.exists_of_findSome?_eq_some found
  dsimp only [action?] at isAction
  split_ifs at isAction
  obtain ⟨argument, _, asks⟩ := List.exists_of_findSome?_eq_some isAction
  obtain ⟨_, known⟩ := Option.filter_eq_some_iff.mp asks
  contradiction

end Attribute

namespace FieldExtras

variable {extras : FieldExtras} {row : List (Text × Attribute)}

theorem eq_none_of_not_isSet
    {setting : Option Text} (unset : Text.isSet setting = false)
    (filled : setting ≠ some []) : setting = none := by
  match setting with
  | none => rfl
  | some [] => contradiction
  | some (c :: rest) => contradiction

/-- Where a row says nothing, nothing is recovered. -/
theorem IsExactly.of_isBare
    {nothing : FieldExtras} (exactly : extras.IsExactly row)
    (empty : extras.isEmpty = true) (bare : Mining.IsBare nothing) :
    nothing.IsExactly row := by
  simp only [isEmpty, Bool.not_eq_true', Bool.or_eq_false_iff] at empty
  obtain ⟨⟨⟨⟨⟨⟨columnName, nativeType⟩, onUpdate⟩, _⟩, _⟩, _⟩, _⟩ := empty
  constructor
  · intro filled
    rw [exactly.columnName filled] at columnName
    rw [bare.columnName, eq_none_of_not_isSet columnName filled]
  · rw [exactly.nativeType] at nativeType
    rw [bare.nativeType,
      eq_none_of_not_isSet nativeType (Attribute.findSome?_nativeType?_ne row)]
  · rw [exactly.onUpdate] at onUpdate
    rw [bare.onUpdate,
      eq_none_of_not_isSet onUpdate (Attribute.findSome?_action?_ne row)]

/-- A row that says nothing is kept by anything. -/
theorem Keeps.of_empty (silent : Keeps {} row) : extras.Keeps row where
  columnName column found filled :=
    absurd (silent.columnName column found filled) (by simp)
  nativeType type found := absurd (silent.nativeType type found) (by simp)
  onUpdate action found := absurd (silent.onUpdate action found) (by simp)

theorem IsExactly.keeps (exactly : extras.IsExactly row) : extras.Keeps row where
  columnName column found filled := by
    rw [← found]
    exact exactly.columnName fun same => filled (Option.some.inj (found.symm.trans same))
  nativeType _ found := exactly.nativeType.trans found
  onUpdate _ found := exactly.onUpdate.trans found

end FieldExtras

/-! ## Declared and recovered -/

namespace Model

variable {text : Text} {schema : Schema} {before : List Block} {block : Block}
  {model : Model}

/-- What is recovered for a field whose line is candid. -/
theorem recovered_of_isCandid
    (cutOut : block.IsCutOut text schema before)
    (header : ∀ row ∈ (block.rows text).head?, Mining.IsUnmarked row)
    (member : model ∈ schema.models) (named : model.name = block.name) {field : Field}
    (inModel : field ∈ model.fields) {line : Line} (inBody : line ∈ block.body)
    {parts : FieldLine} {row : List (Text × Attribute)}
    (candid : line.IsCandid parts row) (same : parts.name = field.name) :
    field.extras.IsDeclaredBy row ∧
      (block.IsHeaded text → field.extras.IsExactly row) := by
  have exactly := Mining.isExactly_of_isCandid candid
  rcases cutOut.extras_cases member named inModel inBody candid.declares same
    candid.noIndex with ⟨_, _, whole⟩ | ⟨unsaid, nothing⟩
  · rw [whole]
    exact ⟨Mining.isDeclaredBy_of_isCandid candid, fun _ => exactly⟩
  · have bare : Mining.IsBare field.extras := by
      rcases nothing with empty | ⟨top, first, whole⟩
      · rw [empty]
        exact Mining.isBare_empty
      · rw [whole]
        exact Mining.isBare_extrasOf (header top first)
    refine ⟨bare.isDeclaredBy, fun headed => ?_⟩
    rcases unsaid with unheaded | empty
    · contradiction
    · exact exactly.of_isBare empty bare

/-- What the line of a field says is kept, whatever the header says. -/
theorem keeps_of_isCandid
    (cutOut : block.IsCutOut text schema before) (headed : block.IsHeaded text)
    (member : model ∈ schema.models) (named : model.name = block.name) {field : Field}
    (inModel : field ∈ model.fields) {line : Line} (inBody : line ∈ block.body)
    {parts : FieldLine} {row : List (Text × Attribute)}
    (candid : line.IsCandid parts row) (same : parts.name = field.name) :
    field.extras.Keeps row := by
  have exactly := Mining.isExactly_of_isCandid candid
  rcases cutOut.extras_cases member named inModel inBody candid.declares same
    candid.noIndex with ⟨_, _, whole⟩ | ⟨unheaded | empty, _⟩
  · rw [whole]
    exact exactly.keeps
  · contradiction
  · exact (exactly.of_isBare empty Mining.isBare_empty).keeps.of_empty

/-- What is recovered is declared. Whatever a field with a candid line has is said by an
attribute that the reader finds on that line, and under a recognised header the field has
just what these attributes say. Where the lines show their indexes, every index of the
model is an attribute that the reader finds on one of them. -/
theorem mined_is_declared
    (cutOut : block.IsCutOut text schema before)
    (header : ∀ row ∈ (block.rows text).head?, Mining.IsUnmarked row)
    (member : model ∈ schema.models) (named : model.name = block.name) :
    (∀ field ∈ model.fields,
      (∃ line ∈ block.body, fieldName? line.code = some field.name) ∧
        ∀ line ∈ block.body, ∀ parts row, line.IsCandid parts row →
          parts.name = field.name →
            Attribute.scan parts.attributes = .ok (row.map Prod.snd) ∧
              field.extras.IsDeclaredBy row ∧
              (block.IsHeaded text → field.extras.IsExactly row)) ∧
      ∀ rows, block.ShowsIndexes rows → ∀ index ∈ model.extraIndexes,
        ∃ line ∈ block.body, Text.startsWith "@@" line.code = true ∧
          Attribute.scan line.code = .ok ((rows line).map Prod.snd) ∧
          ∃ entry ∈ rows line, entry.1 = index ∧ entry.2.name = "@@index" := by
  refine ⟨fun field inModel => ?_, fun rows shows index inIndexes => ?_⟩
  · obtain ⟨names, parsed, read, fields, _⟩ :=
      cutOut.exists_of_mem_models member named
    refine ⟨?_, fun line inBody parts row candid same =>
      ⟨candid.spells.scan_eq,
        recovered_of_isCandid cutOut header member named inModel inBody candid same⟩⟩
    rw [fields] at inModel
    obtain ⟨own, inParsed, rfl⟩ := List.mem_map.mp inModel
    have declared := exists_line_of_field read inParsed
    exact declared
  · obtain ⟨all, none⟩ := cutOut.extraIndexes_eq member named
      (fun row first => (header row first).2) shows
    by_cases headed : block.IsHeaded text
    · rw [all headed] at inIndexes
      exact block.exists_of_mem_indexes shows inIndexes
    · rw [none headed] at inIndexes
      contradiction

/-- The attributes on the line of a key, with the texts that they take. -/
def keyRow : List (Text × Attribute) :=
  [("@map( \"k\" )", ⟨"@map", some "\"k\""⟩), ("@db.Char( 1 )", ⟨"@db.Char", some "1"⟩)]

/-- The attributes on the line of a relation. -/
def parentRow : List (Text × Attribute) :=
  [("@relation(fields: [i], onUpdate: Cascade)",
    ⟨"@relation", some "fields: [i], onUpdate: Cascade"⟩)]

/-- The block attributes of a node. -/
def nodeRow : List (Text × Attribute) :=
  [("@@id([i])", ⟨"@@id", some "[i]"⟩), ("@@index([i])", ⟨"@@index", some "[i]"⟩)]

/-- A node with a mapped key and a relation to its parent. -/
def nodeText : Text :=
  "model N \x7b\n  i Int @map( \"k\" ) @db.Char( 1 ) // @id\n" ++
    "  p N @relation(fields: [i], onUpdate: Cascade)\n  @@id([i]) @@index([i])\n\x7d"

/-- The block of a node. -/
def nodeBlock : Block where
  kind := .model
  name := "N"
  line := 1
  documentation := none
  body := [⟨2, "i Int @map( \"k\" ) @db.Char( 1 ) // @id"⟩,
    ⟨3, "p N @relation(fields: [i], onUpdate: Cascade)"⟩, ⟨4, "@@id([i]) @@index([i])"⟩]

/-- What is read from the block of a node. -/
def nodeModel : Model where
  name := "N"
  fields :=
    [{ name := "i", type := "Int"
       extras := { columnName := "k", nativeType := "Char( 1 )" } },
     { name := "p", type := "N", kind := .object
       relation := some { fields := ["i"] }
       extras := { onUpdate := "Cascade" } }]
  primaryKey := some { fields := ["i"] }
  extraIndexes := ["@@index([i])"]

theorem isCutOut_nodeBlock :
    nodeBlock.IsCutOut nodeText { models := [nodeModel] } [] where
  read := by decide +kernel
  split := ⟨[], by decide +kernel⟩
  kind := rfl
  previous := by simp
  closing := ⟨nodeText.take 123, nodeText.drop 125, by decide +kernel, by decide +kernel⟩

theorem isCandid_keyLine :
    Line.IsCandid ⟨2, "i Int @map( \"k\" ) @db.Char( 1 ) // @id"⟩
      ⟨"i", "Int", false, false, " @map( \"k\" ) @db.Char( 1 )"⟩ keyRow where
  declares := by decide +kernel
  spells :=
    have mapping : Attribute.IsSpelled "@map( \"k\" )" ⟨"@map", some "\"k\""⟩ :=
      .call (show Attribute.IsName "@map" by decide)
        (show nesting 0 .outside " \"k\" " = some (0, .outside) by decide) (.inl rfl)
    have char : Attribute.IsSpelled "@db.Char( 1 )" ⟨"@db.Char", some "1"⟩ :=
      .call (show Attribute.IsName "@db.Char" by decide)
        (show nesting 0 .outside " 1 " = some (0, .outside) by decide) (.inl rfl)
    .gap rfl (.entry mapping (.gap rfl (.entry char .nil)))
  type := by decide +kernel
  comment := by decide +kernel
  noIndex := by decide +kernel
  attributes := by
    rw [keyRow, List.forall_mem_cons, List.forall_mem_singleton]
    constructor
    · constructor
      · decide
      · decide
      · decide
      · decide
      · rintro word ⟨⟩
      · decide
      · rintro ⟨⟩
    · constructor
      · decide
      · decide
      · decide
      · decide
      · rintro word ⟨⟩
        decide
      · decide
      · rintro ⟨⟩

theorem isCandid_parentLine :
    Line.IsCandid ⟨3, "p N @relation(fields: [i], onUpdate: Cascade)"⟩
      ⟨"p", "N", false, false, " @relation(fields: [i], onUpdate: Cascade)"⟩
      parentRow where
  declares := by decide +kernel
  spells :=
    have relation : Attribute.IsSpelled "@relation(fields: [i], onUpdate: Cascade)"
        ⟨"@relation", some "fields: [i], onUpdate: Cascade"⟩ :=
      .call (show Attribute.IsName "@relation" by decide)
        (show nesting 0 .outside "fields: [i], onUpdate: Cascade" = some (0, .outside)
          by decide) (.inl rfl)
    .gap rfl (.entry relation .nil)
  type := by decide +kernel
  comment := by decide +kernel
  noIndex := by decide +kernel
  attributes := by
    rw [parentRow, List.forall_mem_singleton]
    constructor
    · decide
    · decide
    · decide
    · decide
    · rintro word ⟨⟩
    · rintro other
      contradiction
    · rintro -
      refine ⟨["fields: [i]", "onUpdate: Cascade"], by decide +kernel, ?_⟩
      rw [List.forall_mem_cons, List.forall_mem_singleton]
      constructor
      · exact Or.inl (by decide)
      · exact Or.inr ⟨" Cascade", by decide, by decide, by decide⟩

theorem showsIndexes_nodeBlock : nodeBlock.ShowsIndexes fun _ => nodeRow := by
  have primary : Attribute.IsSpelled "@@id([i])" ⟨"@@id", some "[i]"⟩ :=
    .call (show Attribute.IsName "@@id" by decide)
      (show nesting 0 .outside "[i]" = some (0, .outside) by decide) (.inl rfl)
  have index : Attribute.IsSpelled "@@index([i])" ⟨"@@index", some "[i]"⟩ :=
    .call (show Attribute.IsName "@@index" by decide)
      (show nesting 0 .outside "[i]" = some (0, .outside) by decide) (.inl rfl)
  have shows : Line.ShowsIndexes ⟨4, "@@id([i]) @@index([i])"⟩ nodeRow :=
    have whole : Line.code ⟨4, "@@id([i]) @@index([i])"⟩ =
        ("@@id([i])" : Text) ++ ([' '] ++ []) ++ ("@@index([i])" : Text) ++ [] := by
      decide +kernel
    .single whole (.entry primary (.gap rfl .nil)) index .nil (by decide) (by decide)
      (by decide +kernel)
  intro line inBody _
  simp only [nodeBlock, List.mem_cons, List.not_mem_nil, or_false] at inBody
  rcases inBody with rfl | rfl | rfl
  · rw [if_neg (by decide +kernel)]
    decide +kernel
  · rw [if_neg (by decide +kernel)]
    decide +kernel
  · rw [if_pos (by decide +kernel)]
    exact shows

/-- The comment behind the key holds no attribute. -/
theorem mined_is_declared_node :
    (Attribute.scan " @map( \"k\" ) @db.Char( 1 )" = .ok (keyRow.map Prod.snd) ∧
        FieldExtras.IsDeclaredBy { columnName := "k", nativeType := "Char( 1 )" } keyRow ∧
        FieldExtras.IsExactly { columnName := "k", nativeType := "Char( 1 )" } keyRow) ∧
      ∃ entry ∈ nodeRow, entry.1 = "@@index([i])" ∧ entry.2.name = "@@index" := by
  obtain ⟨fields, indexes⟩ := mined_is_declared isCutOut_nodeBlock
    (by decide +kernel) List.mem_cons_self rfl
  obtain ⟨_, key⟩ := fields _ List.mem_cons_self
  obtain ⟨scanned, declared, exactly⟩ :=
    key _ List.mem_cons_self _ _ isCandid_keyLine rfl
  obtain ⟨_, _, _, _, index⟩ := indexes _ showsIndexes_nodeBlock _ List.mem_cons_self
  exact ⟨⟨scanned, declared, exactly (by decide +kernel)⟩, index⟩

/-- What is declared is recovered. Under a recognised header a field with a candid line
has what the first attribute of each kind says, and where the lines show their indexes
the model has all of them in their order. -/
theorem declared_is_mined
    (cutOut : block.IsCutOut text schema before) (headed : block.IsHeaded text)
    (member : model ∈ schema.models) (named : model.name = block.name) :
    (∀ field ∈ model.fields, ∀ line ∈ block.body, ∀ parts row,
      line.IsCandid parts row → parts.name = field.name →
        Attribute.scan parts.attributes = .ok (row.map Prod.snd) ∧
          field.extras.Keeps row) ∧
      ((∀ row ∈ (block.rows text).head?, ¬ "@@index(".toList <:+: row) →
        ∀ rows, block.ShowsIndexes rows → model.extraIndexes = block.indexes rows) := by
  constructor
  · intro field inModel line inBody parts row candid same
    exact ⟨candid.spells.scan_eq,
      keeps_of_isCandid cutOut headed member named inModel inBody candid same⟩
  · intro unmarked rows shows
    exact (cutOut.extraIndexes_eq member named unmarked shows).1 headed

/-- The key is stored in its column, the relation has its action, and the index stands
behind a primary key. -/
theorem declared_is_mined_node :
    FieldExtras.Keeps { columnName := "k", nativeType := "Char( 1 )" } keyRow ∧
      FieldExtras.Keeps { onUpdate := "Cascade" } parentRow ∧
      nodeModel.extraIndexes = nodeBlock.indexes fun _ => nodeRow := by
  obtain ⟨fields, indexes⟩ := declared_is_mined isCutOut_nodeBlock (by decide +kernel)
    List.mem_cons_self rfl
  have key := fields _ List.mem_cons_self _ List.mem_cons_self _ _ isCandid_keyLine rfl
  have parent := fields _ (List.mem_cons_of_mem _ List.mem_cons_self) _
    (List.mem_cons_of_mem _ List.mem_cons_self) _ _ isCandid_parentLine rfl
  exact ⟨key.2, parent.2, indexes (by decide +kernel) _ showsIndexes_nodeBlock⟩

end Model

end SchemaCompose
