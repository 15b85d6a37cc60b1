import SchemaCompose.Proofs.Reading.Parts
import SchemaCompose.Proofs.RoundTrip.Writable
import SchemaCompose.Proofs.Schema.FieldLines

/-!
# What an accepted document holds

Names of an accepted document are identifiers, its other texts stand on one line each,
and its documentation is made of trimmed lines.  The keys of a configuration block are
distinct, and its values hold no comment.  This file states what such a schema looks
like and proves it of every document that is accepted (`Schema.isRead_of_parse`).
-/

namespace SchemaCompose

/-! ## Shapes -/

/-- A type as it is read: a name, or unsupported. -/
def IsReadType (type : Text) : Prop :=
  Text.IsName type ∨ IsUnsupported type ∧ Text.IsLine type

/-- Every text of the relation comes from one line. -/
structure Relation.IsRead (relation : Relation) : Prop where
  name : ∀ name ∈ relation.name, Text.IsLine name
  fields : ∀ item ∈ relation.fields, Arguments.IsBare item
  references : ∀ item ∈ relation.references, Arguments.IsBare item
  onDelete : ∀ action ∈ relation.onDelete, Text.IsLine action

/-- Every text of the key comes from one line. -/
structure CompoundKey.IsRead (key : CompoundKey) : Prop where
  fields : ∀ item ∈ key.fields, Arguments.IsBare item
  name : ∀ name ∈ key.name, Text.IsLine name

/-- A native type as it is recovered: a word, with or without arguments up to the
first closing parenthesis. -/
structure IsMinedType (type : Text) : Prop where
  named : type.takeWhile Text.isWord ≠ []
  written : (nativeAttribute type).write = "@db." ++ type
  arguments :
    ∀ inner ∈ (nativeAttribute type).arguments, Text.IsLine inner ∧ ')' ∉ inner

/-- The attributes of a field as they are recovered from its line. -/
structure FieldExtras.IsMined (extras : FieldExtras) : Prop where
  columnName : ∀ name ∈ extras.columnName, '"' ∉ name ∧ Text.IsLine name
  nativeType : ∀ type ∈ extras.nativeType, IsMinedType type
  onUpdate : ∀ action ∈ extras.onUpdate, action ∈ Mining.relationActions

/-- An index as it is recovered: from its attribute to a closing parenthesis. -/
structure IsMinedIndex (index : Text) : Prop where
  closed : (indexAttribute index).write = index
  single : Text.IsLine index

/-- The field has a name and a type, and its texts come from one line each.  Its
default closes what it opens, unless the line before it leaves a literal open. -/
structure Field.IsRead (field : Field) : Prop where
  name : Text.IsName field.name
  type : IsReadType field.type
  default : ∀ value ∈ field.default, Text.IsTrimmed value ∧ Text.IsLine value
  enclosed : LiteralState.run .outside field.type = .outside →
    ∀ value ∈ field.default, Balanced value
  relation : ∀ relation ∈ field.relation, relation.IsRead
  documentation : ∀ text ∈ field.documentation, IsDocumented text
  extras : field.extras.IsMined

/-- The model has a name, and its texts come from one line each. -/
structure Model.IsRead (model : Model) : Prop where
  name : Text.IsName model.name
  fields : ∀ field ∈ model.fields, field.IsRead
  tableName : ∀ name ∈ model.tableName, Text.IsLine name
  primaryKey : ∀ key ∈ model.primaryKey, key.IsRead
  uniqueIndexes : ∀ key ∈ model.uniqueIndexes, key.IsRead
  extraIndexes : ∀ index ∈ model.extraIndexes, IsMinedIndex index
  documentation : ∀ text ∈ model.documentation, IsDocumented text

/-- The value has a name, and its stored name comes from one line. -/
structure EnumValue.IsRead (value : EnumValue) : Prop where
  name : Text.IsName value.name
  storedName : ∀ name ∈ value.storedName, Text.IsLine name

/-- The enum has a name, and its texts come from one line each. -/
structure SchemaEnum.IsRead (enum : SchemaEnum) : Prop where
  name : Text.IsName enum.name
  values : ∀ value ∈ enum.values, value.IsRead
  storedName : ∀ name ∈ enum.storedName, Text.IsLine name
  documentation : ∀ text ∈ enum.documentation, IsDocumented text

/-- The datasource has a name, and its properties are told apart by their keys. -/
structure Datasource.IsRead (datasource : Datasource) : Prop where
  name : Text.IsName datasource.name
  provider : Text.IsLine datasource.provider
  value : ∀ value ∈ datasource.url.value, Text.IsLine value
  variableName : ∀ name ∈ datasource.url.variableName, '"' ∉ name ∧ Text.IsLine name
  properties : ArePrintable ["provider", "url"] datasource.properties

/-- The generator has a name, and its properties are told apart by their keys. -/
structure Generator.IsRead (generator : Generator) : Prop where
  name : Text.IsName generator.name
  provider : Text.IsLine generator.provider
  properties : ArePrintable ["provider"] generator.properties

/-- Every declaration of the schema is as it is read. -/
structure Schema.IsRead (schema : Schema) : Prop where
  models : ∀ model ∈ schema.models, model.IsRead
  enums : ∀ enum ∈ schema.enums, enum.IsRead
  datasources : ∀ datasource ∈ schema.datasources, datasource.IsRead
  generators : ∀ generator ∈ schema.generators, generator.IsRead

/-! ## Lines and documentation -/

theorem isLine_of_mem_ofText {text : Text} :
    ∀ line ∈ Line.ofText text, Text.IsLine line.text := by
  intro line member
  obtain ⟨⟨row, number⟩, inRows, rfl⟩ := List.mem_map.mp member
  exact Text.isLine_trim
    (Text.isLine_of_mem_lines row (List.fst_mem_of_mem_zipIdx inRows))

namespace Line

variable {line : Line}

theorem isLine_code (single : Text.IsLine line.text) : Text.IsLine line.code :=
  single.of_subset (Text.prefix_code line.text).subset

theorem isTrimmed_of_documentation?
    (single : Text.IsLine line.text) {text : Text}
    (documented : line.documentation? = some text) :
    Text.IsTrimmed text ∧ Text.IsLine text := by
  obtain ⟨behind, found, rfl⟩ := Option.map_eq_some_iff.mp documented
  refine ⟨Text.isTrimmed_trim behind, Text.isLine_trim ?_⟩
  rw [Text.eq_append_of_after? found, Text.isLine_append] at single
  exact single.2

end Line

/-- Trimmed lines are joined to a documentation of trimmed lines. -/
theorem isDocumented_joinDocumentation
    {texts : List Text}
    (trimmed : ∀ text ∈ texts, Text.IsTrimmed text ∧ Text.IsLine text) :
    ∀ documentation ∈ joinDocumentation texts, IsDocumented documentation := by
  intro documentation joined line member
  have same : Text.unlines texts = documentation := by
    rw [joinDocumentation] at joined
    split at joined
    · contradiction
    · exact Option.some.inj joined
  obtain ⟨tail, rows, _⟩ :=
    Text.exists_lines_unlines fun text inTexts => (trimmed text inTexts).2
  apply (trimmed line _).1
  rw [rows, same]
  exact List.mem_append_left _ member

/-! ## Blocks -/

/-- The block has a name, documentation of trimmed lines, and rows of one line
each. -/
structure Block.IsRead (block : Block) : Prop where
  name : Text.IsName block.name
  documentation : ∀ text ∈ block.documentation, IsDocumented text
  body : ∀ line ∈ block.body, Text.IsLine line.text

namespace Block

theorem isName_of_header?
    {content keyword name : Text} (found : header? content = some (keyword, name)) :
    Text.IsName name := by
  rw [header?] at found
  split_ifs at found
  split at found
  · rename_i own behind identifier
    split_ifs at found
    cases found
    exact (Text.isName_of_identifier? identifier).1
  · contradiction

/-- Where a reader of lines stands, documentation is trimmed and a block is as it is
read. -/
def Position.IsRead : Position → Prop
  | .between documentation =>
    ∀ text ∈ documentation, Text.IsTrimmed text ∧ Text.IsLine text
  | .within block => block.IsRead

/-- What was read so far is as it is read. -/
structure Splitting.IsRead (splitting : Splitting) : Prop where
  complete : ∀ block ∈ splitting.complete, block.IsRead
  position : splitting.position.IsRead

theorem Splitting.IsRead.step
    {splitting next : Splitting} {line : Line} (single : Text.IsLine line.text)
    (isRead : splitting.IsRead) (read : splitting.step line = .ok next) :
    next.IsRead := by
  obtain ⟨complete, position⟩ := splitting
  cases position with
  | within block =>
      have own : block.IsRead := isRead.position
      simp only [Splitting.step] at read
      split_ifs at read
      · cases read
        refine ⟨?_, by simp [Position.IsRead]⟩
        exact List.forall_mem_append.mpr
          ⟨isRead.complete, List.forall_mem_singleton.mpr own⟩
      · cases read
        refine ⟨isRead.complete, own.name, own.documentation, ?_⟩
        exact List.forall_mem_append.mpr
          ⟨own.body, List.forall_mem_singleton.mpr single⟩
  | between documentation =>
      have trimmed : ∀ text ∈ documentation, Text.IsTrimmed text ∧ Text.IsLine text :=
        isRead.position
      simp only [Splitting.step] at read
      split at read
      · rename_i text documented
        cases read
        refine ⟨isRead.complete, List.forall_mem_append.mpr ⟨trimmed, ?_⟩⟩
        exact List.forall_mem_singleton.mpr
          (Line.isTrimmed_of_documentation? single documented)
      · split_ifs at read
        · cases read
          exact ⟨isRead.complete, by simp [Position.IsRead]⟩
        · cases read
          exact isRead
        · split at read
          · contradiction
          · rename_i keyword name header
            split at read
            · contradiction
            · cases read
              exact ⟨isRead.complete, isName_of_header? header,
                isDocumented_joinDocumentation trimmed, by simp⟩

/-- The blocks of a document are as they are read. -/
theorem isRead_of_split
    {text : Text} {blocks : List Block}
    (read : split (Line.ofText text) = .ok blocks) : ∀ block ∈ blocks, block.IsRead := by
  obtain ⟨splitting, folded, finished⟩ := Reading.bind_eq_ok.mp read
  have isRead : splitting.IsRead := by
    apply Reading.foldlM_keeps_of_mem Splitting.IsRead ?_ ?_ folded
    · intro state line next member holds stepped
      exact holds.step (isLine_of_mem_ofText line member) stepped
    · exact ⟨by simp, by simp [Position.IsRead]⟩
  rw [Splitting.finish] at finished
  split at finished
  · cases finished
    exact isRead.complete
  · contradiction

end Block

/-! ## Fields -/

namespace Attribute.IsScanned

variable {source : Attribute} (isScanned : source.IsScanned)

include isScanned

theorem relation {relation : Relation} (read : source.relation = .ok relation) :
    relation.IsRead := by
  obtain ⟨arguments, splits, further⟩ := Reading.bind_eq_ok.mp read
  obtain ⟨fields, fieldsNamed, further⟩ := Reading.bind_eq_ok.mp further
  obtain ⟨references, referencesNamed, same⟩ := Reading.bind_eq_ok.mp further
  obtain rfl := Reading.pure_eq_ok.mp same
  have single := isScanned.split splits
  have keyed : ∀ key, ∀ text ∈ Arguments.named? key arguments, Text.IsLine text := by
    intro key text found
    obtain ⟨argument, member, inside⟩ := Arguments.exists_of_named? found
    exact (single argument member).of_subset inside
  refine ⟨?_, isScanned.listNamed fieldsNamed, isScanned.listNamed referencesNamed,
    keyed "onDelete"⟩
  intro name named
  split at named
  · rename_i first others _
    split at named
    · exact keyed "name" name named
    · obtain rfl := Option.some.inj named
      exact (single first List.mem_cons_self).of_subset (Text.unquote_subset first)
  · exact keyed "name" name named

theorem compoundKey {key : CompoundKey} (read : source.compoundKey = .ok key) :
    key.IsRead := by
  obtain ⟨value, named, further⟩ := Reading.bind_eq_ok.mp read
  -- The fields are the list under their key, or else the first argument.
  have given : ∃ fields name, (∀ item ∈ fields, Arguments.IsBare item) ∧
      source.named? "name" = .ok name ∧ key = { fields, name } := by
    cases value with
    | some value =>
        obtain ⟨fields, listed, further⟩ := Reading.bind_eq_ok.mp further
        obtain ⟨name, own, same⟩ := Reading.bind_eq_ok.mp further
        have bare :=
          Arguments.isBare_of_listOf (isScanned.named? named value rfl) listed
        exact ⟨fields, name, bare, own, (Reading.pure_eq_ok.mp same).symm⟩
    | none =>
        obtain ⟨fields, found, further⟩ := Reading.bind_eq_ok.mp further
        obtain ⟨value, positional, listed⟩ := Reading.bind_eq_ok.mp found
        obtain ⟨name, own, same⟩ := Reading.bind_eq_ok.mp further
        have bare := Arguments.isBare_of_listOf (isScanned.positional positional) listed
        exact ⟨fields, name, bare, own, (Reading.pure_eq_ok.mp same).symm⟩
  obtain ⟨fields, name, bare, own, rfl⟩ := given
  exact ⟨bare, isScanned.named? own⟩

end Attribute.IsScanned

namespace Field

theorem type_of_withAttribute
    {field next : Field} {source : Attribute}
    (read : field.withAttribute source = .ok next) : next.type = field.type :=
  show next.bare.type = field.bare.type from
    congrArg Field.type (bare_of_withAttribute read)

theorem IsRead.withAttribute
    {field next : Field} {source : Attribute} (isScanned : source.IsScanned)
    (balanced : LiteralState.run .outside field.type = .outside →
      ∀ inner ∈ source.arguments, Balanced inner)
    (isRead : field.IsRead) (read : field.withAttribute source = .ok next) :
    next.IsRead := by
  unfold Field.withAttribute at read
  split_ifs at read
  · cases read
    exact { isRead with }
  · cases read
    exact { isRead with }
  · cases read
    exact { isRead with }
  · cases read
    exact { isRead with
      default := fun value member =>
        ⟨isScanned.trimmed value member, isScanned.single value member⟩
      enclosed := balanced }
  · obtain ⟨relation, related, rfl⟩ := Reading.map_eq_ok.mp read
    refine { isRead with relation := ?_ }
    rintro _ ⟨⟩
    exact isScanned.relation related
  · cases read
    exact isRead

/-- A field that is read from one line without a comment. -/
theorem isRead_of_read
    {names : DeclaredNames} {documentation : Option Text} {content : Text}
    {field : Field} (single : Text.IsLine content)
    (silent : Text.beforeComment .outside content = content)
    (documented : ∀ text ∈ documentation, IsDocumented text)
    (read : Field.read names documentation content = .ok field) : field.IsRead := by
  obtain ⟨line, kind, sources, parts, _, scanned, folded⟩ := exists_of_read read
  obtain ⟨isName, isType, gap, marks, rfl, _, blank, known⟩ :=
    FieldLine.exists_of_ofText? parts
  have plain : '"' ∉ line.name ++ gap := by
    rw [List.mem_append, not_or]
    refine ⟨isName.not_mem (by decide), fun inGap => ?_⟩
    have visible := blank '"' inGap
    contradiction
  have plainMarks : '"' ∉ marks := fun quote => absurd (known '"' quote) (by decide)
  simp only [Text.isLine_append] at single
  obtain ⟨⟨⟨⟨_, _⟩, lineType⟩, _⟩, lineAttributes⟩ := single
  have each := Attribute.isScanned_of_scan lineAttributes scanned
  have balanced : LiteralState.run .outside line.type = .outside →
      ∀ source ∈ sources, ∀ inner ∈ source.arguments, Balanced inner := by
    intro outside
    have behind := (Text.beforeComment_of_append silent).2
    rw [LiteralState.run_append, LiteralState.run_append _ (line.name ++ gap),
      LiteralState.run_outside_of_no_quote plain, outside,
      LiteralState.run_outside_of_no_quote plainMarks] at behind
    exact Attribute.balanced_of_scan behind scanned
  have whole : field.IsRead ∧ field.type = line.type := by
    apply Reading.foldlM_keeps_of_mem
      (fun state : Field => state.IsRead ∧ state.type = line.type) ?_ ?_ folded
    · intro state source next member holds stepped
      refine ⟨holds.1.withAttribute (each source member) ?_ stepped,
        (type_of_withAttribute stepped).trans holds.2⟩
      rw [holds.2]
      exact fun outside => balanced outside source member
    · refine ⟨⟨isName, ?_, by simp, by simp, by simp, documented, by simp, by simp,
        by simp⟩, rfl⟩
      exact isType.imp id fun unsupported => ⟨unsupported, lineType⟩
  exact whole.1

end Field

/-! ## Models -/

namespace Model

theorem IsRead.withAttribute
    {model next : Model} {source : Attribute} (isScanned : source.IsScanned)
    (isRead : model.IsRead) (read : model.withAttribute source = .ok next) :
    next.IsRead := by
  rcases withAttribute_cases read with
    ⟨name, positional, rfl⟩ | ⟨key, compound, rfl⟩ | ⟨key, compound, rfl⟩ | rfl
  · refine { isRead with tableName := ?_ }
    rintro _ ⟨⟩
    exact (isScanned.positional positional).of_subset (Text.unquote_subset name)
  · refine { isRead with primaryKey := ?_ }
    rintro _ ⟨⟩
    exact isScanned.compoundKey compound
  · exact { isRead with
      uniqueIndexes := List.forall_mem_append.mpr
        ⟨isRead.uniqueIndexes,
          List.forall_mem_singleton.mpr (isScanned.compoundKey compound)⟩ }
  · exact isRead

/-- The model read so far and the documentation that waits for a field. -/
structure Reading.IsRead (reading : Model.Reading) : Prop where
  model : reading.model.IsRead
  documentation :
    ∀ text ∈ reading.documentation, Text.IsTrimmed text ∧ Text.IsLine text

theorem Reading.IsRead.step
    {names : DeclaredNames} {reading next : Model.Reading} {line : Line}
    (single : Text.IsLine line.text) (isRead : reading.IsRead)
    (read : reading.step names line = .ok next) : next.IsRead := by
  rcases Reading.step_cases read with
    ⟨text, documented, rfl⟩ | ⟨_, rfl⟩ | ⟨sources, model, scanned, folded, rfl⟩ |
      ⟨field, readField, _, rfl⟩
  · refine ⟨isRead.model, List.forall_mem_append.mpr ⟨isRead.documentation, ?_⟩⟩
    exact List.forall_mem_singleton.mpr
      (Line.isTrimmed_of_documentation? single documented)
  · exact isRead
  · have each := Attribute.isScanned_of_scan (Line.isLine_code single) scanned
    refine ⟨?_, by simp⟩
    apply SchemaCompose.Reading.foldlM_keeps_of_mem Model.IsRead ?_ isRead.model folded
    intro state source after member holds stepped
    exact holds.withAttribute (each source member) stepped
  · have own : field.IsRead := Field.isRead_of_read (Line.isLine_code single)
      (Text.silent_code line.text)
      (isDocumented_joinDocumentation isRead.documentation) readField
    refine ⟨{ isRead.model with fields := ?_ }, by simp⟩
    exact List.forall_mem_append.mpr
      ⟨isRead.model.fields, List.forall_mem_singleton.mpr own⟩

theorem isRead_of_ofBlock
    {names : DeclaredNames} {block : Block} {model : Model} (isRead : block.IsRead)
    (read : Model.ofBlock names block = .ok model) : model.IsRead := by
  obtain ⟨reading, folded, same⟩ := Reading.bind_eq_ok.mp read
  rw [← Reading.pure_eq_ok.mp same]
  have whole : reading.IsRead := by
    apply SchemaCompose.Reading.foldlM_keeps_of_mem Reading.IsRead ?_ ?_ folded
    · intro state line next member holds stepped
      exact holds.step (isRead.body line member) stepped
    · exact ⟨⟨isRead.name, by simp, by simp, by simp, by simp, by simp,
        isRead.documentation⟩, by simp⟩
  exact whole.model

end Model

/-! ## Enums -/

namespace SchemaEnum

theorem isLine_storedName
    {mapping : Text} {sources : List Attribute} {before stored : Option Text}
    (each : ∀ source ∈ sources, source.IsScanned)
    (single : ∀ name ∈ before, Text.IsLine name)
    (folded : sources.foldlM (storedNameFrom mapping) before = .ok stored) :
    ∀ name ∈ stored, Text.IsLine name := by
  apply Reading.foldlM_keeps_of_mem
    (fun state : Option Text => ∀ name ∈ state, Text.IsLine name) ?_ single folded
  intro state source next member holds stepped
  unfold storedNameFrom at stepped
  split_ifs at stepped
  · obtain ⟨name, positional, rfl⟩ := Reading.map_eq_ok.mp stepped
    rintro _ ⟨⟩
    exact ((each source member).positional positional).of_subset
      (Text.unquote_subset name)
  · cases stepped
    exact holds

theorem IsRead.step
    {enum next : SchemaEnum} {line : Line} (single : Text.IsLine line.text)
    (isRead : enum.IsRead) (read : enum.step line = .ok next) : next.IsRead := by
  have code := Line.isLine_code single
  rcases SchemaEnum.step_cases read with
    ⟨_, rfl⟩ | ⟨sources, stored, scanned, folded, rfl⟩ |
      ⟨name, behind, sources, stored, identifier, scanned, folded, rfl⟩
  · exact isRead
  · exact { isRead with
      storedName := isLine_storedName (Attribute.isScanned_of_scan code scanned)
        isRead.storedName folded }
  · obtain ⟨isName, whole, _⟩ := Text.isName_of_identifier? identifier
    rw [whole, Text.isLine_append] at code
    have own : EnumValue.IsRead { name, storedName := stored } :=
      ⟨isName, isLine_storedName (Attribute.isScanned_of_scan code.2 scanned)
        (by simp) folded⟩
    refine { isRead with values := ?_ }
    exact List.forall_mem_append.mpr
      ⟨isRead.values, List.forall_mem_singleton.mpr own⟩

theorem isRead_of_ofBlock
    {block : Block} {enum : SchemaEnum} (isRead : block.IsRead)
    (read : SchemaEnum.ofBlock block = .ok enum) : enum.IsRead := by
  apply Reading.foldlM_keeps_of_mem SchemaEnum.IsRead ?_ ?_ read
  · intro state line next member holds stepped
    exact holds.step (isRead.body line member) stepped
  · exact ⟨isRead.name, by simp, by simp, isRead.documentation⟩

end SchemaEnum

end SchemaCompose
