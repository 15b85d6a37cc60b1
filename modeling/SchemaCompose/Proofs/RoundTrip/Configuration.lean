import SchemaCompose.Proofs.Registries
import SchemaCompose.Proofs.RoundTrip.Blocks
import SchemaCompose.Proofs.RoundTrip.Fields

/-!
# Enum and configuration blocks that are written out

The rows of an enum are its values and its stored name; the rows of a datasource or
a generator are properties, the provider first and a connection behind it.  Reading
such rows gives the enum, the datasource or the generator back in full.
-/

namespace SchemaCompose

/-! ## Properties -/

theorem propertyLine_eq (property : Text × Text) :
    propertyLine property = property.1 ++ ' ' :: '=' :: ' ' :: property.2 := by
  rw [propertyLine, List.append_assoc]
  rfl

theorem isBodyRow_propertyLine
    {property : Text × Text} (key : Text.IsName property.1) (filled : property.2 ≠ [])
    (trimmed : Text.IsTrimmed property.2) (single : Text.IsLine property.2) :
    IsBodyRow (propertyLine property) := by
  have around := key.isTrimmed.around key.ne_nil trimmed filled [' ', '=', ' ']
  rw [propertyLine_eq]
  refine ⟨by simpa using around, ?_, ?_⟩
  · simp only [Text.isLine_append, Text.isLine_cons]
    exact ⟨key.isLine, by decide, by decide, by decide, single⟩
  · exact key.head?_ne (by decide) _

namespace IsProperty

variable {property : Text × Text}

theorem isBodyRow (isProperty : IsProperty property) :
    IsBodyRow (propertyLine property) :=
  isBodyRow_propertyLine isProperty.key isProperty.filled isProperty.trimmed
    isProperty.single

theorem code_propertyLine (isProperty : IsProperty property) :
    Text.code (propertyLine property) = propertyLine property := by
  have key : Balanced (property.1 ++ [' ', '=', ' ']) :=
    (balanced_of_plain (isProperty.key.apart (by decide))).append (by decide)
      (Or.inr (by simp))
  have silent : Text.beforeComment .outside (propertyLine property) =
      propertyLine property := by
    have behind :
        Text.beforeComment .outside (property.1 ++ [' ', '=', ' '] ++ property.2) =
          property.1 ++ [' ', '=', ' '] ++ Text.beforeComment .outside property.2 :=
      key.beforeComment_append (Or.inl (by simp))
    rw [isProperty.silent] at behind
    rw [propertyLine_eq]
    simpa using behind
  rw [Text.code, silent, isProperty.isBodyRow.trimmed.trimEnd_eq]

theorem line?_propertyLine (isProperty : IsProperty property) :
    Properties.line? (propertyLine property) = some property := by
  have key : Text.identifier? (propertyLine property) =
      some (property.1, ' ' :: '=' :: ' ' :: property.2) := by
    rw [propertyLine_eq]
    exact isProperty.key.identifier?_append rfl
  have value : Text.trim (' ' :: property.2) = property.2 :=
    isProperty.trimmed.trim_append (show ∀ c ∈ [' '], _ by decide)
  have start : Text.trimStart (' ' :: '=' :: ' ' :: property.2) =
      '=' :: ' ' :: property.2 := by
    rw [Text.trimStart_cons_of_blank (by decide),
      Text.trimStart_cons_of_not_blank (by decide)]
  obtain ⟨c, rest, filled⟩ := List.exists_cons_of_ne_nil isProperty.filled
  rw [Properties.line?, key]
  simp only [Option.bind_eq_bind, Option.bind_some, start, value]
  rw [filled]
  simp only [← filled]

end IsProperty

namespace Properties

theorem step_propertyLine
    {property : Text × Text} (isProperty : IsProperty property) {line : Line}
    (code : line.code = propertyLine property) (kind : BlockKind)
    (properties : Properties) :
    step kind properties line = .ok (properties.put property.1 property.2) := by
  have filled : (propertyLine property).isEmpty = false := by
    rw [propertyLine_eq]
    simp
  simp only [step, code, filled, Bool.false_eq_true, if_false,
    isProperty.line?_propertyLine]

/-- Properties of different keys are read in the order in which they are written. -/
theorem foldlM_propertyLine
    {properties : List (Text × Text)}
    (each : ∀ property ∈ properties, IsProperty property)
    {lines : List Line} (codes : lines.map (·.code) = properties.map propertyLine)
    (kind : BlockKind) (before : Properties)
    (distinct : ((before ++ properties).map Prod.fst).Nodup) :
    lines.foldlM (step kind) before = .ok (before ++ properties) := by
  induction properties generalizing lines before with
  | nil =>
      rw [List.map_nil, List.map_eq_nil_iff] at codes
      rw [codes, List.append_nil]
      rfl
  | cons property others ih =>
      rw [List.forall_mem_cons] at each
      obtain ⟨line, further, rfl, code, behind⟩ := List.map_eq_cons_iff.mp codes
      have new : property.1 ∉ before.map Prod.fst := by
        intro member
        rw [List.map_append, List.map_cons, List.nodup_append] at distinct
        exact distinct.2.2 property.1 member property.1 List.mem_cons_self rfl
      rw [List.foldlM_cons, step_propertyLine each.1 code, Reading.ok_bind,
        Registry.put_of_new new, ih each.2 behind _ (by simpa using distinct)]
      simp

/-- The property that names a provider. -/
def ofProvider (provider : Text) : Text × Text :=
  ("provider", inQuotes provider)

theorem isProperty_inQuotes
    {key text : Text} (isName : Text.IsName key) (isSetting : IsSettingText text) :
    IsProperty (key, inQuotes text) where
  key := isName
  filled := by simp [inQuotes]
  trimmed := Arguments.isTrimmed_inQuotes text
  single := Arguments.isLine_inQuotes isSetting.single
  silent := isSetting.silent

theorem isBodyRow_of_mem
    {properties : List (Text × Text)}
    (each : ∀ property ∈ properties, IsProperty property) :
    ∀ row ∈ properties.map propertyLine, IsBodyRow row := by
  rw [List.forall_mem_map]
  exact fun property member => (each property member).isBodyRow

/-- A block whose lines say its provider and further properties. -/
theorem ofBlock_of_codes
    {provider : Text} {properties : List (Text × Text)}
    (each : ∀ property ∈ ("provider".toList, provider) :: properties,
      IsProperty property)
    (distinct : ("provider".toList :: properties.map (·.1)).Nodup) {block : Block}
    (codes : block.body.map (·.code) =
      (("provider".toList, provider) :: properties).map propertyLine) :
    ofBlock block = .ok (Text.unquote provider, properties) := by
  have folded := foldlM_propertyLine each codes block.kind [] distinct
  have found :
      Registry.find? "provider".toList
        ([] ++ ("provider".toList, provider) :: properties) = some provider :=
    Registry.find?_cons_self
  have others :
      Registry.erase "provider".toList
        ([] ++ ("provider".toList, provider) :: properties) = properties :=
    Registry.erase_cons_self.trans
      (Registry.erase_of_unknown (List.nodup_cons.mp distinct).1)
  rw [ofBlock, folded, Reading.ok_bind, found, others]
  rfl

/-- A block whose rows are its provider and further properties. -/
theorem ofBlock_of_rows
    {provider : Text} (isSetting : IsSettingText provider)
    {properties : List (Text × Text)}
    (each : ∀ property ∈ properties, IsProperty property)
    (distinct : ("provider".toList :: properties.map (·.1)).Nodup) {block : Block}
    (rows : block.body.map (·.text) =
      (ofProvider provider :: properties).map propertyLine) :
    ofBlock block = .ok (Text.unquote.unescapeQuotes provider, properties) := by
  have all : ∀ property ∈ ofProvider provider :: properties, IsProperty property :=
    List.forall_mem_cons.mpr ⟨isProperty_inQuotes (by decide) isSetting, each⟩
  have codes : block.body.map (·.code) =
      (ofProvider provider :: properties).map propertyLine := by
    have cut := congrArg (List.map Text.code) rows
    rw [List.map_map, List.map_map] at cut
    exact cut.trans (List.map_congr_left fun property member =>
      (all property member).code_propertyLine)
  rw [← Arguments.unquote_inQuotes_eq]
  exact ofBlock_of_codes all distinct codes

end Properties

/-! ## Generators -/

namespace Generator

/-- The block of a generator before it is written. -/
def blockText (generator : Generator) : BlockText where
  kind := .generator
  name := generator.name
  body :=
    (Properties.ofProvider generator.provider :: generator.properties).map
      propertyLine

theorem isReadable_blockText {generator : Generator}
    (writable : generator.IsWritable) :
    generator.blockText.IsReadable := by
  refine ⟨writable.name, by simp [blockText], ?_⟩
  apply Properties.isBodyRow_of_mem
  exact List.forall_mem_cons.mpr
    ⟨Properties.isProperty_inQuotes (by decide) writable.provider,
      writable.properties.each⟩

/-- The block of a generator gives the generator, its provider without escapes. -/
theorem ofBlock_blockText
    {generator : Generator} (writable : generator.IsWritable) {block : Block}
    (isRead : generator.blockText.IsReadAs block) :
    Generator.ofBlock block = .ok generator.reread := by
  have name : block.name = generator.name := isRead.name
  have read :=
    Properties.ofBlock_of_rows writable.provider writable.properties.each
    writable.properties.distinct isRead.body
  rw [Generator.ofBlock, read, Reading.ok_bind]
  simp only [name]
  rfl

end Generator

/-! ## Datasources -/

namespace ConnectionUrl

/-- The property that gives a connection. -/
def properties (url : ConnectionUrl) : List (Text × Text) :=
  url.variableName.toList.map
    (fun name => ("url".toList, "env(" ++ inQuotes name ++ ")")) ++
    url.value.toList.map fun value => ("url".toList, inQuotes value)

variable {url : ConnectionUrl}

/-- A connection is given in no way, by a variable or by a value. -/
theorem properties_cases (writable : url.IsWritable) :
    (url = {} ∧ url.properties = []) ∨
      (∃ name, ('"' ∉ name ∧ Text.IsLine name ∧ name ≠ []) ∧
        url = { variableName := some name } ∧
        url.properties = [("url".toList, "env(" ++ inQuotes name ++ ")")]) ∨
      ∃ value, (IsSettingText value ∧ value ≠ []) ∧
        url = { value := some value } ∧
        url.properties = [("url".toList, inQuotes value)] := by
  obtain ⟨value, variableName⟩ := url
  have values := writable.value
  have names := writable.variableName
  cases variableName with
  | none =>
      cases value with
      | none => exact Or.inl ⟨rfl, rfl⟩
      | some value => exact Or.inr (Or.inr ⟨value, values value rfl, rfl, rfl⟩)
  | some name =>
      obtain rfl : value = none := by simpa using writable.single
      exact Or.inr (Or.inl ⟨name, names name rfl, rfl, rfl⟩)

theorem lines_eq (writable : url.IsWritable) :
    url.lines = url.properties.map propertyLine := by
  rcases properties_cases writable with ⟨rfl, none⟩ | ⟨name, plain, rfl, one⟩ |
    ⟨value, setting, rfl, one⟩
  · rw [none]
    rfl
  · obtain ⟨c, rest, rfl⟩ := List.exists_cons_of_ne_nil plain.2.2
    rw [one]
    rfl
  · obtain ⟨c, rest, rfl⟩ := List.exists_cons_of_ne_nil setting.2
    rw [one]
    rfl

theorem ofValue_inQuotes (value : Text) :
    ofValue (inQuotes value) = { value := some (Text.unquote.unescapeQuotes value) } := by
  have none : environmentName? (inQuotes value) = none := rfl
  rw [ofValue, none]
  simp only [Arguments.unquote_inQuotes_eq]

theorem ofValue_environment {name : Text} (plain : '"' ∉ name) (given : name ≠ []) :
    ofValue ("env(" ++ inQuotes name ++ ")") = { variableName := some name } := by
  obtain ⟨taken, dropped⟩ := takeWhile_append_quote plain [')']
  have found : environmentName? ("env(" ++ inQuotes name ++ ")") = some name := by
    have whole : "env(" ++ inQuotes name ++ ")" =
        "env(".toList ++ '"' :: (name ++ ['"', ')']) := by
      simp [inQuotes]
    have start : Text.trimStart ('"' :: (name ++ ['"', ')'])) =
        '"' :: (name ++ ['"', ')']) :=
      Text.trimStart_cons_of_not_blank (by decide)
    have opened : Text.after? "\"" ('"' :: (name ++ ['"', ')'])) =
        some (name ++ ['"', ')']) := rfl
    rw [whole, environmentName?, Text.after?_append]
    simp only [Option.bind_eq_bind, Option.bind_some, start, opened, taken, dropped]
    have filled : name.isEmpty = false := by simpa using given
    simp only [filled]
    rfl
  rw [ofValue, found]

theorem silent_environment {name : Text} (plain : '"' ∉ name) :
    Text.beforeComment .outside ("env(" ++ inQuotes name ++ ")") =
      "env(" ++ inQuotes name ++ ")" := by
  have whole : "env(" ++ inQuotes name ++ ")" =
      "env(\"".toList ++ (name ++ ['"', ')']) := by
    simp [inQuotes]
  have opened : LiteralState.run .outside "env(\"".toList = .inside := by decide
  have closed : ∀ state, Text.beforeComment state ['"', ')'] = ['"', ')'] := by
    intro state
    exact Text.beforeComment_of_no_slash (by decide)
  rw [whole, Text.beforeComment_append (by decide) (Or.inl (by decide)), opened,
    Text.beforeComment_of_inside (by simp) plain, closed]

theorem isProperty_environment
    {name : Text} (plain : '"' ∉ name) (single : Text.IsLine name) :
    IsProperty ("url".toList, "env(" ++ inQuotes name ++ ")") where
  key := show Text.IsName "url".toList by decide
  filled := by simp
  trimmed := Text.IsTrimmed.around
    (show Text.IsTrimmed "env(".toList by decide) (by decide)
    (show Text.IsTrimmed ")".toList by decide) (by decide) (inQuotes name)
  single := by
    simp only [Text.isLine_append]
    exact ⟨⟨by decide, Arguments.isLine_inQuotes single⟩, by decide⟩
  silent := silent_environment plain

theorem isProperty_of_mem_properties (writable : url.IsWritable) :
    ∀ property ∈ url.properties, IsProperty property := by
  rw [properties]
  simp only [List.forall_mem_append, List.forall_mem_map, Option.mem_toList]
  constructor
  · intro name member
    obtain ⟨plain, single, _⟩ := writable.variableName name member
    exact isProperty_environment plain single
  · intro value member
    exact Properties.isProperty_inQuotes (by decide) (writable.value value member).1

/-- The connection that is found under its key, in front of properties of other
keys. -/
theorem ofValue_find?_properties
    (writable : url.IsWritable) {others : Properties}
    (unknown : "url".toList ∉ others.map Prod.fst) :
    ((Registry.find? "url".toList (url.properties ++ others)).map ofValue).getD {} =
      url.reread ∧
      Registry.erase "url".toList (url.properties ++ others) = others := by
  have found := Registry.find?_of_unknown unknown
  have erased := Registry.erase_of_unknown unknown
  rcases properties_cases writable with ⟨rfl, none⟩ | ⟨name, plain, rfl, one⟩ |
    ⟨value, setting, rfl, one⟩
  · rw [none, List.nil_append, found, erased]
    exact ⟨rfl, rfl⟩
  · rw [one, List.singleton_append, Registry.find?_cons_self,
      Registry.erase_cons_self, erased, Option.map_some,
      ofValue_environment plain.1 plain.2.2]
    exact ⟨rfl, rfl⟩
  · rw [one, List.singleton_append, Registry.find?_cons_self,
      Registry.erase_cons_self, erased, Option.map_some,
      ofValue_inQuotes value]
    exact ⟨rfl, rfl⟩

end ConnectionUrl

namespace Datasource

/-- The properties of a datasource behind its provider. -/
def furtherProperties (datasource : Datasource) : List (Text × Text) :=
  datasource.url.properties ++ datasource.properties

/-- The block of a datasource before it is written. -/
def blockText (datasource : Datasource) : BlockText where
  kind := .datasource
  name := datasource.name
  body :=
    (Properties.ofProvider datasource.provider :: datasource.furtherProperties).map
      propertyLine

variable {datasource : Datasource}

theorem isProperty_of_mem (writable : datasource.IsWritable) :
    ∀ property ∈ datasource.furtherProperties, IsProperty property :=
  List.forall_mem_append.mpr
    ⟨ConnectionUrl.isProperty_of_mem_properties writable.url,
      writable.properties.each⟩

theorem isReadable_blockText (writable : datasource.IsWritable) :
    datasource.blockText.IsReadable := by
  refine ⟨writable.name, by simp [blockText], ?_⟩
  apply Properties.isBodyRow_of_mem
  exact List.forall_mem_cons.mpr
    ⟨Properties.isProperty_inQuotes (by decide) writable.provider,
      isProperty_of_mem writable⟩

theorem nodup_furtherProperties (writable : datasource.IsWritable) :
    ("provider".toList :: datasource.furtherProperties.map (·.1)).Nodup := by
  have distinct :
      ("provider".toList :: "url".toList ::
        datasource.properties.map (·.1)).Nodup :=
    writable.properties.distinct
  rw [furtherProperties]
  rcases ConnectionUrl.properties_cases writable.url with ⟨_, none⟩ |
    ⟨name, _, _, one⟩ |
    ⟨value, _, _, one⟩
  · rw [none]
    exact distinct.sublist ((List.sublist_cons_self _ _).cons_cons _)
  · rw [one]
    exact distinct
  · rw [one]
    exact distinct

/-- The block of a datasource gives the datasource, its texts without escapes. -/
theorem ofBlock_blockText
    (writable : datasource.IsWritable) {block : Block}
    (isRead : datasource.blockText.IsReadAs block) :
    Datasource.ofBlock block = .ok datasource.reread := by
  have name : block.name = datasource.name := isRead.name
  have read :=
    Properties.ofBlock_of_rows writable.provider (isProperty_of_mem writable)
    (nodup_furtherProperties writable) isRead.body
  have distinct :
      ("provider".toList :: "url".toList ::
        datasource.properties.map (·.1)).Nodup :=
    writable.properties.distinct
  have unknown : "url".toList ∉ datasource.properties.map Prod.fst :=
    (List.nodup_cons.mp (List.nodup_cons.mp distinct).2).1
  obtain ⟨url, others⟩ :=
    ConnectionUrl.ofValue_find?_properties writable.url unknown
  rw [Datasource.ofBlock, read, Reading.ok_bind]
  show Except.ok (Datasource.mk block.name _ _ _) = _
  rw [furtherProperties, url, others, name]
  rfl

end Datasource

/-! ## Enums -/

/-- The attribute that gives a stored name. -/
def storedNameAttribute (mapping name : Text) : Attribute :=
  ⟨mapping, some (inQuotes name)⟩

theorem isWritten_storedNameAttribute
    {mapping name : Text} (isName : Attribute.IsName mapping)
    (quoted : IsQuoted name) :
    (storedNameAttribute mapping name).IsWritten := by
  refine ⟨isName, ?_⟩
  rintro inner ⟨⟩
  exact balanced_inQuotes quoted.contained.isDelimited

theorem isLine_storedNameAttribute {name : Text} (quoted : IsQuoted name)
    (mapping : Text) :
    ∀ inner ∈ (storedNameAttribute mapping name).arguments, Text.IsLine inner := by
  rintro inner ⟨⟩
  exact Arguments.isLine_inQuotes quoted.single

namespace EnumValue

variable {value : EnumValue}

/-- The attributes behind the name of a value. -/
def attributes (value : EnumValue) : List Attribute :=
  value.storedName.toList.map (storedNameAttribute "@map")

theorem isWritten_of_mem_attributes (writable : value.IsWritable) :
    ∀ source ∈ value.attributes, source.IsWritten := by
  rw [attributes, List.forall_mem_map]
  intro name member
  exact isWritten_storedNameAttribute (by decide)
    (writable.storedName name (Option.mem_toList.mp member)).1

theorem valueLine_eq (writable : value.IsWritable) :
    SchemaEnum.valueLine value =
      value.name ++ value.attributes.flatMap fun source => ' ' :: source.write := by
  rw [SchemaEnum.valueLine, Text.join_space, attributes, List.flatMap_map,
    whenSet_of_filled fun name member => (writable.storedName name member).2,
    List.flatMap_map]
  rfl

theorem isTrimmed_valueLine (writable : value.IsWritable) :
    Text.IsTrimmed (SchemaEnum.valueLine value) := by
  rw [valueLine_eq writable]
  exact Attribute.isTrimmed_append_flatMap writable.name.isTrimmed
    writable.name.ne_nil
    (isWritten_of_mem_attributes writable)

theorem isBodyRow_valueLine (writable : value.IsWritable) :
    IsBodyRow (SchemaEnum.valueLine value) := by
  refine ⟨isTrimmed_valueLine writable, ?_, ?_⟩
  · have single :
        ∀ source ∈ value.attributes, ∀ inner ∈ source.arguments,
        Text.IsLine inner := by
      rw [attributes, List.forall_mem_map]
      intro name member
      exact isLine_storedNameAttribute
        (writable.storedName name (Option.mem_toList.mp member)).1 _
    rw [valueLine_eq writable, Text.isLine_append]
    exact ⟨writable.name.isLine,
      Attribute.isLine_flatMap (isWritten_of_mem_attributes writable) single⟩
  · rw [valueLine_eq writable]
    exact writable.name.head?_ne (by decide) _

theorem code_valueLine (writable : value.IsWritable) :
    Text.code (SchemaEnum.valueLine value) = SchemaEnum.valueLine value := by
  have balanced : Balanced (SchemaEnum.valueLine value) := by
    rw [valueLine_eq writable]
    apply (balanced_of_plain (writable.name.apart (by decide))).append
      (Attribute.balanced_flatMap (isWritten_of_mem_attributes writable))
    right
    intro slash
    have same := Text.head?_flatMap_space Attribute.write value.attributes '/' slash
    contradiction
  rw [Text.code, balanced.silent, (isTrimmed_valueLine writable).trimEnd_eq]

end EnumValue

namespace SchemaEnum

variable {enum : SchemaEnum}

theorem storedNameFrom_storedNameAttribute
    {mapping name : Text} (quoted : IsQuoted name) (before : Option Text) :
    storedNameFrom mapping before (storedNameAttribute mapping name).trimmed =
      .ok (some name) := by
  have trimmed : Text.trim (inQuotes name) = inQuotes name :=
    Arguments.isTrimmed_inQuotes name
  have unquoted : Text.unquote (inQuotes name) = name :=
    Arguments.unquote_inQuotes quoted.contained.plain
  have read : (storedNameAttribute mapping name).trimmed =
      ⟨mapping, some (inQuotes name)⟩ := by
    rw [storedNameAttribute, Attribute.trimmed, Option.map_some, trimmed]
  rw [read, storedNameFrom, if_pos rfl,
    Attribute.positional_of_inQuotes _ quoted.contained]
  show Except.ok (some (Text.unquote (inQuotes name))) = _
  rw [unquoted]

theorem step_valueLine
    {value : EnumValue} (writable : value.IsWritable) {line : Line}
    (row : line.text = valueLine value) (enum : SchemaEnum) :
    enum.step line = .ok { enum with values := enum.values ++ [value] } := by
  have code : line.code = valueLine value := by
    rw [Line.code, row, EnumValue.code_valueLine writable]
  have start : (valueLine value).head? ≠ some '@' := by
    rw [EnumValue.valueLine_eq writable]
    exact writable.name.head?_ne (by decide) _
  have filled : (valueLine value).isEmpty = false := by
    rw [EnumValue.valueLine_eq writable]
    simp [writable.name.ne_nil]
  have noAttribute : Text.startsWith "@@" (valueLine value) = false :=
    Text.startsWith_of_head? (show "@@".toList.head? = some '@' from rfl) start
  have ends :
      Text.atWordEnd
        (value.attributes.flatMap fun source => ' ' :: source.write) = true := by
    rw [Text.atWordEnd_iff]
    intro c first
    rw [Text.head?_flatMap_space Attribute.write value.attributes c first]
    decide
  have named : Text.identifier? (valueLine value) =
      some (value.name, value.attributes.flatMap fun source =>
        ' ' :: source.write) := by
    rw [EnumValue.valueLine_eq writable]
    exact writable.name.identifier?_append ends
  have scanned :=
    Attribute.scan_flatMap (EnumValue.isWritten_of_mem_attributes writable)
  have stored :
      (value.attributes.map Attribute.trimmed).foldlM (storedNameFrom "@map") none =
        .ok value.storedName :=
    foldlM_optional
      (fun name said => by
        rw [storedNameFrom_storedNameAttribute
          (writable.storedName name said).1, said])
      (fun unsaid => unsaid.symm)
  simp only [step, code, filled, noAttribute, Bool.false_eq_true, if_false, named,
    scanned, Reading.ok_bind, stored]
  rfl

theorem foldlM_valueLine
    {values : List EnumValue} (writable : ∀ value ∈ values, value.IsWritable)
    {lines : List Line} (rows : lines.map (·.text) = values.map valueLine)
    (name : Text)
    (documentation : Option Text) :
    lines.foldlM step { name, values := [], documentation } =
      .ok { name, values, documentation } := by
  apply foldlM_rows_of_step
    (fun before =>
      ({ name, values := before, documentation } : SchemaEnum)) _ rows []
  intro value member line row before
  exact step_valueLine (writable value member) row _

theorem step_storedName
    {name : Text} (quoted : IsQuoted name) {line : Line}
    (row : line.text = (storedNameAttribute "@@map" name).write)
    (enum : SchemaEnum) :
    enum.step line = .ok { enum with storedName := name } := by
  have written : (storedNameAttribute "@@map" name).IsWritten :=
    isWritten_storedNameAttribute (by decide) quoted
  have code : line.code = (storedNameAttribute "@@map" name).write := by
    rw [Line.code, row, Attribute.code_write written]
  have scanned : Attribute.scan (storedNameAttribute "@@map" name).write =
      .ok [(storedNameAttribute "@@map" name).trimmed] :=
    Attribute.scan_write written
  have filled : (storedNameAttribute "@@map" name).write.isEmpty = false := rfl
  have isAttribute :
      Text.startsWith "@@" (storedNameAttribute "@@map" name).write = true := rfl
  simp only [step, code, filled, isAttribute, Bool.false_eq_true, if_false, if_true,
    scanned, Reading.ok_bind, List.foldlM_cons,
    storedNameFrom_storedNameAttribute quoted, List.foldlM_nil, pure_bind]
  rfl

/-- The block of an enum before it is written. -/
def blockText (enum : SchemaEnum) : BlockText where
  kind := .enum
  name := enum.name
  documentation := enum.documentation
  body :=
    enum.values.map valueLine ++
      (enum.storedName.toList.map (storedNameAttribute "@@map")).map Attribute.write

theorem isReadable_blockText (writable : enum.IsWritable) :
    enum.blockText.IsReadable := by
  refine ⟨writable.name, writable.documentation, ?_⟩
  show ∀ row ∈ _ ++ _, IsBodyRow row
  rw [List.map_map]
  simp only [List.forall_mem_append, List.forall_mem_map, Option.mem_toList]
  constructor
  · exact fun value member =>
      EnumValue.isBodyRow_valueLine (writable.values value member)
  · intro name member
    have quoted := (writable.storedName name member).1
    have written : (storedNameAttribute "@@map" name).IsWritten :=
      isWritten_storedNameAttribute (by decide) quoted
    exact Attribute.isBodyRow_write written
      (isLine_storedNameAttribute quoted "@@map")

/-- The block of an enum gives the enum. -/
theorem ofBlock_blockText
    (writable : enum.IsWritable) {block : Block}
    (isRead : enum.blockText.IsReadAs block) :
    SchemaEnum.ofBlock block = .ok enum.reread := by
  have name : block.name = enum.name := isRead.name
  have documentation :
      block.documentation = rereadDocumentation enum.documentation :=
    isRead.documentation
  obtain ⟨upper, lower, split, upperRows, lowerRows⟩ :=
    List.map_eq_append_iff.mp isRead.body
  rw [SchemaEnum.ofBlock, name, documentation, split, List.foldlM_append,
    foldlM_valueLine writable.values upperRows, Reading.ok_bind]
  cases stored : enum.storedName with
  | none =>
      rw [stored] at lowerRows
      rw [List.map_eq_nil_iff.mp lowerRows]
      show Except.ok (SchemaEnum.mk _ _ none _) = _
      rw [← stored]
      rfl
  | some text =>
      rw [stored] at lowerRows
      obtain ⟨line, rfl, row⟩ := List.map_eq_singleton_iff.mp lowerRows
      rw [List.foldlM_cons, step_storedName (writable.storedName text stored).1 row,
        Reading.ok_bind, ← stored]
      rfl

end SchemaEnum

end SchemaCompose
