import SchemaCompose.Proofs.Reading.Accepted
import SchemaCompose.Proofs.Reading.Insertion
import SchemaCompose.Proofs.RoundTrip.Recomposed

/-!
# Settings that are written out

The provider and the value of a connection are written between double quotes as they
are, so that a quote in them may end the string early: then two slashes begin a
comment, and a backslash goes with the quote behind it.  The sections of the
datasources and generators of an accepted document are accepted whatever those texts
hold (`Schema.parse_settings`), and each of the texts is read again as it is exactly
if it stays between its quotes.
-/

namespace SchemaCompose

/-! ## Texts between quotes -/

/-- No comment begins in the text between double quotes, and no quote in it stands
behind a backslash. -/
@[mk_iff]
structure StaysInQuotes (text : Text) : Prop where
  silent : IsSilentInQuotes text
  decoded : IsDecoded text

instance : DecidablePred StaysInQuotes := fun text =>
  decidable_of_iff' _ (staysInQuotes_iff text)

/-- What is read of a text that is written between double quotes. -/
def requoted (text : Text) : Text :=
  Text.unquote (Text.code (inQuotes text))

namespace Text

theorem length_unescapeQuotes_le (text : Text) :
    (unquote.unescapeQuotes text).length ≤ text.length := by
  induction text using unquote.unescapeQuotes.induct with
  | case1 => exact Nat.le_refl _
  | case2 rest ih =>
      rw [unquote.unescapeQuotes, List.length_cons, List.length_cons, List.length_cons]
      omega
  | case3 c rest other ih =>
      rw [unquote.unescapeQuotes, List.length_cons, List.length_cons]
      · omega
      · exact other

theorem length_unquote_le (value : Text) : (unquote value).length ≤ value.length := by
  have trimmed : (trim value).length ≤ value.length :=
    (length_trimEnd_le _).trans (List.dropWhile_sublist isBlank).length_le
  rw [unquote]
  split
  · rename_i rest quoted
    rw [quoted, List.length_cons] at trimmed
    split
    · have inner := length_unescapeQuotes_le rest.dropLast
      rw [List.length_dropLast] at inner
      omega
    · rw [quoted, List.length_cons]
      exact trimmed
  · exact trimmed

theorem trimEnd_append_of_filled
    {text : Text} (filled : trimEnd text ≠ []) (lead : Text) :
    trimEnd (lead ++ text) = lead ++ trimEnd text := by
  have reversed : (text.reverse.dropWhile isBlank).isEmpty = false := by
    simpa [trimEnd] using filled
  rw [trimEnd, List.reverse_append, List.dropWhile_append, reversed, if_neg (by decide),
    List.reverse_append, List.reverse_reverse, trimEnd]

/-- Where a comment begins there are two slashes. -/
theorem exists_comment_of_cut
    {state : LiteralState} {text : Text} (cut : beforeComment state text ≠ text) :
    ∃ behind, text = beforeComment state text ++ '/' :: '/' :: behind := by
  induction text generalizing state with
  | nil => exact absurd rfl cut
  | cons c text ih =>
      rw [beforeComment] at cut ⊢
      split_ifs at cut ⊢ with starts
      · obtain ⟨_, rfl, next⟩ := starts
        obtain ⟨behind, rfl⟩ := List.head?_eq_some_iff.mp next
        exact ⟨behind, rfl⟩
      · have further : beforeComment (state.next c) text ≠ text := fun same =>
          cut (congrArg (c :: ·) same)
        obtain ⟨behind, whole⟩ := ih further
        exact ⟨behind, congrArg (c :: ·) whole⟩

theorem isTrimmed_trimEnd
    {text : Text} (start : trimStart text = text) : IsTrimmed (trimEnd text) := by
  rw [IsTrimmed, trim_trimEnd, trim, start]

end Text

theorem beforeComment_inQuotes (text : Text) :
    Text.beforeComment .outside (inQuotes text) =
      '"' :: Text.beforeComment .inside (text ++ ['"']) := by
  rw [inQuotes, List.cons_append, Text.beforeComment, if_neg (by simp)]
  rfl

/-- The code of a quoted text still begins with a quote. -/
theorem exists_code_inQuotes (text : Text) :
    ∃ rest, Text.code (inQuotes text) = '"' :: rest := by
  rw [Text.code, beforeComment_inQuotes, Text.trimEnd_cons_of_not_blank (by decide)]
  exact ⟨_, rfl⟩

theorem isTrimmed_code_inQuotes (text : Text) :
    Text.IsTrimmed (Text.code (inQuotes text)) := by
  apply Text.isTrimmed_trimEnd
  rw [beforeComment_inQuotes]
  exact Text.trimStart_cons_of_not_blank (by decide)

theorem code_inQuotes_of_silent
    {text : Text} (silent : IsSilentInQuotes text) :
    Text.code (inQuotes text) = inQuotes text := by
  rw [Text.code, silent, (Arguments.isTrimmed_inQuotes text).trimEnd_eq]

/-- A comment takes at least the closing quote along. -/
theorem length_requoted_lt
    {text : Text} (cut : ¬ IsSilentInQuotes text) :
    (requoted text).length < text.length := by
  obtain ⟨behind, whole⟩ := Text.exists_comment_of_cut cut
  have closed : (inQuotes text).getLast? = some '"' := List.getLast?_concat
  have filled : behind ≠ [] := by
    rintro rfl
    rw [whole] at closed
    simp at closed
  have code := Text.length_trimEnd_le (Text.beforeComment .outside (inQuotes text))
  have read := Text.length_unquote_le (Text.code (inQuotes text))
  have lengths := congrArg List.length whole
  have quotes : (inQuotes text).length = text.length + 2 := by simp [inQuotes]
  have positive := List.length_pos_iff.mpr filled
  rw [List.length_append, List.length_cons, List.length_cons, quotes] at lengths
  rw [requoted, Text.code] at *
  omega

/-- A text is read again as it is exactly if it stays between its quotes. -/
theorem requoted_eq_self_iff (text : Text) :
    requoted text = text ↔ StaysInQuotes text := by
  by_cases silent : IsSilentInQuotes text
  · rw [requoted, code_inQuotes_of_silent silent, Arguments.unquote_inQuotes_eq]
    exact ⟨fun decoded => ⟨silent, decoded⟩, fun stays => stays.decoded⟩
  · have shorter := length_requoted_lt silent
    refine ⟨fun same => ?_, fun stays => absurd stays.silent silent⟩
    rw [same] at shorter
    exact absurd shorter (Nat.lt_irrefl _)

/-! ## Properties up to their comments -/

/-- The property as it stands in front of a comment. -/
def codeProperty (property : Text × Text) : Text × Text :=
  (property.1, Text.code property.2)

theorem code_propertyLine_of_filled
    {property : Text × Text} (key : Text.IsName property.1)
    (filled : Text.code property.2 ≠ []) :
    Text.code (propertyLine property) = propertyLine (codeProperty property) := by
  have lead : Balanced (property.1 ++ [' ', '=', ' ']) :=
    (balanced_of_plain (key.apart (by decide))).append (by decide) (Or.inr (by simp))
  have behind :
      Text.beforeComment .outside (property.1 ++ [' ', '=', ' '] ++ property.2) =
        property.1 ++ [' ', '=', ' '] ++ Text.beforeComment .outside property.2 :=
    lead.beforeComment_append (Or.inl (by simp))
  have whole : propertyLine property = property.1 ++ [' ', '=', ' '] ++ property.2 := by
    simp [propertyLine_eq]
  rw [whole, Text.code, behind, Text.trimEnd_append_of_filled filled]
  simp [propertyLine_eq, codeProperty, Text.code]

theorem codeProperty_of_isProperty
    {property : Text × Text} (isProperty : IsProperty property) :
    codeProperty property = property := by
  rw [codeProperty, Text.code, isProperty.silent, isProperty.trimmed.trimEnd_eq]

/-- A text between quotes is a property up to its comment. -/
theorem isProperty_code_inQuotes
    {key text : Text} (isName : Text.IsName key) (single : Text.IsLine text) :
    IsProperty (key, Text.code (inQuotes text)) where
  key := isName
  filled := by
    obtain ⟨rest, same⟩ := exists_code_inQuotes text
    simp [same]
  trimmed := isTrimmed_code_inQuotes text
  single := (Arguments.isLine_inQuotes single).of_subset
    (Text.prefix_code (inQuotes text)).subset
  silent := Text.silent_code (inQuotes text)

/-- A property of a configuration block as it is written: a value that holds no
comment, or a text between quotes. -/
inductive IsSetting : Text × Text → Prop
  | property {property : Text × Text} (isProperty : IsProperty property) :
      IsSetting property
  | quoted {key text : Text} (isName : Text.IsName key) (single : Text.IsLine text) :
      IsSetting (key, inQuotes text)

namespace IsSetting

variable {property : Text × Text}

theorem isBodyRow (isSetting : IsSetting property) :
    IsBodyRow (propertyLine property) := by
  cases isSetting with
  | property isProperty => exact isProperty.isBodyRow
  | quoted isName single =>
      exact isBodyRow_propertyLine isName (by simp [inQuotes])
        (Arguments.isTrimmed_inQuotes _) (Arguments.isLine_inQuotes single)

theorem isProperty_codeProperty (isSetting : IsSetting property) :
    IsProperty (codeProperty property) := by
  cases isSetting with
  | property isProperty =>
      rw [codeProperty_of_isProperty isProperty]
      exact isProperty
  | quoted isName single => exact isProperty_code_inQuotes isName single

theorem code_propertyLine (isSetting : IsSetting property) :
    Text.code (propertyLine property) = propertyLine (codeProperty property) :=
  have isProperty := isSetting.isProperty_codeProperty
  code_propertyLine_of_filled isProperty.key isProperty.filled

end IsSetting

/-- A block whose rows are its provider and further settings is read up to the
comments that begin in them. -/
theorem Properties.ofBlock_of_settings
    {provider : Text} (single : Text.IsLine provider)
    {properties : List (Text × Text)}
    (each : ∀ property ∈ properties, IsSetting property)
    (distinct : ("provider".toList :: properties.map (·.1)).Nodup) {block : Block}
    (rows : block.body.map (·.text) =
      (ofProvider provider :: properties).map propertyLine) :
    ofBlock block = .ok (requoted provider, properties.map codeProperty) := by
  have all : ∀ property ∈ ofProvider provider :: properties, IsSetting property :=
    List.forall_mem_cons.mpr ⟨.quoted (by decide) single, each⟩
  have codes : block.body.map (·.code) =
      ((ofProvider provider :: properties).map codeProperty).map propertyLine := by
    have cut := congrArg (List.map Text.code) rows
    rw [List.map_map, List.map_map] at cut
    rw [List.map_map]
    exact cut.trans (List.map_congr_left fun property member =>
      (all property member).code_propertyLine)
  have coded : ∀ property ∈ (ofProvider provider :: properties).map codeProperty,
      IsProperty property :=
    List.forall_mem_map.mpr fun property member =>
      (all property member).isProperty_codeProperty
  have keys : (properties.map codeProperty).map (·.1) = properties.map (·.1) := by
    rw [List.map_map]
    rfl
  rw [← keys] at distinct
  exact ofBlock_of_codes coded distinct codes

/-! ## Datasources -/

namespace ConnectionUrl

variable {url : ConnectionUrl}

/-- The connection that is read of one that is written, with its value up to a
comment. -/
def requoted (url : ConnectionUrl) : ConnectionUrl :=
  { url with value := url.value.map SchemaCompose.requoted }

theorem lines_eq_normal (url : ConnectionUrl) :
    url.lines = url.normal.properties.map propertyLine := by
  obtain ⟨value, name⟩ := url
  rcases name with _ | _ | ⟨c, name⟩ <;> rcases value with _ | _ | ⟨d, value⟩ <;> rfl

/-- A connection is written in no way, by a variable or by a value. -/
theorem normal_cases (url : ConnectionUrl) :
    (url.normal = {} ∧ url.normal.properties = []) ∨
      (∃ name ∈ url.variableName, name ≠ [] ∧
        url.normal = { variableName := some name } ∧
        url.normal.properties =
          [("url".toList, "env(" ++ inQuotes name ++ ")")]) ∨
      ∃ value ∈ url.value, url.normal = { value := some value } ∧
        url.normal.properties = [("url".toList, inQuotes value)] := by
  obtain ⟨value, name⟩ := url
  rcases name with _ | _ | ⟨c, name⟩
  · rcases value with _ | _ | ⟨d, value⟩
    · exact Or.inl ⟨rfl, rfl⟩
    · exact Or.inl ⟨rfl, rfl⟩
    · exact Or.inr (Or.inr ⟨d :: value, rfl, rfl, rfl⟩)
  · rcases value with _ | _ | ⟨d, value⟩
    · exact Or.inl ⟨rfl, rfl⟩
    · exact Or.inl ⟨rfl, rfl⟩
    · exact Or.inr (Or.inr ⟨d :: value, rfl, rfl, rfl⟩)
  · exact Or.inr (Or.inl ⟨c :: name, rfl, List.cons_ne_nil c name, rfl, rfl⟩)

theorem ofValue_code_inQuotes (value : Text) :
    ofValue (Text.code (inQuotes value)) =
      { value := some (SchemaCompose.requoted value) } := by
  have none : environmentName? (Text.code (inQuotes value)) = none := by
    obtain ⟨rest, same⟩ := exists_code_inQuotes value
    rw [same]
    rfl
  rw [ofValue, none]
  rfl

end ConnectionUrl

namespace Datasource

variable {datasource : Datasource}

/-- The datasource that is read of one that is written, with its texts up to a
comment. -/
def requoted (datasource : Datasource) : Datasource :=
  { datasource with
    provider := SchemaCompose.requoted datasource.provider
    url := datasource.url.requoted }

theorem render_eq_normal (datasource : Datasource) :
    datasource.render = datasource.normal.blockText.render := by
  rw [← BlockText.renderBlock_eq, render, ConnectionUrl.lines_eq_normal,
    ← List.map_append]
  rfl

theorem isSetting_of_mem (isRead : datasource.IsRead) :
    ∀ property ∈ datasource.normal.furtherProperties, IsSetting property := by
  refine List.forall_mem_append.mpr
    ⟨?_, fun property member => .property (isRead.properties.each property member)⟩
  show ∀ property ∈ datasource.url.normal.properties, IsSetting property
  rcases ConnectionUrl.normal_cases datasource.url with ⟨-, none⟩ |
    ⟨name, named, -, -, one⟩ | ⟨value, given, -, one⟩
  · simp [none]
  · obtain ⟨plain, single⟩ := isRead.variableName name named
    rw [one, List.forall_mem_singleton]
    exact .property (ConnectionUrl.isProperty_environment plain single)
  · rw [one, List.forall_mem_singleton]
    exact .quoted (by decide) (isRead.value value given)

theorem isReadable_blockText_normal (isRead : datasource.IsRead) :
    datasource.normal.blockText.IsReadable := by
  refine ⟨isRead.name, by simp [blockText], ?_⟩
  have all : ∀ property ∈ Properties.ofProvider datasource.provider ::
      datasource.normal.furtherProperties, IsSetting property :=
    List.forall_mem_cons.mpr
      ⟨.quoted (by decide) isRead.provider, isSetting_of_mem isRead⟩
  exact List.forall_mem_map.mpr fun property member => (all property member).isBodyRow

theorem nodup_furtherProperties_normal (isRead : datasource.IsRead) :
    ("provider".toList :: datasource.normal.furtherProperties.map (·.1)).Nodup := by
  have distinct :
      ("provider".toList :: "url".toList ::
        datasource.properties.map (·.1)).Nodup :=
    isRead.properties.distinct
  show ("provider".toList ::
    (datasource.url.normal.properties ++ datasource.properties).map (·.1)).Nodup
  rcases ConnectionUrl.normal_cases datasource.url with ⟨-, none⟩ |
    ⟨_, -, -, -, one⟩ | ⟨_, -, -, one⟩
  · rw [none]
    exact distinct.sublist ((List.sublist_cons_self _ _).cons_cons _)
  · rw [one]
    exact distinct
  · rw [one]
    exact distinct

theorem map_codeProperty_properties (isRead : datasource.IsRead) :
    datasource.properties.map codeProperty = datasource.properties :=
  map_eq_self_iff.mpr fun property member =>
    codeProperty_of_isProperty (isRead.properties.each property member)

/-- The connection that is found among the properties of the block. -/
theorem ofValue_find?_normal (isRead : datasource.IsRead) :
    ((Registry.find? "url".toList
        (datasource.normal.furtherProperties.map codeProperty)).map
          ConnectionUrl.ofValue).getD {} = datasource.url.normal.requoted ∧
      Registry.erase "url".toList
        (datasource.normal.furtherProperties.map codeProperty) =
          datasource.properties := by
  have distinct :
      ("provider".toList :: "url".toList ::
        datasource.properties.map (·.1)).Nodup :=
    isRead.properties.distinct
  have unknown : "url".toList ∉ datasource.properties.map Prod.fst :=
    (List.nodup_cons.mp (List.nodup_cons.mp distinct).2).1
  have found := Registry.find?_of_unknown unknown
  have erased := Registry.erase_of_unknown unknown
  have whole : datasource.normal.furtherProperties.map codeProperty =
      datasource.url.normal.properties.map codeProperty ++ datasource.properties := by
    conv_rhs => rw [← map_codeProperty_properties isRead]
    exact List.map_append
  rw [whole]
  rcases ConnectionUrl.normal_cases datasource.url with ⟨same, none⟩ |
    ⟨name, named, filled, same, one⟩ | ⟨value, given, same, one⟩
  · rw [none, same, List.map_nil, List.nil_append, found, erased]
    exact ⟨rfl, rfl⟩
  · obtain ⟨plain, single⟩ := isRead.variableName name named
    rw [one, same, List.map_singleton,
      codeProperty_of_isProperty (ConnectionUrl.isProperty_environment plain single),
      List.singleton_append, Registry.find?_cons_self, Registry.erase_cons_self, erased,
      Option.map_some, ConnectionUrl.ofValue_environment plain filled]
    exact ⟨rfl, rfl⟩
  · rw [one, same, List.map_singleton, codeProperty, List.singleton_append,
      Registry.find?_cons_self, Registry.erase_cons_self, erased, Option.map_some,
      ConnectionUrl.ofValue_code_inQuotes]
    exact ⟨rfl, rfl⟩

/-- The block of a datasource gives the datasource, its texts up to a comment. -/
theorem ofBlock_blockText_normal
    (isRead : datasource.IsRead) {block : Block}
    (isReadAs : datasource.normal.blockText.IsReadAs block) :
    Datasource.ofBlock block = .ok datasource.normal.requoted := by
  have name : block.name = datasource.name := isReadAs.name
  have read := Properties.ofBlock_of_settings isRead.provider (isSetting_of_mem isRead)
    (nodup_furtherProperties_normal isRead) isReadAs.body
  obtain ⟨url, others⟩ := ofValue_find?_normal isRead
  rw [Datasource.ofBlock, read, Reading.ok_bind]
  show Except.ok (Datasource.mk block.name _ _ _) = _
  rw [url, others, name]
  rfl

end Datasource

/-! ## Generators -/

namespace Generator

variable {generator : Generator}

/-- The generator that is read of one that is written, with its provider up to a
comment. -/
def requoted (generator : Generator) : Generator :=
  { generator with provider := SchemaCompose.requoted generator.provider }

theorem isSetting_of_mem (isRead : generator.IsRead) :
    ∀ property ∈ generator.properties, IsSetting property :=
  fun property member => .property (isRead.properties.each property member)

theorem isReadable_blockText_of_isRead (isRead : generator.IsRead) :
    generator.blockText.IsReadable := by
  refine ⟨isRead.name, by simp [blockText], ?_⟩
  have all : ∀ property ∈ Properties.ofProvider generator.provider ::
      generator.properties, IsSetting property :=
    List.forall_mem_cons.mpr
      ⟨.quoted (by decide) isRead.provider, isSetting_of_mem isRead⟩
  exact List.forall_mem_map.mpr fun property member => (all property member).isBodyRow

/-- The block of a generator gives the generator, its provider up to a comment. -/
theorem ofBlock_blockText_of_isRead
    (isRead : generator.IsRead) {block : Block}
    (isReadAs : generator.blockText.IsReadAs block) :
    Generator.ofBlock block = .ok generator.requoted := by
  have name : block.name = generator.name := isReadAs.name
  have read := Properties.ofBlock_of_settings isRead.provider (isSetting_of_mem isRead)
    isRead.properties.distinct isReadAs.body
  have silent : generator.properties.map codeProperty = generator.properties :=
    map_eq_self_iff.mpr fun property member =>
      codeProperty_of_isProperty (isRead.properties.each property member)
  rw [Generator.ofBlock, read, Reading.ok_bind, silent]
  simp only [name]
  rfl

end Generator

/-! ## Sections -/

namespace BlockText

variable {blocks : List BlockText}

theorem map_trim_sectionRows (readable : ∀ block ∈ blocks, block.IsReadable) :
    (sectionRows blocks).map Text.trim =
      blocks.flatMap fun block => block.innerRows ++ [['}'], []] :=
  (List.cons.inj (map_trim_fileRows readable)).2

theorem isLine_of_mem_sectionRows (readable : ∀ block ∈ blocks, block.IsReadable) :
    ∀ row ∈ sectionRows blocks, Text.IsLine row :=
  fun row member =>
    isLine_of_mem_fileRows readable row (List.mem_cons_of_mem generatedBanner member)

theorem sectionRows_append_singleton (blocks : List BlockText) (last : BlockText) :
    sectionRows (blocks ++ [last]) = (sectionRows blocks ++ last.rows) ++ [[]] := by
  simp [sectionRows]

/-- A section ends with a line of its own. -/
theorem isFed_section (blocks : List BlockText) :
    Text.IsFed (Text.unlines (sectionRows blocks)) := by
  rcases List.eq_nil_or_concat blocks with rfl | ⟨before, last, rfl⟩
  · exact Or.inl rfl
  · have filled : sectionRows before ++ last.rows ≠ [] := by simp [rows]
    rw [List.concat_eq_append, sectionRows_append_singleton,
      Text.unlines_append filled (by simp)]
    exact Or.inr List.getLast?_concat

end BlockText

namespace Block

open Splitting BlockText

/-- The lines of a section give its blocks. -/
theorem foldlM_section
    {blocks : List BlockText} (readable : ∀ block ∈ blocks, block.IsReadable)
    {lines : List Line}
    (rows : lines.map (·.text) =
      (Text.lines (Text.unlines (sectionRows blocks))).map Text.trim)
    (complete : List Block) :
    ∃ reads, List.Forall₂ BlockText.IsReadAs blocks reads ∧
      lines.foldlM step ⟨complete, .between []⟩ =
        .ok ⟨complete ++ reads, .between []⟩ := by
  rcases List.eq_nil_or_concat blocks with rfl | ⟨before, last, rfl⟩
  · have none : lines = [] := by simpa [sectionRows, Text.unlines, Text.join] using rows
    exact ⟨[], .nil, by rw [none, List.append_nil]; rfl⟩
  · rw [List.concat_eq_append] at readable rows ⊢
    obtain ⟨first, final⟩ := List.forall_mem_append.mp readable
    have own := final last List.mem_cons_self
    have single := isLine_of_mem_sectionRows readable
    rw [sectionRows_append_singleton] at single rows
    rw [Text.lines_unlines_concat fun line member =>
        single line (List.mem_append_left _ member),
      List.map_append, map_trim_sectionRows first, map_trim_rows own] at rows
    obtain ⟨upper, lower, rfl, upperRows, lowerRows⟩ := List.map_eq_append_iff.mp rows
    obtain ⟨reads, areRead, folded⟩ := foldlM_blocks first upperRows complete
    obtain ⟨read, isRead, closed⟩ := foldlM_rows own lowerRows (complete ++ reads)
    refine ⟨reads ++ [read], List.rel_append areRead (.cons isRead .nil), ?_⟩
    rw [List.foldlM_append, folded, Reading.ok_bind, closed, List.append_assoc]

/-- Two sections that follow each other give the blocks of both. -/
theorem split_sections
    {upper lower : List BlockText}
    (readable : ∀ block ∈ upper ++ lower, block.IsReadable) :
    ∃ reads, List.Forall₂ BlockText.IsReadAs (upper ++ lower) reads ∧
      split (Line.ofText (Text.unlines (sectionRows upper) ++
        Text.unlines (sectionRows lower))) = .ok reads := by
  obtain ⟨above, below⟩ := List.forall_mem_append.mp readable
  obtain ⟨first, firstRead, folded⟩ :=
    foldlM_section above (Line.map_text_ofText _) []
  obtain ⟨second, secondRead, behind⟩ :=
    foldlM_section below (map_text_numbered _ _) first
  refine ⟨first ++ second, List.rel_append firstRead secondRead, ?_⟩
  rw [split, Line.ofText_append (isFed_section upper), List.foldlM_append]
  show (_ >>= _) >>= finish = _
  rw [folded, Reading.ok_bind, List.nil_append, behind]
  rfl

end Block

/-! ## Documents -/

namespace ConnectionUrl

/-- A connection that was read is given in one way at most. -/
theorem single_of_ofValue (value : Text) :
    (ofValue value).value = none ∨ (ofValue value).variableName = none := by
  rw [ofValue]
  split
  · exact Or.inl rfl
  · exact Or.inr rfl

/-- The value of a connection that was read is read again exactly if it stays
between its quotes. -/
theorem value_requoted_iff
    {url : ConnectionUrl} (single : url.value = none ∨ url.variableName = none) :
    url.normal.requoted.value = whenFilled url.value ↔
      ∀ value ∈ url.value, StaysInQuotes value := by
  obtain ⟨value, name⟩ := url
  rcases single with none | none
  · dsimp only at none
    subst none
    simp [requoted, normal, whenFilled]
  · dsimp only at none
    subst none
    have stays : StaysInQuotes [] := by decide
    rcases value with _ | _ | ⟨c, value⟩
    · simp [requoted, normal, whenFilled, Text.isSet]
    · simpa [requoted, normal, whenFilled, Text.isSet, Option.filter_some] using stays
    · simp [requoted, normal, whenFilled, Text.isSet, Option.filter_some,
        requoted_eq_self_iff]

end ConnectionUrl

/-- A datasource is declared by a block of its kind alone. -/
theorem Declaration.ofBlock_of_datasource
    {names : DeclaredNames} {block : Block} {datasource : Datasource}
    (read : Declaration.ofBlock names block = .ok (.datasource datasource)) :
    Datasource.ofBlock block = .ok datasource := by
  unfold Declaration.ofBlock at read
  split at read
  · obtain ⟨_, -, other⟩ := Reading.map_eq_ok.mp read
    cases other
  · obtain ⟨_, -, other⟩ := Reading.map_eq_ok.mp read
    cases other
  · obtain ⟨_, own, same⟩ := Reading.map_eq_ok.mp read
    cases same
    exact own
  · obtain ⟨_, -, other⟩ := Reading.map_eq_ok.mp read
    cases other

theorem Datasource.single_of_ofBlock
    {block : Block} {datasource : Datasource}
    (read : Datasource.ofBlock block = .ok datasource) :
    datasource.url.value = none ∨ datasource.url.variableName = none := by
  obtain ⟨⟨provider, properties⟩, -, same⟩ := Reading.bind_eq_ok.mp read
  obtain rfl := Reading.pure_eq_ok.mp same
  dsimp only
  cases Registry.find? "url".toList properties with
  | none => exact Or.inl rfl
  | some value => exact ConnectionUrl.single_of_ofValue value

namespace Schema

variable {schema : Schema}

theorem single_of_mem_datasources
    {text : Text} (accepted : parse text = .ok schema) :
    ∀ datasource ∈ schema.datasources,
      datasource.url.value = none ∨ datasource.url.variableName = none := by
  obtain ⟨blocks, declarations, -, read, -, rfl⟩ := exists_of_parse accepted
  intro datasource member
  obtain ⟨declaration, inRow, same⟩ := List.mem_filterMap.mp member
  obtain ⟨block, -, ofBlock⟩ := Reading.exists_of_mem_results read inRow
  cases declaration with
  | datasource declared =>
      obtain rfl := Option.some.inj same
      exact Datasource.single_of_ofBlock (Declaration.ofBlock_of_datasource ofBlock)
  | model declared => cases same
  | enum declared => cases same
  | generator declared => cases same

/-- The configuration of a schema as it is written. -/
def settings (schema : Schema) : Schema :=
  { datasources := schema.datasources.map Datasource.normal
    generators := schema.generators }

/-- The configuration that is read of what is written. -/
def requoted (schema : Schema) : Schema :=
  { datasources := schema.datasources.map (·.normal.requoted)
    generators := schema.generators.map Generator.requoted }

theorem blockTexts_settings (schema : Schema) :
    schema.settings.blockTexts =
      (schema.datasources.map (·.normal.blockText)) ++
        schema.generators.map Generator.blockText := by
  simp [blockTexts, declarations, settings, Declaration.blockText, Function.comp_def]

theorem render_settings (schema : Schema) :
    renderDatasources schema.datasources ++ renderGenerators schema.generators =
      Text.unlines (BlockText.sectionRows
          (schema.datasources.map (·.normal.blockText))) ++
        Text.unlines (BlockText.sectionRows
          (schema.generators.map Generator.blockText)) := by
  have datasources : schema.datasources.map Datasource.render =
      (schema.datasources.map (·.normal.blockText)).map BlockText.render := by
    rw [List.map_map]
    exact List.map_congr_left fun datasource _ => datasource.render_eq_normal
  have generators : schema.generators.map Generator.render =
      (schema.generators.map Generator.blockText).map BlockText.render := by
    rw [List.map_map]
    exact List.map_congr_left fun generator _ =>
      BlockText.renderBlock_eq generator.blockText
  rw [renderDatasources, renderGenerators, datasources, generators,
    BlockText.unlines_map_render, BlockText.unlines_map_render]

/-- What is read of a declaration that is written. -/
def readSetting : Declaration → Declaration
  | .datasource declared => .datasource declared.requoted
  | .generator declared => .generator declared.requoted
  | other => other

/-- The sections of a configuration that was read are accepted, and its texts are
read up to the comments that begin in them. -/
theorem parse_settings_eq (isRead : schema.IsRead) :
    parse (renderDatasources schema.datasources ++
      renderGenerators schema.generators) = .ok schema.requoted := by
  have readable : ∀ block ∈ schema.datasources.map (·.normal.blockText) ++
      schema.generators.map Generator.blockText, block.IsReadable := by
    simp only [List.forall_mem_append, List.forall_mem_map]
    exact ⟨fun datasource member =>
        Datasource.isReadable_blockText_normal (isRead.datasources datasource member),
      fun generator member =>
        Generator.isReadable_blockText_of_isRead (isRead.generators generator member)⟩
  obtain ⟨reads, areRead, split⟩ := Block.split_sections readable
  rw [← blockTexts_settings] at areRead
  have names : DeclaredNames.ofBlocks reads = schema.settings.names :=
    names_ofBlocks areRead
  have declared : reads.mapM (Declaration.ofBlock schema.settings.names) =
      .ok (schema.settings.declarations.map readSetting) := by
    apply mapM_ofBlock_of_each ?_ areRead
    apply forall_mem_declarations
    · rw [settings, List.forall_mem_map]
      intro datasource member block isReadAs
      have kind : block.kind = .datasource := isReadAs.kind
      rw [Declaration.ofBlock, kind]
      show (Datasource.ofBlock block).map Declaration.datasource = _
      rw [Datasource.ofBlock_blockText_normal (isRead.datasources datasource member)
        isReadAs]
      rfl
    · intro generator member block isReadAs
      have kind : block.kind = .generator := isReadAs.kind
      rw [Declaration.ofBlock, kind]
      show (Generator.ofBlock block).map Declaration.generator = _
      rw [Generator.ofBlock_blockText_of_isRead (isRead.generators generator member)
        isReadAs]
      rfl
    · simp [settings]
    · simp [settings]
  have named : Block.distinctFrom [] (reads.filter Block.isNamed) = .ok () := by
    rw [Block.distinctFrom_eq_ok, names_filter_isNamed areRead]
    simp [Schema.names, settings]
  rw [render_settings, parse, split, Reading.ok_bind, ofBlocks, names, declared]
  simp only [Reading.ok_bind, named]
  refine congrArg Except.ok ?_
  simp [ofDeclarations, declarations, settings, requoted, readSetting,
    List.filterMap_map, Function.comp_def]

/--
The sections of the datasources and generators of an accepted document are accepted.
What is read from them has the same names, properties and variables in the same
order, and a provider or a connection value is the same exactly if it stays between
its quotes.
-/
theorem parse_settings
    {text : Text} (accepted : parse text = .ok schema) :
    ∃ again,
      parse (renderDatasources schema.datasources ++
        renderGenerators schema.generators) = .ok again ∧
      again.models = [] ∧ again.enums = [] ∧
      List.Forall₂ (fun source other : Datasource =>
          other.name = source.name ∧ other.properties = source.properties ∧
          (other.provider = source.provider ↔ StaysInQuotes source.provider) ∧
          other.url.variableName = whenFilled source.url.variableName ∧
          (other.url.value = whenFilled source.url.value ↔
            ∀ value ∈ source.url.value, StaysInQuotes value))
        schema.datasources again.datasources ∧
      List.Forall₂ (fun source other : Generator =>
          other.name = source.name ∧ other.properties = source.properties ∧
          (other.provider = source.provider ↔ StaysInQuotes source.provider))
        schema.generators again.generators := by
  have isRead := isRead_of_parse accepted
  refine ⟨schema.requoted, parse_settings_eq isRead, rfl, rfl, ?_, ?_⟩
  · rw [requoted, List.forall₂_map_right_iff, List.forall₂_same]
    intro datasource member
    refine ⟨rfl, rfl, requoted_eq_self_iff _, rfl, ?_⟩
    exact ConnectionUrl.value_requoted_iff
      (single_of_mem_datasources accepted datasource member)
  · rw [requoted, List.forall₂_map_right_iff, List.forall₂_same]
    exact fun generator _ => ⟨rfl, rfl, requoted_eq_self_iff _⟩

/-- Behind a quote that was decoded the rest of a provider is a comment. -/
theorem parse_settings_of_decoded_quote :
    let text : Text :=
      "datasource db \x7b\n  provider = \"sqlite\"\n  url = env(\"URL\")\n\x7d\n" ++
        "generator client \x7b\n  provider = \"a\\\"//b\"\n\x7d\n"
    let schema : Schema := {
      datasources :=
        [{ name := "db", provider := "sqlite", url := { variableName := some "URL" } }]
      generators := [{ name := "client", provider := "a\"//b" }] }
    parse text = .ok schema ∧
      ∃ again,
        parse (renderDatasources schema.datasources ++
          renderGenerators schema.generators) = .ok again ∧
        ∀ other ∈ again.generators, other.provider ≠ "a\"//b" := by
  intro text schema
  have accepted : parse text = .ok schema := by decide +kernel
  obtain ⟨again, read, -, -, -, generators⟩ := parse_settings accepted
  refine ⟨accepted, again, read, ?_⟩
  intro other member
  obtain ⟨generator, inSchema, -, -, provider⟩ :=
    Reading.exists_of_mem_results generators member
  obtain rfl := List.mem_singleton.mp inSchema
  exact fun same => absurd (provider.mp same) (by decide)

end Schema

end SchemaCompose
