import SchemaCompose.Proofs.Registries
import SchemaCompose.Proofs.Reading.Documents

/-!
# Accepted documents

The properties of a datasource or a generator have different keys, and their values
hold no comment because a line is read up to its own.  With models and enums, every
declaration of an accepted document is as it is read (`Schema.isRead_of_parse`).
-/

namespace SchemaCompose

/-! ## Properties -/

namespace Properties

variable {properties : Properties}

/-- Every property can be told from the others and from a comment. -/
structure AreRead (properties : Properties) : Prop where
  each : ∀ property ∈ properties, IsProperty property
  distinct : (properties.map Prod.fst).Nodup

theorem isProperty_of_line?
    {content key value : Text} (single : Text.IsLine content)
    (silent : Text.beforeComment .outside content = content)
    (found : line? content = some (key, value)) : IsProperty (key, value) := by
  simp only [line?, Option.bind_eq_bind, Option.bind_eq_some_iff] at found
  obtain ⟨⟨name, behind⟩, identifier, found⟩ := found
  obtain ⟨isName, whole, _⟩ := Text.isName_of_identifier? identifier
  split at found
  · rename_i rest start
    split at found
    · contradiction
    · rename_i filled
      cases found
      -- The value stands behind the key, a gap and the equals sign.
      have gap := List.takeWhile_append_dropWhile (p := Text.isBlank) (l := behind)
      rw [← Text.trimStart, start] at gap
      have plain : '"' ∉ name ++ behind.takeWhile Text.isBlank ++ ['='] := by
        simp [isName.not_mem (show Text.isWord '"' = false by decide),
          Text.quote_not_mem_takeWhile_isBlank]
      have parts :
          content = name ++ behind.takeWhile Text.isBlank ++ ['='] ++ rest := by
        conv_lhs => rw [whole, ← gap]
        simp
      rw [parts] at silent single
      have quiet := (Text.beforeComment_of_append silent).2
      rw [LiteralState.run_outside_of_no_quote plain] at quiet
      exact ⟨isName, filled, Text.isTrimmed_trim rest,
        Text.isLine_trim (Text.isLine_append.mp single).2, Text.silent_trim quiet⟩
  · contradiction

theorem AreRead.step
    {kind : BlockKind} {next : Properties} {line : Line}
    (single : Text.IsLine line.text) (areRead : AreRead properties)
    (read : step kind properties line = .ok next) : AreRead next := by
  rcases step_cases read with ⟨_, rfl⟩ | ⟨key, value, found, rfl⟩
  · exact areRead
  · have own := isProperty_of_line? (Line.isLine_code single)
      (Text.silent_code line.text) found
    constructor
    · intro property member
      rcases Registry.mem_put member with rfl | before
      · exact own
      · exact areRead.each property before
    · exact Registry.nodup_put areRead.distinct key value

theorem AreRead.erase (areRead : AreRead properties) (key : Text) :
    AreRead (Registry.erase key properties) ∧
      key ∉ (Registry.erase key properties).map Prod.fst := by
  have part := Registry.erase_sublist key properties
  refine ⟨⟨fun property member => areRead.each property (part.subset member),
    areRead.distinct.sublist (part.map Prod.fst)⟩, ?_⟩
  simp [Registry.erase]

theorem AreRead.find? (areRead : AreRead properties) {key value : Text}
    (found : Registry.find? key properties = some value) : Text.IsLine value :=
  (areRead.each _ (Registry.mem_of_find? found)).single

/-- The provider and the other properties of a block. -/
theorem areRead_of_ofBlock
    {block : Block} {provider : Text} (isRead : block.IsRead)
    (read : ofBlock block = .ok (provider, properties)) :
    Text.IsLine provider ∧ AreRead properties ∧
      "provider".toList ∉ properties.map Prod.fst := by
  obtain ⟨whole, folded, further⟩ := Reading.bind_eq_ok.mp read
  have areRead : AreRead whole := by
    apply Reading.foldlM_keeps_of_mem AreRead ?_ ⟨by simp, by simp⟩ folded
    intro state line next member holds stepped
    exact holds.step (isRead.body line member) stepped
  split at further
  · contradiction
  · rename_i value found
    cases further
    obtain ⟨others, absent⟩ := areRead.erase "provider"
    exact ⟨(areRead.find? found).of_subset (Text.unquote_subset value), others, absent⟩

end Properties

/-! ## Datasources and generators -/

theorem Generator.isRead_of_ofBlock
    {block : Block} {generator : Generator} (isRead : block.IsRead)
    (read : Generator.ofBlock block = .ok generator) : generator.IsRead := by
  obtain ⟨⟨provider, properties⟩, found, same⟩ := Reading.bind_eq_ok.mp read
  obtain rfl := Reading.pure_eq_ok.mp same
  obtain ⟨single, others, absent⟩ := Properties.areRead_of_ofBlock isRead found
  exact ⟨isRead.name, single, others.each, List.nodup_cons.mpr ⟨absent, others.distinct⟩⟩

theorem ConnectionUrl.isLine_of_environmentName?
    {value name : Text} (single : Text.IsLine value)
    (found : environmentName? value = some name) : '"' ∉ name ∧ Text.IsLine name := by
  simp only [environmentName?, Option.bind_eq_bind, Option.bind_eq_some_iff] at found
  obtain ⟨call, opened, inside, quoted, _, _, _, _, same⟩ := found
  obtain rfl := Option.some.inj same
  have inCall : call ⊆ value := by
    rw [Text.eq_append_of_after? opened]
    exact List.subset_append_right _ _
  have inQuotes : inside ⊆ Text.trimStart call := by
    rw [Text.eq_append_of_after? quoted]
    exact List.subset_append_right _ _
  refine ⟨fun quote => by simpa using List.mem_takeWhile_imp quote, ?_⟩
  have inName : inside.takeWhile (· ≠ '"') ⊆ inside :=
    (List.takeWhile_prefix _).subset
  have inStart : Text.trimStart call ⊆ call :=
    (List.dropWhile_suffix Text.isBlank).subset
  exact single.of_subset (List.Subset.trans inName
    (List.Subset.trans inQuotes (List.Subset.trans inStart inCall)))

theorem Datasource.isRead_of_ofBlock
    {block : Block} {datasource : Datasource} (isRead : block.IsRead)
    (read : Datasource.ofBlock block = .ok datasource) : datasource.IsRead := by
  obtain ⟨⟨provider, properties⟩, found, same⟩ := Reading.bind_eq_ok.mp read
  obtain rfl := Reading.pure_eq_ok.mp same
  obtain ⟨single, others, absent⟩ := Properties.areRead_of_ofBlock isRead found
  obtain ⟨further, noUrl⟩ := others.erase "url"
  have url : ∀ value ∈ Registry.find? "url".toList properties,
      (∀ text ∈ (ConnectionUrl.ofValue value).value, Text.IsLine text) ∧
      ∀ name ∈ (ConnectionUrl.ofValue value).variableName,
        '"' ∉ name ∧ Text.IsLine name := by
    intro value given
    have line := others.find? given
    rw [ConnectionUrl.ofValue]
    split
    · rename_i name called
      refine ⟨by simp, ?_⟩
      rintro _ ⟨⟩
      exact ConnectionUrl.isLine_of_environmentName? line called
    · refine ⟨?_, by simp⟩
      rintro _ ⟨⟩
      exact line.of_subset (Text.unquote_subset value)
  have stillAbsent : "provider".toList ∉
      (Registry.erase "url".toList properties).map Prod.fst := by
    intro member
    exact absent (((Registry.erase_sublist _ properties).map Prod.fst).subset member)
  refine ⟨isRead.name, single, ?_, ?_, further.each, ?_⟩
  · cases given : Registry.find? "url".toList properties with
    | none => simp
    | some value => simpa [given] using (url value given).1
  · cases given : Registry.find? "url".toList properties with
    | none => simp
    | some value => simpa [given] using (url value given).2
  · show ("provider".toList :: "url".toList :: _).Nodup
    rw [List.nodup_cons, List.nodup_cons, List.mem_cons, not_or]
    exact ⟨⟨by decide, stillAbsent⟩, noUrl, further.distinct⟩

/-! ## Documents -/

namespace Declaration

/-- The declaration is as it is read. -/
def IsRead : Declaration → Prop
  | .model declared => declared.IsRead
  | .enum declared => declared.IsRead
  | .datasource declared => declared.IsRead
  | .generator declared => declared.IsRead

theorem isRead_of_ofBlock
    {names : DeclaredNames} {block : Block} {declaration : Declaration}
    (isRead : block.IsRead) (read : ofBlock names block = .ok declaration) :
    declaration.IsRead := by
  unfold ofBlock at read
  split at read
  · obtain ⟨declared, own, rfl⟩ := Reading.map_eq_ok.mp read
    exact Model.isRead_of_ofBlock isRead own
  · obtain ⟨declared, own, rfl⟩ := Reading.map_eq_ok.mp read
    exact SchemaEnum.isRead_of_ofBlock isRead own
  · obtain ⟨declared, own, rfl⟩ := Reading.map_eq_ok.mp read
    exact Datasource.isRead_of_ofBlock isRead own
  · obtain ⟨declared, own, rfl⟩ := Reading.map_eq_ok.mp read
    exact Generator.isRead_of_ofBlock isRead own

end Declaration

/-- Every declaration of an accepted document is as it is read. -/
theorem Schema.isRead_of_parse
    {text : Text} {schema : Schema} (accepted : Schema.parse text = .ok schema) :
    schema.IsRead := by
  obtain ⟨blocks, declarations, split, read, _, rfl⟩ := exists_of_parse accepted
  have isRead := Block.isRead_of_split split
  -- Every declaration is read from a block of its kind.
  have declared : ∀ declaration ∈ declarations, declaration.IsRead := by
    intro declaration member
    obtain ⟨block, inBlocks, ofBlock⟩ := Reading.exists_of_mem_results read member
    exact Declaration.isRead_of_ofBlock (isRead block inBlocks) ofBlock
  constructor
  all_goals
    intro own member
    obtain ⟨declaration, inRow, same⟩ := List.mem_filterMap.mp member
    have holds := declared declaration inRow
    cases declaration with
    | model declared => simp_all [Declaration.IsRead]
    | enum declared => simp_all [Declaration.IsRead]
    | datasource declared => simp_all [Declaration.IsRead]
    | generator declared => simp_all [Declaration.IsRead]

end SchemaCompose
