import SchemaCompose.Mining.Injection
import SchemaCompose.Proofs.Mining.Search
import SchemaCompose.Proofs.Reading.Accepted

/-!
# What is recovered from a document

Every recogniser gives a text of its own shape: a column name without quotes, a native
type that is a word with or without arguments, one of the actions on update, an index
attribute up to a closing parenthesis.  Whatever the document, nothing else is put on a
model (`Schema.isRead_of_ofDocument`).
-/

namespace SchemaCompose

/-- What is kept for a model has the shapes that are recognised. -/
structure MinedModel.IsMined (mined : MinedModel) : Prop where
  fields : ∀ entry ∈ mined.fields, entry.2.IsMined
  extraIndexes : ∀ index ∈ mined.extraIndexes, IsMinedIndex index

namespace Mining

variable {text : Text}

/-! ## The recognisers -/

/-- What a search finds is recognised at some place of the text. -/
theorem exists_of_firstMatch
    {α : Type} {recognise : Option Char → Text → Option α} {before : Option Char}
    {value : α} (found : firstMatch recognise before text = some value) :
    ∃ before place, place ⊆ text ∧ recognise before place = some value := by
  obtain ⟨lead, place, rfl, ⟨other, recognised⟩, _⟩ := exists_append_of_firstMatch found
  exact ⟨other, place, List.subset_append_right lead place, recognised⟩

theorem plain_of_columnName?
    {before : Option Char} {name : Text}
    (found : columnName? before text = some name) : '"' ∉ name ∧ name ⊆ text := by
  simp only [columnName?, Option.bind_eq_bind, Option.bind_eq_some_iff] at found
  obtain ⟨_, _, call, opened, inside, quoted, _, _, _, _, same⟩ := found
  obtain rfl := Option.some.inj same
  have inText : call ⊆ text := by
    rw [Text.eq_append_of_after? opened]
    exact List.subset_append_right _ _
  have inCall : inside ⊆ Text.trimStart call := by
    rw [Text.eq_append_of_after? quoted]
    exact List.subset_append_right _ _
  have inName : inside.takeWhile (· ≠ '"') ⊆ inside :=
    (List.takeWhile_prefix _).subset
  refine ⟨fun quote => by simpa using List.mem_takeWhile_imp quote, ?_⟩
  have inStart : Text.trimStart call ⊆ call :=
    (List.dropWhile_suffix Text.isBlank).subset
  exact List.Subset.trans inName
    (List.Subset.trans inCall (List.Subset.trans inStart inText))

/-- Arguments are recognised up to the first closing parenthesis, or not at all. -/
theorem parenthesised_cases (text : Text) :
    parenthesised text = [] ∨
      ∃ inner, parenthesised text = '(' :: inner ++ [')'] ∧ ')' ∉ inner ∧
        inner ⊆ text := by
  rw [parenthesised.eq_def]
  split
  · rename_i inner
    split
    · exact Or.inl rfl
    · refine Or.inr ⟨_, rfl, fun mark => by simpa using List.mem_takeWhile_imp mark, ?_⟩
      exact List.Subset.trans (List.takeWhile_prefix _).subset
        (List.subset_cons_self _ _)
  · exact Or.inl rfl

/-- The attribute of a native type is cut where its word ends. -/
theorem nativeAttribute_append
    {word rest : Text} (run : ∀ c ∈ word, Text.isWord c = true)
    (ends : ∀ c ∈ rest.head?, Text.isWord c = false) :
    (word ++ rest).takeWhile Text.isWord = word ∧
      (nativeAttribute (word ++ rest)).name = "@db." ++ word ∧
      (nativeAttribute (word ++ rest)).arguments = rest.tail?.map List.dropLast := by
  obtain ⟨taken, dropped⟩ := Text.takeWhile_append_of_head run ends
  refine ⟨taken, by rw [nativeAttribute, taken], ?_⟩
  rw [nativeAttribute, dropped]
  cases rest <;> rfl

theorem isMinedType_of_nativeType?
    {type : Text} (single : Text.IsLine text) (found : nativeType? text = some type) :
    IsMinedType type := by
  simp only [nativeType?, Option.bind_eq_bind, Option.bind_eq_some_iff] at found
  obtain ⟨behind, opened, _, named, same⟩ := found
  obtain rfl := Option.some.inj same
  have word : ∀ c ∈ behind.takeWhile Text.isWord, Text.isWord c = true :=
    fun c member => List.mem_takeWhile_imp member
  have filled : behind.takeWhile Text.isWord ≠ [] := by
    intro empty
    simp [empty] at named
  rcases parenthesised_cases (behind.dropWhile Text.isWord) with
    none | ⟨inner, whole, closed, inside⟩
  · obtain ⟨taken, name, arguments⟩ := nativeAttribute_append word
      (show ∀ c ∈ ([] : Text).head?, Text.isWord c = false by simp)
    rw [none]
    refine ⟨by rwa [taken], ?_, ?_⟩
    · rw [Attribute.write, name, arguments, List.append_nil]
      rfl
    · rw [arguments]
      simp
  · obtain ⟨taken, name, arguments⟩ := nativeAttribute_append
      word (show ∀ c ∈ ('(' :: inner ++ [')']).head?, Text.isWord c = false by
        rintro c ⟨⟩
        decide)
    rw [whole]
    refine ⟨by rwa [taken], ?_, ?_⟩
    · rw [Attribute.write, name, arguments]
      simp
    · rw [arguments]
      intro own here
      obtain rfl : inner = own := by simpa using here
      refine ⟨single.of_subset (List.Subset.trans inside ?_), closed⟩
      rw [Text.eq_append_of_after? opened]
      exact List.Subset.trans (List.dropWhile_suffix _).subset
        (List.subset_append_right _ _)

theorem mem_relationActions_of_onUpdate?
    {action : Text} (found : onUpdate? text = some action) :
    action ∈ relationActions := by
  simp only [onUpdate?, Option.bind_eq_bind, Option.bind_eq_some_iff] at found
  obtain ⟨_, _, here⟩ := found
  exact List.mem_of_find?_eq_some here

theorem isMinedIndex_of_extraIndex?
    {index : Text} (single : Text.IsLine text) (found : extraIndex? text = some index) :
    IsMinedIndex index := by
  simp only [extraIndex?, Option.bind_eq_bind, Option.bind_eq_some_iff] at found
  obtain ⟨behind, opened, through, found, same⟩ := found
  obtain rfl := Option.some.inj same
  obtain ⟨kept, rest, rfl, _, rfl⟩ := exists_of_throughLastClosing found
  constructor
  · show "@@index" ++ '(' :: List.dropLast (kept ++ [')']) ++ [')'] = _
    rw [List.dropLast_concat]
    simp
  · rw [Text.isLine_append]
    refine ⟨by decide, single.of_subset ?_⟩
    rw [Text.eq_append_of_after? opened]
    apply List.subset_append_of_subset_right
    simp

/-! ## Lines, cuts and documents -/

theorem isMined_extrasOf {line : Text} (single : Text.IsLine line) :
    (extrasOf line).IsMined := by
  constructor
  · intro name found
    obtain ⟨before, place, inside, here⟩ := exists_of_firstMatch found
    obtain ⟨plain, inName⟩ := plain_of_columnName? here
    exact ⟨plain, single.of_subset (List.Subset.trans inName inside)⟩
  · intro type found
    obtain ⟨_, place, inside, here⟩ := exists_of_firstMatch found
    exact isMinedType_of_nativeType? (single.of_subset inside) here
  · intro action found
    obtain ⟨_, place, _, here⟩ := exists_of_firstMatch found
    exact mem_relationActions_of_onUpdate? here

theorem isMined_keepLine
    {mined : MinedModel} {line : Text} (isMined : mined.IsMined)
    (single : Text.IsLine line) : (keepLine mined line).IsMined := by
  rw [keepLine]
  split
  · exact ⟨isMined.fields, isMined.extraIndexes⟩
  · split
    · rename_i index found
      obtain ⟨_, place, inside, here⟩ := exists_of_firstMatch found
      refine ⟨isMined.fields, List.forall_mem_append.mpr ⟨isMined.extraIndexes, ?_⟩⟩
      exact List.forall_mem_singleton.mpr
        (isMinedIndex_of_extraIndex? (single.of_subset inside) here)
    · dsimp only
      split
      · exact isMined
      · refine ⟨?_, isMined.extraIndexes⟩
        intro entry member
        rcases Registry.mem_put member with rfl | before
        · exact isMined_extrasOf single
        · exact isMined.fields entry before

theorem isMined_ofLines {cut : List Text} (single : ∀ line ∈ cut, Text.IsLine line) :
    (ofLines cut).IsMined := by
  have run : ∀ (cut : List Text) (mined : MinedModel), mined.IsMined →
      (∀ line ∈ cut, Text.IsLine line) → (cut.foldl keepLine mined).IsMined := by
    intro cut
    induction cut with
    | nil => exact fun mined isMined _ => isMined
    | cons line cut ih =>
        intro mined isMined single
        rw [List.forall_mem_cons] at single
        exact ih _ (isMined_keepLine isMined single.1) single.2
  exact run cut {} ⟨by simp, by simp⟩ single

theorem isLine_of_mem_linesOf {cut : Text} : ∀ line ∈ linesOf cut, Text.IsLine line := by
  intro line member
  obtain ⟨row, inRows, rfl⟩ := List.mem_map.mp (List.mem_of_mem_filter member)
  exact Text.isLine_trim (Text.isLine_of_mem_lines row inRows)

theorem isMined_ofText (text : Text) : ∀ entry ∈ ofText text, entry.2.IsMined := by
  rw [ofText]
  refine List.foldlRecOn
    (motive := fun mined : Mined => ∀ entry ∈ mined, entry.2.IsMined) (cuts text) _ (by simp) ?_
  intro mined isMined cut _
  split
  · intro entry member
    rcases Registry.mem_put member with rfl | before
    · exact isMined_ofLines isLine_of_mem_linesOf
    · exact isMined entry before
  · exact isMined

end Mining

/-! ## Injection -/

theorem Model.IsRead.inject {model : Model} (isRead : model.IsRead) {mined : Mined}
    (isMined : ∀ entry ∈ mined, entry.2.IsMined) : (model.inject mined).IsRead := by
  have own : ((mined.find? model.name).getD {}).IsMined := by
    cases found : mined.find? model.name with
    | none => exact ⟨by simp, by simp⟩
    | some kept => exact isMined _ (Registry.mem_of_find? found)
  refine { isRead with fields := ?_, extraIndexes := own.extraIndexes }
  intro field member
  obtain ⟨original, inModel, rfl⟩ := List.mem_map.mp member
  refine { isRead.fields original inModel with extras := ?_ }
  show FieldExtras.IsMined ((Registry.find? original.name _).getD {})
  cases found : Registry.find? original.name
      ((mined.find? model.name).getD {}).fields with
  | none => exact ⟨by simp, by simp, by simp⟩
  | some extras => exact own.fields _ (Registry.mem_of_find? found)

/-- An accepted document has every text in its shape, recovered or not. -/
theorem Schema.isRead_of_ofDocument
    {text : Text} {schema : Schema} (accepted : ofDocument text = .ok schema) :
    schema.IsRead := by
  obtain ⟨parsed, read, rfl⟩ := Reading.map_eq_ok.mp accepted
  have isRead := isRead_of_parse read
  refine { isRead with models := ?_ }
  intro model member
  obtain ⟨original, inSchema, rfl⟩ := List.mem_map.mp member
  exact (isRead.models original inSchema).inject (Mining.isMined_ofText text)

end SchemaCompose
