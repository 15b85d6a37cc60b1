import SchemaCompose.Proofs.Schema.Balanced

/-!
# Attributes that are written out

An attribute is written as its name, with its arguments between parentheses if it
has any.  Where the arguments are balanced the scanner finds the closing
parenthesis that was written, so that a row of attributes is scanned back into the
row (`Attribute.scan_flatMap`).
-/

namespace SchemaCompose.Attribute

/-- The text of an attribute. -/
def write (source : Attribute) : Text :=
  match source.arguments with
  | none => source.name
  | some inner => source.name ++ '(' :: inner ++ [')']

/-- The whole text is one attribute name. -/
def IsName (text : Text) : Prop :=
  name? text = some (text, [])

instance : DecidablePred IsName := fun text =>
  inferInstanceAs (Decidable (name? text = some (text, [])))

/-- The attribute without white space around its arguments, which is how it is
scanned. -/
def trimmed (source : Attribute) : Attribute :=
  { source with arguments := source.arguments.map Text.trim }

/-- The attribute can be written: its name is one, and its arguments close where
they should. -/
structure IsWritten (source : Attribute) : Prop where
  name : IsName source.name
  arguments : ∀ inner ∈ source.arguments, Balanced inner

variable {bare name rest : Text} {source : Attribute} {sources : List Attribute}

/-! ## Names -/

theorem isNameChar_of_isWord {c : Char} (word : Text.isWord c = true) :
    isNameChar c = true := by
  simp [isNameChar, word]

theorem bareName?_eq_self {c : Char} {others : Text} :
    bareName? (c :: others) = some (c :: others, []) ↔
      Text.isNameStart c = true ∧ ∀ d ∈ others, isNameChar d = true := by
  rw [bareName?]
  constructor
  · intro same
    split at same
    · rename_i starts
      refine ⟨starts, List.takeWhile_eq_self_iff.mp ?_⟩
      simpa using congrArg (Option.map Prod.fst) same
    · contradiction
  · rintro ⟨starts, run⟩
    rw [if_pos starts, List.takeWhile_eq_self_iff.mpr run,
      List.dropWhile_eq_nil_iff.mpr run]

theorem bareName?_append
    (isBare : bareName? bare = some (bare, []))
    (ends : ∀ c ∈ rest.head?, isNameChar c = false) :
    bareName? (bare ++ rest) = some (bare, rest) := by
  cases bare with
  | nil => contradiction
  | cons c others =>
      obtain ⟨starts, run⟩ := bareName?_eq_self.mp isBare
      obtain ⟨taken, dropped⟩ := Text.takeWhile_append_of_head run ends
      rw [List.cons_append, bareName?, if_pos starts, taken, dropped]

theorem isNameChar_of_mem_bare
    (isBare : bareName? bare = some (bare, [])) :
    ∀ c ∈ bare, isNameChar c = true := by
  cases bare with
  | nil => simp
  | cons c others =>
      obtain ⟨starts, run⟩ := bareName?_eq_self.mp isBare
      exact List.forall_mem_cons.mpr
        ⟨isNameChar_of_isWord (Text.isWord_of_isNameStart starts), run⟩

/-- A single sign stands in front of a bare name: the name cannot give a second
one. -/
theorem name?_cons_bare
    (isBare : bareName? bare = some (bare, [])) (rest : Text) :
    name? ('@' :: (bare ++ rest)) =
      (bareName? (bare ++ rest)).map fun (name, behind) =>
        ('@' :: name, behind) := by
  cases bare with
  | nil => contradiction
  | cons c others =>
      have start : c ≠ '@' := by
        rintro rfl
        exact absurd (bareName?_eq_self.mp isBare).1 (by decide)
      rw [List.cons_append, name?]
      rintro behind ⟨⟩
      exact start rfl

theorem isName_of_bare (isBare : bareName? bare = some (bare, [])) :
    IsName ('@' :: bare) := by
  have scanned := name?_cons_bare isBare []
  rw [List.append_nil, isBare] at scanned
  exact scanned

/-- What an attribute name is made of. -/
theorem IsName.cases
    (isName : IsName name) :
    (∃ bare, name = '@' :: '@' :: bare ∧ bareName? bare = some (bare, [])) ∨
      ∃ bare, name = '@' :: bare ∧ bareName? bare = some (bare, []) := by
  rw [IsName, name?.eq_def] at isName
  split at isName
  · rename_i bare
    obtain ⟨⟨scanned, behind⟩, found, same⟩ := Option.map_eq_some_iff.mp isName
    simp only [Prod.mk.injEq, List.cons.injEq, true_and] at same
    exact Or.inl ⟨bare, rfl, by rw [found, same.1, same.2]⟩
  · rename_i bare _
    obtain ⟨⟨scanned, behind⟩, found, same⟩ := Option.map_eq_some_iff.mp isName
    simp only [Prod.mk.injEq, List.cons.injEq, true_and] at same
    exact Or.inr ⟨bare, rfl, by rw [found, same.1, same.2]⟩
  · contradiction

/-- An attribute name is read back where no name goes on behind it. -/
theorem IsName.name?_append
    (isName : IsName name) (ends : ∀ c ∈ rest.head?, isNameChar c = false) :
    name? (name ++ rest) = some (name, rest) := by
  rcases isName.cases with ⟨bare, rfl, isBare⟩ | ⟨bare, rfl, isBare⟩
  · rw [List.cons_append, List.cons_append, name?, bareName?_append isBare ends]
    rfl
  · rw [List.cons_append, name?_cons_bare isBare, bareName?_append isBare ends]
    rfl

theorem isBare_of_bareName?
    {text : Text} (found : bareName? text = some (bare, rest)) :
    bareName? bare = some (bare, []) ∧ text = bare ++ rest ∧
      ∀ c ∈ rest.head?, isNameChar c = false := by
  cases text with
  | nil => contradiction
  | cons c text =>
      rw [bareName?] at found
      split_ifs at found with starts
      cases found
      refine ⟨bareName?_eq_self.mpr ⟨starts, fun d => List.mem_takeWhile_imp⟩, ?_, ?_⟩
      · rw [List.cons_append, List.takeWhile_append_dropWhile]
      · intro d first
        have ends := List.head?_dropWhile_not isNameChar text
        rw [show (text.dropWhile isNameChar).head? = some d from first] at ends
        exact ends

/-- What is read as an attribute name is one, and it stands in front of the rest. -/
theorem isName_of_name?
    {text : Text} (found : name? text = some (name, rest)) :
    IsName name ∧ text = name ++ rest ∧ ∀ c ∈ rest.head?, isNameChar c = false := by
  rw [name?.eq_def] at found
  split at found
  · obtain ⟨⟨bare, behind⟩, scanned, same⟩ := Option.map_eq_some_iff.mp found
    obtain ⟨rfl, rfl⟩ := Prod.mk.inj same
    obtain ⟨isBare, rfl, ends⟩ := isBare_of_bareName? scanned
    refine ⟨?_, rfl, ends⟩
    rw [IsName, name?, isBare]
    rfl
  · obtain ⟨⟨bare, behind⟩, scanned, same⟩ := Option.map_eq_some_iff.mp found
    obtain ⟨rfl, rfl⟩ := Prod.mk.inj same
    obtain ⟨isBare, rfl, ends⟩ := isBare_of_bareName? scanned
    exact ⟨isName_of_bare isBare, rfl, ends⟩
  · contradiction

theorem IsName.isNameChar (isName : IsName name) :
    ∀ c ∈ name, c = '@' ∨ isNameChar c = true := by
  rcases isName.cases with ⟨bare, rfl, isBare⟩ | ⟨bare, rfl, isBare⟩
  · simp only [List.forall_mem_cons, true_or, true_and]
    exact fun c member => Or.inr (isNameChar_of_mem_bare isBare c member)
  · simp only [List.forall_mem_cons, true_or, true_and]
    exact fun c member => Or.inr (isNameChar_of_mem_bare isBare c member)

theorem IsName.apart
    (isName : IsName name) {others : List Char}
    (punctuation : ∀ c ∈ others, c ≠ '@' ∧ Attribute.isNameChar c = false) :
    ∀ c ∈ name, c ∉ others := by
  intro c member other
  obtain ⟨notAt, notName⟩ := punctuation c other
  rcases isName.isNameChar c member with same | inName
  · exact notAt same
  · rw [inName] at notName
    contradiction

theorem IsName.not_mem
    (isName : IsName name) {c : Char} (other : c ≠ '@' ∧ Attribute.isNameChar c = false) :
    c ∉ name :=
  fun member => isName.apart (List.forall_mem_singleton.mpr other) c member (by simp)

theorem IsName.not_isBlank (isName : IsName name) :
    ∀ c ∈ name, Text.isBlank c = false := by
  intro c member
  rcases isName.isNameChar c member with rfl | inName
  · decide
  · rw [Attribute.isNameChar, Bool.or_eq_true] at inName
    rcases inName with word | dot
    · exact Text.not_isBlank_of_isWord word
    · rw [of_decide_eq_true dot]
      decide

theorem IsName.isTrimmed (isName : IsName name) : Text.IsTrimmed name := by
  apply Text.isTrimmed_of_edges
  · intro c first
    exact isName.not_isBlank c (List.mem_of_mem_head? first)
  · intro c last
    exact isName.not_isBlank c (List.mem_of_mem_getLast? last)

theorem IsName.exists_cons (isName : IsName name) :
    ∃ others, name = '@' :: others := by
  rcases isName.cases with ⟨bare, same, _⟩ | ⟨bare, same, _⟩
  · exact ⟨_, same⟩
  · exact ⟨_, same⟩

theorem IsName.ne_nil (isName : IsName name) : name ≠ [] := by
  rintro rfl
  contradiction

theorem IsName.balanced (isName : IsName name) : Balanced name :=
  balanced_of_plain (isName.apart (by decide))

/-! ## Written attributes -/

theorem write_ne_nil (written : source.IsWritten) : source.write ≠ [] := by
  obtain ⟨name, arguments⟩ := source
  cases arguments with
  | none => exact written.name.ne_nil
  | some inner => simp [write]

theorem exists_cons_write (written : source.IsWritten) :
    ∃ rest, source.write = '@' :: rest := by
  obtain ⟨name, arguments⟩ := source
  obtain ⟨others, rfl⟩ := written.name.exists_cons
  cases arguments with
  | none => exact ⟨others, rfl⟩
  | some inner => exact ⟨_, rfl⟩

theorem isTrimmed_write (written : source.IsWritten) :
    Text.IsTrimmed source.write := by
  obtain ⟨name, arguments⟩ := source
  cases arguments with
  | none => exact written.name.isTrimmed
  | some inner =>
      exact written.name.isTrimmed.around written.name.ne_nil
        (show Text.IsTrimmed [')'] by decide)
        (by simp) ('(' :: inner)

theorem balanced_write (written : source.IsWritten) : Balanced source.write := by
  obtain ⟨name, arguments⟩ := source
  cases arguments with
  | none => exact written.name.balanced
  | some inner =>
      have enclosed : Balanced ('(' :: inner ++ [')']) :=
        (written.arguments inner rfl).enclosed (Or.inl rfl) (Or.inl rfl)
      have whole := written.name.balanced.append enclosed (Or.inr (by simp))
      rwa [← List.append_assoc] at whole

theorem isLine_write
    (written : source.IsWritten)
    (single : ∀ inner ∈ source.arguments, Text.IsLine inner) :
    Text.IsLine source.write := by
  obtain ⟨name, arguments⟩ := source
  have nameLine :
      Text.IsLine name := Text.isLine_of_not_blank written.name.not_isBlank
  cases arguments with
  | none => exact nameLine
  | some inner =>
      show Text.IsLine (name ++ '(' :: inner ++ [')'])
      simp only [Text.isLine_append, Text.isLine_cons]
      exact ⟨⟨nameLine, by decide, single inner rfl⟩, by decide, Text.isLine_nil⟩

/-! ## Rows of attributes -/

theorem scan_cons_of_blank {c : Char} (blank : Text.isBlank c = true)
    (rest : Text) :
    scan (c :: rest) = scan rest := by
  rw [scan, if_pos blank]

theorem scan_of_name_with_arguments
    (isName : IsName name) {inner : Text}
    (nested : nesting 0 .outside inner = some (0, .outside)) {closing : Char}
    (closes : closing = ')' ∨ closing = ']') (rest : Text) :
    scan (name ++ '(' :: inner ++ closing :: rest) =
      (scan rest).map (⟨name, some (Text.trim inner)⟩ :: ·) := by
  have named :
      name? (name ++ '(' :: inner ++ closing :: rest) =
        some (name, '(' :: (inner ++ closing :: rest)) := by
    rw [List.append_assoc, List.cons_append]
    exact isName.name?_append (by simp [isNameChar, Text.isWord])
  have closed := untilClosing_of_closing nested closes rest
  obtain ⟨others, rfl⟩ := isName.exists_cons
  rw [List.cons_append, List.cons_append] at named ⊢
  rw [scan, if_neg (by decide)]
  split
  · rename_i none
    rw [named] at none
    contradiction
  · rename_i found inside scanned
    rw [named] at scanned
    obtain ⟨rfl, rfl⟩ : '@' :: others = found ∧ inner ++ closing :: rest = inside := by
      simpa using scanned
    split
    · rename_i open_
      rw [closed] at open_
      contradiction
    · rename_i found behind scannedInner
      rw [closed] at scannedInner
      obtain ⟨rfl, rfl⟩ : inner = found ∧ rest = behind := by
        simpa using scannedInner
      rfl
  · rename_i found behind bracket scanned
    rw [named] at scanned
    obtain ⟨rfl, rfl⟩ :
        '@' :: others = found ∧ '(' :: (inner ++ closing :: rest) = behind := by
      simpa using scanned
    exact absurd rfl (bracket _)

theorem scan_of_name
    (isName : IsName name)
    (ends : ∀ c ∈ rest.head?, isNameChar c = false ∧ c ≠ '(') :
    scan (name ++ rest) = (scan rest).map (⟨name, none⟩ :: ·) := by
  have named : name? (name ++ rest) = some (name, rest) :=
    isName.name?_append fun c first => (ends c first).1
  obtain ⟨others, rfl⟩ := isName.exists_cons
  rw [List.cons_append] at named ⊢
  rw [scan, if_neg (by decide)]
  split
  · rename_i none
    rw [named] at none
    contradiction
  · rename_i found inside scanned
    rw [named] at scanned
    obtain ⟨rfl, rfl⟩ : '@' :: others = found ∧ rest = '(' :: inside := by
      simpa using scanned
    exact absurd rfl (ends '(' rfl).2
  · rename_i found behind _ scanned
    rw [named] at scanned
    obtain ⟨rfl, rfl⟩ : '@' :: others = found ∧ rest = behind := by
      simpa using scanned
    rfl

/-- A written attribute is scanned back, unless its name goes on or arguments stand
behind it. -/
theorem scan_write_append
    (written : source.IsWritten)
    (ends : ∀ c ∈ rest.head?, isNameChar c = false ∧ c ≠ '(') :
    scan (source.write ++ rest) = (scan rest).map (source.trimmed :: ·) := by
  obtain ⟨name, arguments⟩ := source
  cases arguments with
  | none => exact scan_of_name written.name ends
  | some inner =>
      show scan (name ++ '(' :: inner ++ [')'] ++ rest) = _
      rw [List.append_assoc, List.singleton_append,
        scan_of_name_with_arguments written.name
          (written.arguments inner rfl).nested (Or.inl rfl) rest]
      rfl

theorem scan_write (written : source.IsWritten) :
    scan source.write = .ok [source.trimmed] := by
  have behind : scan (source.write ++ []) = (scan []).map (source.trimmed :: ·) :=
    scan_write_append written (by simp)
  rw [List.append_nil, scan] at behind
  exact behind

/-- Attributes that are written behind a space each are scanned back. -/
theorem scan_flatMap (written : ∀ source ∈ sources, source.IsWritten) :
    scan (sources.flatMap fun source => ' ' :: source.write) =
      .ok (sources.map trimmed) := by
  induction sources with
  | nil =>
      rw [List.flatMap_nil, scan]
      rfl
  | cons source others ih =>
      rw [List.forall_mem_cons] at written
      have ends :
          ∀ c ∈ (others.flatMap fun source => ' ' :: source.write).head?,
            isNameChar c = false ∧ c ≠ '(' := by
        intro c first
        rw [Text.head?_flatMap_space write others c first]
        decide
      rw [List.flatMap_cons, List.cons_append, scan_cons_of_blank (by decide),
        scan_write_append written.1 ends, ih written.2]
      rfl

theorem balanced_flatMap (written : ∀ source ∈ sources, source.IsWritten) :
    Balanced (sources.flatMap fun source => ' ' :: source.write) := by
  induction sources with
  | nil => exact balanced_nil
  | cons source others ih =>
      rw [List.forall_mem_cons] at written
      have space : Balanced [' '] := by decide
      have first := space.append (balanced_write written.1) (Or.inl (by simp))
      have noSlash :
          (others.flatMap fun source => ' ' :: source.write).head? ≠ some '/' := by
        intro slash
        have same := Text.head?_flatMap_space write others '/' slash
        contradiction
      rw [List.flatMap_cons]
      exact first.append (ih written.2) (Or.inr noSlash)

theorem isTrimmed_append_flatMap
    {lead : Text} (trimmed : Text.IsTrimmed lead) (filled : lead ≠ [])
    (written : ∀ source ∈ sources, source.IsWritten) :
    Text.IsTrimmed (lead ++ sources.flatMap fun source => ' ' :: source.write) := by
  have each : ∀ text ∈ sources.map write, Text.IsTrimmed text ∧ text ≠ [] := by
    rw [List.forall_mem_map]
    intro source member
    exact ⟨isTrimmed_write (written source member),
      write_ne_nil (written source member)⟩
  have whole := trimmed.append_flatMap_space filled each
  rwa [List.flatMap_map] at whole

theorem isLine_flatMap
    (written : ∀ source ∈ sources, source.IsWritten)
    (single : ∀ source ∈ sources, ∀ inner ∈ source.arguments, Text.IsLine inner) :
    Text.IsLine (sources.flatMap fun source => ' ' :: source.write) := by
  rw [← List.flatMap_map write]
  apply Text.isLine_flatMap_space
  rw [List.forall_mem_map]
  intro source member
  exact isLine_write (written source member) (single source member)

end SchemaCompose.Attribute
