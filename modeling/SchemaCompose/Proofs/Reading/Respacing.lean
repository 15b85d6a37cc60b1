import SchemaCompose.Proofs.Reading.Gaps

/-!
# Attributes with other white space

A stored name, a key and a relation are read from their arguments under keys, in lists and
by position.  At an idle place (`Attribute.IsIdle`) no reader of the attribute sees the white
space: whatever stands there, the attribute says the same (`Attribute.saysSame_respaced`).
-/

namespace SchemaCompose

open Text

namespace Arguments

variable {argument other front back gap fresh : Text} {before after : List Text}

/-- The lists that can be read in the first value can be read in the second one. -/
def SameList (value other : Text) : Prop :=
  ∀ items, listOf value = .ok items → listOf other = .ok items

theorem under_trim (key argument : Text) : under key (trim argument) = under key argument := by
  rw [under, under, entry_trim]

theorem listOf_trim (value : Text) : listOf (trim value) = listOf value := by
  rw [listOf, listOf, trim_trim]

theorem named?_eq_of_under {key : Text} (same : under key other = under key argument) :
    named? key (before ++ other :: after) = named? key (before ++ argument :: after) := by
  rw [named?_around, named?_around, same]

theorem rel_sameList_refl (value : Option Text) : Option.Rel SameList value value := by
  cases value with
  | none => exact .none
  | some value => exact .some fun _ => id

theorem rel_sameList_or {before after value other : Option Text}
    (same : Option.Rel SameList value other) :
    Option.Rel SameList (before.or (value.or after)) (before.or (other.or after)) := by
  cases before with
  | some own => exact rel_sameList_refl (some own)
  | none =>
      cases same with
      | none => exact rel_sameList_refl after
      | some lists => exact .some lists

theorem rel_named?_of_under {key : Text}
    (same : Option.Rel SameList (under key argument) (under key other)) :
    Option.Rel SameList (named? key (before ++ argument :: after))
      (named? key (before ++ other :: after)) := by
  rw [named?_around, named?_around]
  exact rel_sameList_or same

/-- A value that starts with something else than a quote is not unquoted. -/
theorem IsIdleList.unquote_eq (idle : IsIdleList front back) (gap : Text) :
    unquote (trim (front ++ gap ++ back)) = trim (front ++ gap ++ back) := by
  have start : ∃ c others, trimStart front = c :: others ∧ c ≠ '"' := by
    cases idle with
    | @listed lead inside further trail opened _ blankLead _ _ =>
        refine ⟨'[', inside, ?_, by decide⟩
        rw [opened, trimStart_append_of_blank blankLead]
        exact trimStart_cons_of_not_blank (by decide)
    | @bare c others start plain _ => exact ⟨c, others, start, plain.2⟩
  obtain ⟨c, others, start, noQuote⟩ := start
  rw [unquote_of_head, trim_trim]
  rw [trim_trim, List.append_assoc, trim, trimStart_append_of_visible (by simp [start]), start]
  intro quote
  obtain ⟨rest, opened⟩ := List.head?_eq_some_iff.mp quote
  obtain ⟨trail, whole⟩ := prefix_trimEnd (c :: others ++ (gap ++ back))
  rw [opened] at whole
  exact noQuote (List.cons.inj whole).1.symm

theorem IsIdleList.sameList (idle : IsIdleList front back) (blank : IsGap gap)
    (blank' : IsGap fresh) :
    SameList (unquote (trim (front ++ gap ++ back)))
      (unquote (trim (front ++ fresh ++ back))) := by
  intro items read
  rw [idle.unquote_eq, listOf_trim] at read ⊢
  exact listOf_around idle blank blank' read

end Arguments

namespace Attribute

open Arguments

/-- The attribute declares a key. -/
def IsKey (name : Text) : Prop :=
  name = "@@id" ∨ name = "@@unique"

instance : DecidablePred IsKey := fun name =>
  inferInstanceAs (Decidable (name = "@@id" ∨ name = "@@unique"))

/-- The keys under which the attribute's readers look for a text. -/
def textKeys (name : Text) : List Text :=
  if IsKey name then ["name"]
  else if name = "@relation" then ["name", "onDelete"]
  else []

/-- The keys under which the attribute's readers look for a list. -/
def listKeys (name : Text) : List Text :=
  if IsKey name then ["fields"]
  else if name = "@relation" then ["fields", "references"]
  else []

/-- The first argument is read whatever its key is: as a stored name, as the fields of a key
that has none under a key, and, if no colon stands in it, as the name of a relation. -/
def ReadsFirst (name : Text) (arguments : List Text) : Prop :=
  name = "@@map" ∨ IsKey name ∧ Arguments.named? "fields" arguments = none ∨
    name = "@relation" ∧ ∀ first ∈ arguments.head?, ':' ∉ first

/-- No reader of the attribute sees the white space between the two parts of an argument,
which is read by position if it is the `first` one that is. -/
inductive IsIdle (name : Text) (first : Prop) (front back : Text) : Prop
  /-- At an edge of the argument. -/
  | edge (edge : IsGap front ∨ IsGap back)
  /-- Behind the colon of a key that is read. -/
  | behindColon {key : Text} (opened : front = key ++ [':']) (plain : ':' ∉ key)
      (known : first → trimStart key = "name" ∨ trimStart key = "fields")
  /-- In front of the colon of a key that is not read by position. -/
  | beforeColon {value : Text} (closed : back = ':' :: value) (plain : ':' ∉ front)
      (later : ¬ first)
  /-- In a list under a key. -/
  | list {key inside : Text} (opened : front = key ++ ':' :: inside) (plain : ':' ∉ key)
      (listed : trim key ∉ textKeys name) (later : ¬ first)
      (idle : IsIdleList inside back)
  /-- In the list of fields that is read by position. -/
  | fields (isKey : IsKey name) (idle : IsIdleList front back)
      (unkeyed : ∀ gap, IsGap gap → unkeyed (trim (front ++ gap ++ back)) =
        trim (front ++ gap ++ back))
      (unread : ∀ gap, IsGap gap → ∀ key ∈ textKeys name ++ listKeys name,
        under key (front ++ gap ++ back) = none)
  /-- In an argument that is not read. -/
  | unread (later : ¬ first)
      (unread : ∀ gap, IsGap gap → ∀ key ∈ textKeys name ++ listKeys name,
        under key (front ++ gap ++ back) = none)

/-- Every reader of the attribute finds in the second argument what it finds in the first
one. -/
structure FindsSame (name : Text) (first : Prop) (argument other : Text) : Prop where
  colon : ':' ∈ other ↔ ':' ∈ argument
  texts : ∀ key ∈ textKeys name, under key other = under key argument
  lists : ∀ key ∈ listKeys name, Option.Rel SameList (under key argument) (under key other)
  position : first → if IsKey name then SameList (unkeyed argument) (unkeyed other)
    else unquote (unkeyed other) = unquote (unkeyed argument)

variable {name front back gap fresh : Text} {first : Prop}

theorem findsSame_refl (name : Text) (first : Prop) (argument : Text) :
    FindsSame name first argument argument where
  colon := Iff.rfl
  texts _ _ := rfl
  lists key _ := rel_sameList_refl (under key argument)
  position _ := by
    split_ifs
    · exact fun _ => id
    · rfl

theorem colon_mem_trim_around (blank : IsGap gap) :
    ':' ∈ trim (front ++ gap ++ back) ↔ ':' ∈ front ++ back := by
  have apart : ':' ∉ gap := blank.not_mem (by decide)
  have whole : ':' ∈ trim (front ++ gap ++ back) ↔ ':' ∈ front ++ gap ++ back :=
    ⟨fun member => trim_subset _ member, mem_trim (by decide)⟩
  rw [whole]
  simp [apart]

/-- Arguments with the same key and the same value say the same, where they are not read by
position. -/
theorem findsSame_of_entry {argument other : Text}
    (colon : ':' ∈ other ↔ ':' ∈ argument) (same : entry other = entry argument)
    (position : first → unkeyed other = unkeyed argument) :
    FindsSame name first argument other := by
  have under : ∀ key, under key other = under key argument := by
    intro key
    rw [Arguments.under, Arguments.under, same]
  have own := findsSame_refl name first argument
  refine ⟨colon, fun key _ => under key, fun key listed => ?_, fun isFirst => ?_⟩
  · rw [under]
    exact own.lists key listed
  · rw [position isFirst]
    exact own.position isFirst

/-- Arguments that are not read under a key say the same, where they say the same by
position. -/
theorem findsSame_of_unread {argument other : Text}
    (colon : ':' ∈ trim other ↔ ':' ∈ trim argument)
    (unread : ∀ key ∈ textKeys name ++ listKeys name, under key argument = none)
    (unread' : ∀ key ∈ textKeys name ++ listKeys name, under key other = none)
    (position : first → if IsKey name then SameList (unkeyed (trim argument))
        (unkeyed (trim other))
      else unquote (unkeyed (trim other)) = unquote (unkeyed (trim argument))) :
    FindsSame name first (trim argument) (trim other) := by
  rw [List.forall_mem_append] at unread unread'
  refine ⟨colon, fun key inTexts => ?_, fun key inLists => ?_, position⟩
  · rw [under_trim, under_trim, unread.1 key inTexts, unread'.1 key inTexts]
  · rw [under_trim, under_trim, unread.2 key inLists, unread'.2 key inLists]
    exact .none

theorem unkeyed_of_plain {argument : Text} (plain : ':' ∉ argument) :
    unkeyed argument = argument := by
  rw [unkeyed, if_neg]
  intro starts
  rw [Bool.or_eq_true] at starts
  rcases starts with keyed | keyed
  · obtain ⟨rest, found⟩ := Option.isSome_iff_exists.mp keyed
    exact plain (by rw [eq_append_of_after? found]; simp)
  · obtain ⟨rest, found⟩ := Option.isSome_iff_exists.mp keyed
    exact plain (by rw [eq_append_of_after? found]; simp)

theorem unkeyed_of_known {key value : Text} (known : key = "name" ∨ key = "fields") :
    unkeyed (key ++ ':' :: value) = trim value := by
  have plain : ':' ∉ key := by rcases known with rfl | rfl <;> decide
  have starts : (startsWith "name:" (key ++ ':' :: value) ||
      startsWith "fields:" (key ++ ':' :: value)) = true := by
    rcases known with rfl | rfl <;> rfl
  rw [unkeyed, if_pos starts, cutAt_append plain]
  rfl

theorem colon_mem_respaced (blank : IsGap gap) (blank' : IsGap fresh) :
    ':' ∈ trim (front ++ fresh ++ back) ↔ ':' ∈ trim (front ++ gap ++ back) := by
  rw [colon_mem_trim_around blank', colon_mem_trim_around blank]

theorem findsSame_behindColon {key : Text} (plain : ':' ∉ key)
    (known : first → trimStart key = "name" ∨ trimStart key = "fields")
    (blank : IsGap gap) (blank' : IsGap fresh) :
    FindsSame name first (trim (key ++ [':'] ++ gap ++ back))
      (trim (key ++ [':'] ++ fresh ++ back)) := by
  have parted : ∀ space : Text, key ++ [':'] ++ space ++ back =
      key ++ ':' :: (space ++ back) := by
    simp
  apply findsSame_of_entry (colon_mem_respaced blank blank')
  · rw [entry_trim, entry_trim, parted, parted, entry_colon plain, entry_colon plain,
      trim_gap_append blank, trim_gap_append blank']
  · intro isFirst
    have start := known isFirst
    rw [parted, parted, exists_trim_around (by decide), exists_trim_around (by decide),
      unkeyed_of_known start, unkeyed_of_known start, trim_trimEnd, trim_trimEnd,
      trim_gap_append blank, trim_gap_append blank']

theorem findsSame_beforeColon {value : Text} (plain : ':' ∉ front) (later : ¬ first)
    (blank : IsGap gap) (blank' : IsGap fresh) :
    FindsSame name first (trim (front ++ gap ++ ':' :: value))
      (trim (front ++ fresh ++ ':' :: value)) := by
  have keyPlain : ∀ space, IsGap space → ':' ∉ front ++ space := by
    intro space blank
    rw [List.mem_append, not_or]
    exact ⟨plain, blank.not_mem (by decide)⟩
  apply findsSame_of_entry (colon_mem_respaced blank blank')
  · rw [entry_trim, entry_trim, entry_colon (keyPlain gap blank),
      entry_colon (keyPlain fresh blank'), trim_append_gap _ blank,
      trim_append_gap _ blank']
  · exact fun isFirst => absurd isFirst later

theorem findsSame_list {key inside : Text} (plain : ':' ∉ key)
    (listed : trim key ∉ textKeys name) (later : ¬ first) (idle : IsIdleList inside back)
    (blank : IsGap gap) (blank' : IsGap fresh) :
    FindsSame name first (trim (key ++ ':' :: inside ++ gap ++ back))
      (trim (key ++ ':' :: inside ++ fresh ++ back)) := by
  have own : ∀ space : Text, entry (trim (key ++ ':' :: inside ++ space ++ back)) =
      (trim key, some (trim (inside ++ space ++ back))) := by
    intro space
    have parted : key ++ ':' :: inside ++ space ++ back =
        key ++ ':' :: (inside ++ space ++ back) := by
      simp
    rw [entry_trim, parted, entry_colon plain]
  refine ⟨colon_mem_respaced blank blank', fun wanted inTexts => ?_, fun wanted _ => ?_,
    fun isFirst => absurd isFirst later⟩
  · have other : trim key ≠ wanted := fun same => listed (same ▸ inTexts)
    rw [under, under, own, own, if_neg other, if_neg other]
  · rw [under, under, own, own]
    dsimp only
    split_ifs
    · exact .some (idle.sameList blank blank')
    · exact .none

/-- At an idle place white space changes nothing in what is found in the argument. -/
theorem IsIdle.findsSame (idle : IsIdle name first front back) (blank : IsGap gap)
    (blank' : IsGap fresh) :
    FindsSame name first (trim (front ++ gap ++ back)) (trim (front ++ fresh ++ back)) := by
  have colon : ':' ∈ trim (front ++ fresh ++ back) ↔ ':' ∈ trim (front ++ gap ++ back) :=
    colon_mem_respaced blank blank'
  cases idle with
  | edge edge =>
      rw [trim_around_of_edge edge blank, trim_around_of_edge edge blank']
      exact findsSame_refl name first _
  | behindColon opened plain known =>
      rw [opened]
      exact findsSame_behindColon plain known blank blank'
  | beforeColon closed plain later =>
      rw [closed]
      exact findsSame_beforeColon plain later blank blank'
  | list opened plain listed later idle =>
      rw [opened]
      exact findsSame_list plain listed later idle blank blank'
  | fields isKey idle unkeyed unread =>
      refine findsSame_of_unread colon (unread gap blank) (unread fresh blank') fun _ => ?_
      rw [if_pos isKey, unkeyed gap blank, unkeyed fresh blank']
      intro items read
      rw [listOf_trim] at read ⊢
      exact listOf_around idle blank blank' read
  | unread later unread =>
      exact findsSame_of_unread colon (unread gap blank) (unread fresh blank')
        fun isFirst => absurd isFirst later

/-! ## What an attribute says -/

/-- What is read from the first attribute is read from the second one. -/
structure SaysSame (source other : Attribute) : Prop where
  name : other.name = source.name
  stored : source.name = "@@map" → ∀ value,
    source.positional.map unquote = .ok value → other.positional.map unquote = .ok value
  key : IsKey source.name → ∀ key, source.compoundKey = .ok key → other.compoundKey = .ok key
  relation : source.name = "@relation" → ∀ relation,
    source.relation = .ok relation → other.relation = .ok relation

variable {source other : Attribute} {arguments : List Text}

theorem saysSame_of_split (named : other.name = source.name)
    (splits : other.split = source.split) : SaysSame source other where
  name := named
  stored _ value read := by
    rw [positional, splits, named]
    exact read
  key _ key read := by
    rw [compoundKey, positional, Attribute.named?, Attribute.named?, splits, named]
    exact read
  relation _ relation read := by
    rw [Attribute.relation, listNamed, listNamed, Attribute.named?, Attribute.named?, splits]
    exact read

theorem positional_of_split {argument : Text}
    (splits : source.split = .ok (argument :: arguments)) :
    source.positional = .ok (unkeyed argument) := by
  rw [positional, splits, Reading.ok_bind, unkeyed]
  dsimp only
  split_ifs <;> rfl

theorem named?_of_split (splits : source.split = .ok arguments) (key : Text) :
    source.named? key = .ok (Arguments.named? key arguments) := by
  rw [Attribute.named?, splits]
  rfl

/-- The list in a value, or another reading where there is no value. -/
def listOr (otherwise : Except Fault (List Text)) : Option Text → Except Fault (List Text)
  | some value => listOf value
  | none => otherwise

theorem listOr_of_rel {value again : Option Text} {otherwise otherwise' : Except Fault (List Text)}
    {items : List Text} (same : Option.Rel SameList value again)
    (instead : value = none → otherwise = .ok items → otherwise' = .ok items)
    (read : listOr otherwise value = .ok items) : listOr otherwise' again = .ok items := by
  cases same with
  | none => exact instead rfl read
  | some lists => exact lists items read

theorem compoundKey_of_split (splits : source.split = .ok arguments) :
    source.compoundKey =
      (listOr (source.positional >>= listOf) (Arguments.named? "fields" arguments)).map
        fun fields => { fields, name := Arguments.named? "name" arguments } := by
  rw [compoundKey, named?_of_split splits, named?_of_split splits, Reading.ok_bind]
  cases Arguments.named? "fields" arguments with
  | none =>
      dsimp only [listOr]
      cases source.positional >>= listOf <;> rfl
  | some value =>
      dsimp only [listOr]
      cases listOf value <;> rfl

theorem listNamed_of_split (splits : source.split = .ok arguments) (key : Text) :
    source.listNamed key = listOr (.ok []) (Arguments.named? key arguments) := by
  rw [listNamed, named?_of_split splits, Reading.ok_bind]
  cases Arguments.named? key arguments <;> rfl

/-- The name of a relation with the given arguments. -/
def relationName? (arguments : List Text) : Option Text :=
  match arguments with
  | first :: _ =>
    if first.contains ':' then Arguments.named? "name" arguments else some (unquote first)
  | [] => Arguments.named? "name" arguments

theorem relation_eq_ok_of_split (splits : source.split = .ok arguments) {relation : Relation} :
    source.relation = .ok relation ↔
      ∃ fields references, source.listNamed "fields" = .ok fields ∧
        source.listNamed "references" = .ok references ∧
        relation = ⟨relationName? arguments, fields, references,
          Arguments.named? "onDelete" arguments⟩ := by
  rw [Attribute.relation, splits, Reading.ok_bind]
  simp only [Reading.bind_eq_ok, Reading.pure_eq_ok]
  constructor
  · rintro ⟨fields, readFields, references, readReferences, rfl⟩
    exact ⟨fields, references, readFields, readReferences, rfl⟩
  · rintro ⟨fields, references, readFields, readReferences, rfl⟩
    exact ⟨fields, readFields, references, readReferences, rfl⟩

section FindsSame

variable {before after : List Text} {argument again : Text}
  (splits : source.split = .ok (before ++ argument :: after))
  (splits' : other.split = .ok (before ++ again :: after))
  (finds : FindsSame source.name
    (before = [] ∧ ReadsFirst source.name (before ++ argument :: after)) argument again)

include splits splits' finds

/-- The stored name is the same where the first argument says the same by position. -/
theorem positional_of_findsSame (isMap : source.name = "@@map") {value : Text}
    (read : source.positional.map unquote = .ok value) :
    other.positional.map unquote = .ok value := by
  cases before with
  | nil =>
      have same := finds.position ⟨rfl, Or.inl isMap⟩
      rw [if_neg (by rw [isMap]; decide)] at same
      rw [positional_of_split splits] at read
      rw [positional_of_split splits', ← read]
      exact congrArg Except.ok same
  | cons first before =>
      rw [positional_of_split splits] at read
      rw [positional_of_split splits', read]

/-- The fields of a key are read by position where they are not read under their key. -/
theorem compoundKey_of_findsSame (isKey : IsKey source.name) {key : CompoundKey}
    (read : source.compoundKey = .ok key) : other.compoundKey = .ok key := by
  have lists : Option.Rel SameList (Arguments.named? "fields" (before ++ argument :: after))
      (Arguments.named? "fields" (before ++ again :: after)) :=
    rel_named?_of_under
      (finds.lists "fields" (by rw [listKeys, if_pos isKey]; exact List.mem_cons_self))
  have texts : Arguments.named? "name" (before ++ again :: after) =
      Arguments.named? "name" (before ++ argument :: after) :=
    named?_eq_of_under
      (finds.texts "name" (by rw [textKeys, if_pos isKey]; exact List.mem_cons_self))
  rw [compoundKey_of_split splits, Reading.map_eq_ok] at read
  obtain ⟨fields, read, rfl⟩ := read
  rw [compoundKey_of_split splits', texts, Reading.map_eq_ok]
  refine ⟨fields, listOr_of_rel lists (fun absent own => ?_) read, rfl⟩
  cases before with
  | nil =>
      have same := finds.position ⟨rfl, Or.inr (Or.inl ⟨isKey, absent⟩)⟩
      rw [if_pos isKey] at same
      rw [positional_of_split splits] at own
      rw [positional_of_split splits']
      exact same fields own
  | cons first before =>
      rw [positional_of_split splits] at own
      rw [positional_of_split splits']
      exact own

omit splits splits' in
/-- The name of a relation is its first argument, where no colon stands in it. -/
theorem relationName?_of_findsSame (relates : source.name = "@relation")
    (keyed : Arguments.named? "name" (before ++ again :: after) =
      Arguments.named? "name" (before ++ argument :: after)) :
    relationName? (before ++ again :: after) = relationName? (before ++ argument :: after) := by
  cases before with
  | cons first before =>
      rw [List.cons_append, List.cons_append] at keyed ⊢
      rw [relationName?, relationName?, keyed]
  | nil =>
      rw [List.nil_append, List.nil_append] at keyed ⊢
      rw [relationName?, relationName?, keyed]
      by_cases colon : ':' ∈ argument
      · rw [if_pos (by simpa using finds.colon.mpr colon), if_pos (by simpa using colon)]
      · have plain : ':' ∉ again := fun member => colon (finds.colon.mp member)
        have isKey : ¬ IsKey source.name := by rw [relates]; decide
        have isFirst : ReadsFirst source.name (argument :: after) :=
          Or.inr (Or.inr ⟨relates, by rintro first ⟨⟩; exact colon⟩)
        have same := finds.position ⟨rfl, isFirst⟩
        rw [if_neg isKey, unkeyed_of_plain plain, unkeyed_of_plain colon] at same
        rw [if_neg (by simpa using plain), if_neg (by simpa using colon), same]

theorem relation_of_findsSame (relates : source.name = "@relation") {relation : Relation}
    (read : source.relation = .ok relation) : other.relation = .ok relation := by
  have isKey : ¬ IsKey source.name := by rw [relates]; decide
  have keys : textKeys source.name = ["name", "onDelete"] ∧
      listKeys source.name = ["fields", "references"] := by
    rw [textKeys, listKeys, if_neg isKey, if_neg isKey, if_pos relates, if_pos relates]
    exact ⟨rfl, rfl⟩
  have text : ∀ key ∈ textKeys source.name, Arguments.named? key (before ++ again :: after) =
      Arguments.named? key (before ++ argument :: after) := fun key member =>
    named?_eq_of_under (finds.texts key member)
  have list : ∀ key ∈ listKeys source.name, ∀ items,
      source.listNamed key = .ok items → other.listNamed key = .ok items := by
    intro key member items read
    rw [listNamed_of_split splits] at read
    rw [listNamed_of_split splits']
    exact listOr_of_rel (rel_named?_of_under (finds.lists key member)) (fun _ => id) read
  rw [keys.1] at text
  rw [keys.2] at list
  obtain ⟨fields, references, readFields, readReferences, rfl⟩ :=
    (relation_eq_ok_of_split splits).mp read
  rw [relation_eq_ok_of_split splits', text "onDelete" (by decide),
    relationName?_of_findsSame finds relates (text "name" (by decide))]
  exact ⟨fields, references, list "fields" (by decide) fields readFields,
    list "references" (by decide) references readReferences, rfl⟩

/-- An attribute that differs in one argument, in which its readers find the same, says the
same. -/
theorem saysSame_of_findsSame (named : other.name = source.name) : SaysSame source other where
  name := named
  stored isMap _ read := positional_of_findsSame splits splits' finds isMap read
  key isKey _ read := compoundKey_of_findsSame splits splits' finds isKey read
  relation relates _ read := relation_of_findsSame splits splits' finds relates read

end FindsSame

/-- From an attribute whose arguments cannot be told apart nothing is read. -/
theorem saysSame_of_refused {fault : Fault} (named : other.name = source.name)
    (refused : source.split = .error fault) : SaysSame source other where
  name := named
  stored _ value read := by
    rw [positional, refused] at read
    contradiction
  key _ key read := by
    rw [compoundKey, Attribute.named?, refused] at read
    contradiction
  relation _ relation read := by
    rw [Attribute.relation, refused] at read
    contradiction

/-- At an idle place of its arguments the attribute says the same whatever white space stands
there. -/
theorem saysSame_respaced {left right : Text} (outside : IsOutside left)
    (idle : ∀ arguments, Arguments.split (left ++ gap ++ right) = .ok arguments →
      IsIdle name (complete left = [] ∧ ReadsFirst name arguments) (begun left)
        (ended left right))
    (blank : IsGap gap) (blank' : IsGap fresh) :
    SaysSame ⟨name, some (trim (left ++ gap ++ right))⟩
      ⟨name, some (trim (left ++ fresh ++ right))⟩ := by
  have own : ∀ space : Text,
      Attribute.split ⟨name, some (trim (left ++ space ++ right))⟩ =
        Arguments.split (left ++ space ++ right) := fun space => split_trim _
  cases splits : Arguments.split (left ++ gap ++ right) with
  | error fault => exact saysSame_of_refused rfl ((own gap).trans splits)
  | ok arguments =>
      rcases split_around outside blank splits with same | ⟨after, around⟩
      · have splits' := (own fresh).trans (same fresh blank')
        rw [← splits, ← own gap] at splits'
        exact saysSame_of_split rfl splits'
      · obtain rfl := Except.ok.inj (splits.symm.trans (around gap blank))
        exact saysSame_of_findsSame ((own gap).trans (around gap blank))
          ((own fresh).trans (around fresh blank')) ((idle _ splits).findsSame blank blank') rfl

end Attribute

end SchemaCompose
