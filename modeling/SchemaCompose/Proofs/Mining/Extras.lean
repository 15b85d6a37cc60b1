import Mathlib.Data.Option.Basic
import SchemaCompose.Mining.Basic
import SchemaCompose.Proofs.RoundTrip.Writable

/-!
# What the pieces of a line hold

Every recogniser looks for its mark.  An inert text shows nothing to any of them, so
that a row of attributes with inert arguments gives exactly what its mapping, its native
type and its relation say (`Mines`).
-/

namespace SchemaCompose

/-- The text ends with a character that starts no comment and leaves no blank in
front of one. -/
def IsClosed (text : Text) : Prop :=
  ∀ c ∈ text.getLast?, c ≠ '/' ∧ Text.isBlank c = false

instance : DecidablePred IsClosed := fun text =>
  inferInstanceAs
    (Decidable (∀ c ∈ text.getLast?, c ≠ '/' ∧ Text.isBlank c = false))

theorem IsClosed.append {left right : Text} (filled : right ≠ [])
    (isClosed : IsClosed right) :
    IsClosed (left ++ right) := by
  obtain ⟨c, others, rfl⟩ := List.exists_cons_of_ne_nil filled
  intro d last
  rw [List.getLast?_append_cons] at last
  exact isClosed d last

theorem IsClosed.of_suffix {piece place : Text} (suffix : place <:+ piece)
    (isClosed : IsClosed piece) :
    IsClosed place := by
  obtain ⟨lead, rfl⟩ := suffix
  intro c last
  apply isClosed
  rw [List.getLast?_append, last]
  rfl

theorem isClosed_of_isWord {text : Text} (run : ∀ c ∈ text, Text.isWord c = true) :
    IsClosed text := by
  intro c last
  have word := run c (List.mem_of_mem_getLast? last)
  refine ⟨?_, Text.not_isBlank_of_isWord word⟩
  rintro rfl
  contradiction

theorem IsWritableNativeType.cases
    {type : Text} (isNativeType : IsWritableNativeType type) :
    (nativeAttribute type).arguments = none ∧ type.takeWhile Text.isWord = type ∨
      ∃ inner, (nativeAttribute type).arguments = some inner ∧
        type = type.takeWhile Text.isWord ++ '(' :: inner ++ [')'] := by
  have written := isNativeType.written
  rw [Attribute.write] at written
  cases arguments : (nativeAttribute type).arguments with
  | none =>
      rw [arguments] at written
      exact Or.inl ⟨rfl, List.append_cancel_left written⟩
  | some inner =>
      rw [arguments] at written
      refine Or.inr ⟨inner, rfl, ?_⟩
      have behind :
          "@db." ++ (type.takeWhile Text.isWord ++ '(' :: inner ++ [')']) =
          "@db." ++ type := by
        rw [← written]
        simp [nativeAttribute]
      exact (List.append_cancel_left behind).symm

namespace Mining

variable {piece place left right rest text : Text}

/-! ## Directives -/

theorem opensDirective_iff :
    opensDirective text = true ↔
      ∃ gap behind, text = '/' :: '/' :: gap ++ '@' :: behind ∧
        ∀ c ∈ gap, Text.isBlank c = true := by
  rw [opensDirective, Option.any_eq_true]
  constructor
  · rintro ⟨behind, slashes, starts⟩
    rw [decide_eq_true_eq, List.head?_eq_some_iff] at starts
    obtain ⟨inner, start⟩ := starts
    refine ⟨behind.takeWhile Text.isBlank, inner, ?_,
      fun c member => List.mem_takeWhile_imp member⟩
    have whole : behind = behind.takeWhile Text.isBlank ++ '@' :: inner := by
      rw [← start]
      exact List.takeWhile_append_dropWhile.symm
    rw [List.cons_append, List.cons_append, ← whole]
    exact Text.eq_append_of_after? slashes
  · rintro ⟨gap, behind, rfl, blank⟩
    have start : Text.trimStart (gap ++ '@' :: behind) = '@' :: behind :=
      (Text.takeWhile_append_of_head blank (by rintro c ⟨⟩; decide)).2
    exact ⟨gap ++ '@' :: behind, rfl, by rw [start]; rfl⟩

theorem opensDirective_of_isDirective {fold : Char → Char} {name : Text}
    (found : isDirective fold name text = true) : opensDirective text = true := by
  rw [isDirective] at found
  rw [opensDirective, Option.any_eq_true]
  split at found
  · contradiction
  · rename_i behind slashes
    split at found
    · contradiction
    · rename_i inner sign
      exact ⟨behind, slashes, by rw [Text.eq_append_of_after? sign]; rfl⟩

theorem not_opensDirective_of_head? (other : text.head? ≠ some '/') :
    opensDirective text = false := by
  rw [Bool.eq_false_iff, Ne, opensDirective_iff]
  rintro ⟨gap, behind, rfl, _⟩
  exact other rfl

/-- A directive does not reach over the end of a closed text, nor over a character that
stands in none. -/
theorem opensDirective_of_append
    (filled : place ≠ [])
    (ends : IsClosed place ∨
      ∀ c ∈ rest.head?, c ≠ '/' ∧ c ≠ '@' ∧ Text.isBlank c = false)
    (opens : opensDirective (place ++ rest) = true) : opensDirective place = true := by
  rw [opensDirective_iff] at opens ⊢
  obtain ⟨gap, behind, whole, blank⟩ := opens
  have lead : ∀ c ∈ '/' :: '/' :: gap, c = '/' ∨ Text.isBlank c = true := by
    rw [List.forall_mem_cons, List.forall_mem_cons]
    exact ⟨Or.inl rfl, Or.inl rfl, fun c member => Or.inr (blank c member)⟩
  have inFront : '/' :: '/' :: gap ++ ['@'] <+: place ++ rest := by
    rw [whole]
    exact ⟨behind, by simp⟩
  rcases List.prefix_or_prefix_of_prefix inFront (List.prefix_append place rest) with
    ⟨more, rfl⟩ | inside
  · exact ⟨gap, more, by simp, blank⟩
  rcases List.prefix_concat_iff.mp inside with rfl | ⟨more, same⟩
  · exact ⟨gap, [], rfl, blank⟩
  · exfalso
    rcases ends with closed | apart
    · have last := List.getLast_mem filled
      obtain ⟨notSlash, visible⟩ := closed _ (List.getLast?_eq_some_getLast filled)
      have inLead : place.getLast filled ∈ '/' :: '/' :: gap := by
        rw [← same]
        exact List.mem_append_left more last
      rcases lead _ inLead with slash | isBlank
      · exact notSlash slash
      · rw [isBlank] at visible
        contradiction
    · rw [← same, List.append_assoc] at whole
      obtain rfl := List.append_cancel_left whole
      cases more with
      | nil => exact (apart '@' rfl).2.1 rfl
      | cons c more =>
          obtain ⟨notSlash, _, visible⟩ := apart c rfl
          have inLead : c ∈ '/' :: '/' :: gap := by
            rw [← same]
            simp
          rcases lead c inLead with slash | isBlank
          · exact notSlash slash
          · rw [isBlank] at visible
            contradiction

/-! ## Inert texts -/

section Inert

variable {marks : List Text} {separator : Char}

theorem Lacks.not_opensDirective (lacks : Lacks marks text) (suffix : place <:+ text) :
    opensDirective place = false :=
  lacks.undirected place ((List.mem_tails place text).mpr suffix)

/-- A text without an at-sign shows nothing but an action on update. -/
theorem isInert_of_unsigned (unsigned : '@' ∉ text)
    (inactive : ¬ "onUpdate:".toList <:+: text) : IsInert text where
  unmarked := by
    have signed : ∀ mark ∈ signMarks, ¬ mark <:+: text := by
      intro mark isMark inside
      have each : ∀ mark ∈ signMarks, '@' ∈ mark := by decide
      exact unsigned (inside.subset (each mark isMark))
    exact List.forall_mem_cons.mpr ⟨inactive, signed⟩
  undirected := by
    intro place member
    rw [Bool.eq_false_iff, Ne, opensDirective_iff]
    rintro ⟨gap, behind, rfl, _⟩
    exact unsigned (((List.mem_tails _ _).mp member).subset (by simp))

theorem isInert_of_plain (unsigned : '@' ∉ text) (plain : ':' ∉ text) :
    IsInert text := by
  apply isInert_of_unsigned unsigned
  intro action
  exact plain (action.subset (by decide))

theorem isInert_of_isQuiet (isQuiet : IsQuiet text) : IsInert text :=
  isInert_of_unsigned isQuiet.unmarked isQuiet.inactive

/-- Around a character that stands in none of the marks there are no further ones, and
neither are there behind a text that no mark starts in. -/
theorem Lacks.append_cons_of
    (first : Lacks marks left) (second : Lacks marks right)
    (sign : separator ≠ '@') (slash : separator ≠ '/')
    (apart : ∀ mark ∈ marks,
      separator ∉ mark ∨ mark.head? = some '@' ∧ '@' ∉ left)
    (ends : IsClosed left ∨ Text.isBlank separator = false) :
    Lacks marks (left ++ separator :: right) where
  unmarked := by
    intro mark isMark inside
    apply second.unmarked mark isMark
    rcases apart mark isMark with absent | ⟨signed, unsigned⟩
    · exact (infix_append_cons absent inside).resolve_left
        (first.unmarked mark isMark)
    · have lead : '@' ∉ left ++ [separator] := by
        simp [unsigned, Ne.symm sign]
      exact infix_of_append_of_head signed lead (by simpa using inside)
  undirected := by
    intro place member
    have suffix := (List.mem_tails _ _).mp member
    rcases List.suffix_or_suffix_of_suffix suffix
      (List.suffix_append left (separator :: right)) with behind | ⟨lead, rfl⟩
    · rcases List.suffix_cons_iff.mp behind with rfl | inRight
      · exact not_opensDirective_of_head? fun same => slash (Option.some.inj same)
      · exact second.not_opensDirective inRight
    · have inLeft : lead <:+ left := List.suffix_append_self_iff.mp suffix
      by_cases empty : lead = []
      · rw [empty]
        exact not_opensDirective_of_head? fun same => slash (Option.some.inj same)
      · by_contra opens
        rw [Bool.not_eq_false] at opens
        have inside := opensDirective_of_append empty
          (ends.imp (·.of_suffix inLeft) fun visible =>
            by rintro c ⟨⟩; exact ⟨slash, sign, visible⟩) opens
        rw [first.not_opensDirective inLeft] at inside
        contradiction

/-- A character that stands between texts and makes no mark of them. -/
def Separates (marks : List Text) (separator : Char) : Prop :=
  separator ∉ '@' :: '/' :: marks.flatten ∧ Text.isBlank separator = false

instance (marks : List Text) : DecidablePred (Separates marks) := fun separator =>
  inferInstanceAs (Decidable
    (separator ∉ '@' :: '/' :: marks.flatten ∧ Text.isBlank separator = false))

theorem Lacks.append_cons (first : Lacks marks left)
    (separates : Separates marks separator) (second : Lacks marks right) :
    Lacks marks (left ++ separator :: right) := by
  obtain ⟨apart, visible⟩ := separates
  rw [List.mem_cons, List.mem_cons, not_or, not_or] at apart
  exact first.append_cons_of second apart.1 apart.2.1
    (fun mark isMark => Or.inl fun member =>
      apart.2.2 (List.mem_flatten_of_mem isMark member))
    (Or.inr visible)

/-- A character that an attribute may hold behind its at-sign, but no directive and no
other mark. -/
def Borders (marks : List Text) (separator : Char) : Prop :=
  separator ∉ ['@', '/'] ∧ ∀ mark ∈ marks, separator ∉ mark ∨ mark.head? = some '@'

instance (marks : List Text) : DecidablePred (Borders marks) := fun separator =>
  inferInstanceAs (Decidable
    (separator ∉ ['@', '/'] ∧ ∀ mark ∈ marks, separator ∉ mark ∨ mark.head? = some '@'))

/-- A text in which nothing starts that could go on behind it. -/
@[mk_iff]
structure IsLead (marks : List Text) (lead : Text) : Prop where
  lacks : Lacks marks lead
  unsigned : '@' ∉ lead
  closed : IsClosed lead

instance (marks : List Text) : DecidablePred (IsLead marks) := fun lead =>
  decidable_of_iff' _ (isLead_iff marks lead)

theorem Lacks.behind (second : Lacks marks right) (lead : IsLead marks left)
    (borders : Borders marks separator) : Lacks marks (left ++ separator :: right) := by
  obtain ⟨apart, each⟩ := borders
  simp only [List.mem_cons, List.not_mem_nil, or_false, not_or] at apart
  exact lead.lacks.append_cons_of second apart.1 apart.2
    (fun mark isMark => (each mark isMark).imp_right fun signed =>
      ⟨signed, lead.unsigned⟩)
    (Or.inl lead.closed)

theorem Lacks.cons {separator : Char} (second : IsInert right)
    (borders : Borders rowMarks separator) : IsInert (separator :: right) :=
  second.behind (show IsLead rowMarks [] by decide) borders

theorem Lacks.concat {separator : Char} (first : IsInert left)
    (separates : Separates rowMarks separator) : IsInert (left ++ [separator]) :=
  first.append_cons separates (by decide)

theorem isLead_of_isWord (word : ∀ c ∈ text, Text.isWord c = true) :
    IsLead rowMarks text := by
  have absent : ∀ c, Text.isWord c = false → c ∉ text := by
    intro c other member
    rw [word c member] at other
    contradiction
  have unsigned := absent '@' (by decide)
  exact ⟨isInert_of_plain unsigned (absent ':' (by decide)), unsigned,
    isClosed_of_isWord word⟩

theorem isInert_of_isItem (isItem : Arguments.IsItem text) : IsInert text :=
  isInert_of_plain (isItem.not_mem (by decide)) (isItem.not_mem (by decide))

theorem isInert_inQuotes (isInert : IsInert text) : IsInert (inQuotes text) :=
  Lacks.cons (isInert.concat (by decide)) (by decide)

theorem isInert_commaRow {arguments : List Text}
    (each : ∀ argument ∈ arguments, IsInert argument) :
    IsInert (commaRow arguments) := by
  induction arguments with
  | nil => decide
  | cons argument others ih =>
      rw [List.forall_mem_cons] at each
      cases others with
      | nil => exact each.1
      | cons next others =>
          rw [Arguments.commaRow_cons_cons]
          exact each.1.append_cons (by decide) ((ih each.2).cons (by decide))

theorem isInert_bracketed {items : List Text}
    (each : ∀ item ∈ items, IsInert item) :
    IsInert (Arguments.bracketed items) :=
  Lacks.cons ((isInert_commaRow each).concat (by decide)) (by decide)

theorem isInert_keyed {key value : Text} (lead : IsLead rowMarks (key ++ [':']))
    (isInert : IsInert value) :
    IsInert (Arguments.keyed key value) := by
  have whole := isInert.behind lead (show Borders rowMarks ' ' by decide)
  rwa [List.append_assoc] at whole

/-- The arguments of an attribute are all that can show anything in it. -/
theorem isInert_call {word inner : Text} (lead : IsLead rowMarks word)
    (isInert : IsInert inner) : IsInert (word ++ '(' :: inner ++ [')']) :=
  (isInert.behind lead (by decide)).concat (by decide)

theorem isInert_typeText {type : Text} (isType : IsTypeText type) :
    IsInert type := by
  rcases isType with isName | ⟨written, _, isQuiet⟩
  · exact (isLead_of_isWord isName.isWord).lacks
  · have whole :=
      isInert_call (show IsLead rowMarks "Unsupported".toList by decide)
        (isInert_inQuotes (isInert_of_isQuiet isQuiet))
    rw [written]
    exact whole

theorem isInert_header {name : Text} (isName : Text.IsName name)
    (kind : BlockKind) :
    IsInert (kind.keyword ++ ' ' :: (name ++ [' ', '\x7b'])) := by
  have keyword : IsLead rowMarks kind.keyword := by
    cases kind with
    | model => decide
    | enum => decide
    | datasource => decide
    | generator => decide
  have behind : IsInert (name ++ [' ', '\x7b']) :=
    Lacks.behind (by decide) (isLead_of_isWord isName.isWord) (by decide)
  exact behind.behind keyword (by decide)

end Inert

/-! ## The recognisers -/

theorem isLed_columnName? : IsLed "@map(" columnName? := by
  intro before text other
  rw [columnName?, Text.after?_of_not_prefix other]
  by_cases mark : before = some '@'
  · rw [mark]
    rfl
  · simp [mark]

theorem isLed_nativeType? : IsLed "@db." fun _ => nativeType? := by
  intro _ text other
  show nativeType? text = none
  rw [nativeType?, Text.after?_of_not_prefix other]
  rfl

theorem isLed_extraIndex? : IsLed "@@index(" fun _ => extraIndex? := by
  intro _ text other
  show extraIndex? text = none
  rw [extraIndex?, Text.after?_of_not_prefix other]
  rfl

theorem isLed_onUpdate? : IsLed "onUpdate:" fun _ => onUpdate? := by
  intro _ text other
  show onUpdate? text = none
  rw [onUpdate?, Text.after?_of_not_prefix other]
  rfl

theorem onUpdate?_append
    {action : Text} (member : action ∈ relationActions) (rest : Text) :
    onUpdate? ("onUpdate: " ++ action ++ ')' :: rest) = some action := by
  revert action
  simp only [relationActions, List.forall_mem_cons]
  exact ⟨rfl, rfl, rfl, rfl, rfl, by simp⟩

/-- A piece that ends with an action on update gives that action. -/
theorem finds_onUpdate
    (inactive : ¬ "onUpdate:".toList <:+: left) {separator : Char}
    (apart : separator ∉ "onUpdate:".toList) {action : Text}
    (member : action ∈ relationActions) :
    Finds (fun _ => onUpdate?)
      (left ++ separator :: ("onUpdate: " ++ action ++ [')']))
      (some action) := by
  intro before rest blank
  have passed : ∀ (before : Option Char) place, place <:+ left → place ≠ [] →
      onUpdate? (place ++
        separator :: ("onUpdate: " ++ action ++ ')' :: rest)) = none := by
    intro before place suffix filled
    apply isLed_onUpdate? none
    intro starts
    exact inactive
      ((prefix_of_append_cons apart starts).isInfix.trans suffix.isInfix)
  have here :
      onUpdate? (separator :: ("onUpdate: " ++ action ++ ')' :: rest)) = none := by
    apply isLed_onUpdate? none
    intro starts
    have inside : "onUpdate:".toList <+: [] := prefix_of_append_cons apart starts
    contradiction
  have split : left ++ separator :: ("onUpdate: " ++ action ++ [')']) ++ rest =
      left ++ separator :: ("onUpdate: " ++ action ++ ')' :: rest) := by
    simp
  rw [split, firstMatch_append passed, firstMatch_cons_of_none here]
  exact firstMatch_of_some (onUpdate?_append member rest)

/-! ## The recogniser of directives -/

/-- The recogniser of a directive. -/
def directive? (name : Text) (_ : Option Char) (text : Text) : Option Unit :=
  guard (isDirective Char.toLower name text)

theorem hasDirective_eq (name line : Text) :
    hasDirective name line = (firstMatch (directive? name) none line).isSome :=
  rfl

theorem directive?_of_not {name : Text} (other : opensDirective text = false)
    (before : Option Char) : directive? name before text = none := by
  have none : isDirective Char.toLower name text = false := by
    by_contra found
    rw [Bool.not_eq_false] at found
    rw [opensDirective_of_isDirective found] at other
    contradiction
  rw [directive?, none]
  rfl

theorem isBlindToBlanks_directive? (name : Text) :
    IsBlindToBlanks (directive? name) := by
  intro before rest blank
  apply directive?_of_not
  apply not_opensDirective_of_head?
  intro slash
  have visible := blank '/' slash
  contradiction

theorem finds_directive_none {marks : List Text}
    (lacks : Lacks marks piece) (isClosed : IsClosed piece) (name : Text) :
    Finds (directive? name) piece none := by
  apply finds_of_silent (isBlindToBlanks_directive? name)
  intro before place rest suffix filled _
  apply directive?_of_not
  by_contra opens
  rw [Bool.not_eq_false] at opens
  have inside :=
    opensDirective_of_append filled (Or.inl (isClosed.of_suffix suffix)) opens
  rw [lacks.not_opensDirective suffix] at inside
  contradiction

theorem finds_directive_behind {marks : List Text}
    {lead tail : Text} (plain : '/' ∉ lead) (lacks : Lacks marks tail)
    (isClosed : IsClosed tail)
    (name : Text) : Finds (directive? name) (lead ++ tail) none := by
  apply (finds_directive_none lacks isClosed name).behind
  intro before place rest suffix filled
  apply directive?_of_not
  apply not_opensDirective_of_head?
  rw [List.head?_append_of_ne_nil _ filled]
  intro slash
  exact plain (suffix.subset (List.mem_of_mem_head? slash))

/-! ## Pieces of a field's line -/

/-- What is recovered from a piece of a line that holds no directive and no
index. -/
structure Mines (piece : Text) (column type update : Option Text) : Prop where
  columnName : Finds columnName? piece column
  nativeType : Finds (fun _ => nativeType?) piece type
  onUpdate : Finds (fun _ => onUpdate?) piece update
  directive : ∀ name, Finds (directive? name) piece none
  extraIndex : Finds (fun _ => extraIndex?) piece none

section Mines

variable {column type update column' type' update' : Option Text} {tail : Text}

theorem mines_nil : Mines [] none none none where
  columnName := finds_nil (isLed_columnName?.isBlindToBlanks (by decide))
  nativeType := finds_nil (isLed_nativeType?.isBlindToBlanks (by decide))
  onUpdate := finds_nil (isLed_onUpdate?.isBlindToBlanks (by decide))
  directive := fun name => finds_nil (isBlindToBlanks_directive? name)
  extraIndex := finds_nil (isLed_extraIndex?.isBlindToBlanks (by decide))

theorem Mines.append
    (first : Mines left column type update)
    (second : Mines right column' type' update')
    (blank : StartsBlank right) :
    Mines (left ++ right) (column.or column') (type.or type')
      (update.or update') where
  columnName := first.columnName.append second.columnName blank
  nativeType := first.nativeType.append second.nativeType blank
  onUpdate := first.onUpdate.append second.onUpdate blank
  directive :=
    fun name => (first.directive name).append (second.directive name) blank
  extraIndex := first.extraIndex.append second.extraIndex blank

theorem mines_of_isInert (isInert : IsInert piece) (isClosed : IsClosed piece) :
    Mines piece none none none where
  columnName := isLed_columnName?.finds_none (by decide) (isInert.unmarked _ (by decide))
  nativeType := isLed_nativeType?.finds_none (by decide) (isInert.unmarked _ (by decide))
  onUpdate := isLed_onUpdate?.finds_none (by decide) (isInert.unmarked _ (by decide))
  directive := finds_directive_none isInert isClosed
  extraIndex := isLed_extraIndex?.finds_none (by decide) (isInert.unmarked _ (by decide))

/-- A piece with one mark in front gives what is recognised there, and its action on
update. -/
theorem mines_of_marked
    (lacks : Lacks signMarks tail) (isClosed : IsClosed tail)
    (columnHere : ∀ rest, StartsBlank rest →
      columnName? (some ' ') ('@' :: tail ++ rest) = column)
    (typeHere : ∀ rest, StartsBlank rest → nativeType? ('@' :: tail ++ rest) = type)
    (noIndex : ∀ rest, StartsBlank rest → extraIndex? ('@' :: tail ++ rest) = none)
    (updates : Finds (fun _ => onUpdate?) (' ' :: '@' :: tail) update) :
    Mines (' ' :: '@' :: tail) column type update where
  columnName :=
    isLed_columnName?.finds (by decide) (lacks.unmarked _ (by decide)) columnHere
  nativeType :=
    isLed_nativeType?.finds (by decide) (lacks.unmarked _ (by decide)) typeHere
  onUpdate := updates
  directive :=
    finds_directive_behind (show '/' ∉ [' ', '@'] by decide) lacks isClosed
  extraIndex :=
    isLed_extraIndex?.finds (by decide) (lacks.unmarked _ (by decide)) noIndex

theorem IsInert.lacksSigns (isInert : IsInert piece) : Lacks signMarks piece where
  unmarked := fun mark isMark => isInert.unmarked mark (List.mem_cons_of_mem _ isMark)
  undirected := isInert.undirected

/-- Signs in front of an inert text start no action on update. -/
theorem finds_onUpdate_behind (lead : Text) (isInert : IsInert tail)
    (apart : ∀ c ∈ lead, c ∉ "onUpdate:".toList) :
    Finds (fun _ => onUpdate?) (lead ++ tail) none := by
  apply isLed_onUpdate?.finds_none (by decide)
  intro inside
  exact isInert.unmarked _ (by decide) (infix_of_apart_append (by decide) apart inside)

theorem mines_of_inert_tail
    (isInert : IsInert tail) (isClosed : IsClosed tail)
    (columnHere : ∀ rest, StartsBlank rest →
      columnName? (some ' ') ('@' :: tail ++ rest) = column)
    (typeHere : ∀ rest, StartsBlank rest →
      nativeType? ('@' :: tail ++ rest) = type)
    (noIndex : ∀ rest, StartsBlank rest → extraIndex? ('@' :: tail ++ rest) = none) :
    Mines (' ' :: '@' :: tail) column type none :=
  mines_of_marked isInert.lacksSigns isClosed columnHere typeHere noIndex
    (finds_onUpdate_behind [' ', '@'] isInert (by decide))

/-- An attribute of a block that is neither an index nor a native type gives
nothing. -/
theorem mines_of_block_attribute
    (isInert : IsInert tail) (isClosed : IsClosed tail)
    (noType : ∀ rest, nativeType? ('@' :: tail ++ rest) = none)
    (noIndex : ∀ rest, extraIndex? ('@' :: tail ++ rest) = none ∧
      extraIndex? ('@' :: '@' :: tail ++ rest) = none) :
    Mines ('@' :: '@' :: tail) none none none where
  columnName :=
    isLed_columnName?.finds_double (by decide) (isInert.unmarked _ (by decide))
      (fun before _ => isLed_columnName? before _ (by simp))
      (fun _ _ => rfl)
  nativeType :=
    isLed_nativeType?.finds_double (by decide) (isInert.unmarked _ (by decide))
      (fun _ _ => rfl) (fun rest _ => noType rest)
  onUpdate := finds_onUpdate_behind ['@', '@'] isInert (by decide)
  directive :=
    finds_directive_behind (show '/' ∉ ['@', '@'] by decide) isInert isClosed
  extraIndex :=
    isLed_extraIndex?.finds_double (by decide) (isInert.unmarked _ (by decide))
      (fun _ rest => (noIndex rest).2) (fun rest _ => (noIndex rest).1)

end Mines

/-! ## Lines -/

section Lines

variable {column type update : Option Text}

/-- What a line holds is what its first piece holds and what stands behind that
piece. -/
theorem Mines.extrasOf_append (mines : Mines piece column type update)
    (blank : StartsBlank rest) :
    extrasOf (piece ++ rest) =
      { extrasOf rest with
        columnName := column.or (extrasOf rest).columnName
        nativeType := type.or (extrasOf rest).nativeType
        onUpdate := update.or (extrasOf rest).onUpdate } := by
  have directives :
      ∀ name, hasDirective name (piece ++ rest) = hasDirective name rest := by
    intro name
    rw [hasDirective_eq, mines.directive name none rest blank]
    rfl
  simp only [extrasOf, directives, mines.columnName none rest blank,
    mines.nativeType none rest blank, mines.onUpdate none rest blank]

/-- A line that holds no index gives what is recovered for its field. -/
theorem keepLine_of_extras
    {line : Text} {extras : FieldExtras} (plain : line.head? ≠ some '/')
    (noIndex : firstMatch (fun _ => extraIndex?) none line = none)
    (holds : extrasOf line = extras) (mined : MinedModel) :
    keepLine mined line =
      if extras.isEmpty then mined
      else
        { mined with
          fields := mined.fields.put (line.takeWhile (!Text.isBlank ·)) extras } := by
  have noComment : isComment line = false := by
    rw [isComment, Text.startsWith, Text.after?_of_head? rfl plain]
    rfl
  rw [keepLine, noComment, noIndex, holds]
  rfl

theorem keepLine_of_mines
    (plain : piece.head? ≠ some '/') (mines : Mines piece none none none)
    (mined : MinedModel) :
    keepLine mined piece = mined := by
  have noIndex :=
    mines.extraIndex.firstMatch_eq
      (isLed_extraIndex?.isBlindToBlanks (by decide))
  have whole := mines.extrasOf_append startsBlank_nil
  rw [List.append_nil] at whole
  have nothing : extrasOf piece = {} := whole.trans (by decide)
  rw [keepLine_of_extras plain noIndex nothing]
  rfl

theorem keepLine_index
    {index : Text} (closed : (indexAttribute index).write = index)
    (mined : MinedModel) :
    keepLine mined index =
      { mined with extraIndexes := mined.extraIndexes ++ [index] } := by
  obtain ⟨inner, written⟩ : ∃ inner, index = "@@index(" ++ (inner ++ [')']) :=
    ⟨(index.drop "@@index(".length).dropLast, closed.symm⟩
  have through : throughLastClosing (inner ++ [')']) = some (inner ++ [')']) := by
    simp [throughLastClosing]
  have here : extraIndex? index = some index := by
    rw [extraIndex?, written, Text.after?_append, Option.bind_eq_bind,
      Option.bind_some, through]
    rfl
  have noComment : isComment index = false := by
    rw [written]
    rfl
  have found : firstMatch (fun _ => extraIndex?) none index = some index :=
    firstMatch_of_some here
  rw [keepLine, noComment, found]
  rfl

/-- A blank row gives nothing, so that it does not matter whether it is left out. -/
theorem foldl_keepLine_filter (rows : List Text) (mined : MinedModel) :
    (rows.filter (!·.isEmpty)).foldl keepLine mined =
      rows.foldl keepLine mined := by
  induction rows generalizing mined with
  | nil => rfl
  | cons row rows ih =>
      cases row with
      | nil =>
          have none : keepLine mined [] = mined :=
            keepLine_of_mines (by simp) mines_nil mined
          rw [List.foldl_cons, none]
          exact ih mined
      | cons c row => exact ih _

end Lines

/-! ## Mappings and native types -/

theorem columnName?_mapping
    {name : Text} (plain : '"' ∉ name) (rest : Text) :
    columnName? (some ' ') ("@map(" ++ inQuotes name ++ ")" ++ rest) =
      some name := by
  obtain ⟨taken, dropped⟩ := takeWhile_append_quote plain (')' :: rest)
  have whole : "@map(" ++ inQuotes name ++ ")" ++ rest =
      "@map(".toList ++ '"' :: (name ++ '"' :: ')' :: rest) := by
    simp [inQuotes]
  have start : Text.trimStart ('"' :: (name ++ '"' :: ')' :: rest)) =
      '"' :: (name ++ '"' :: ')' :: rest) :=
    Text.trimStart_cons_of_not_blank (by decide)
  have opened : Text.after? "\"" ('"' :: (name ++ '"' :: ')' :: rest)) =
      some (name ++ '"' :: ')' :: rest) := rfl
  rw [whole, columnName?, Text.after?_append]
  simp only [Option.bind_eq_bind, Option.bind_some, start, opened, taken, dropped]
  rfl

theorem parenthesised_of_startsBlank (blank : StartsBlank rest) :
    parenthesised rest = [] := by
  rw [parenthesised.eq_def]
  split
  · have visible := blank '(' rfl
    contradiction
  · rfl

theorem parenthesised_append {inner : Text} (plain : ')' ∉ inner) (rest : Text) :
    parenthesised ('(' :: inner ++ ')' :: rest) = '(' :: inner ++ [')'] := by
  have apart : ∀ c ∈ inner, decide (c ≠ ')') = true := by
    intro c member
    rw [decide_eq_true_eq]
    rintro rfl
    exact plain member
  have closing : ∀ c ∈ (')' :: rest).head?, decide (c ≠ ')') = false := by
    rintro c ⟨⟩
    decide
  obtain ⟨taken, dropped⟩ := Text.takeWhile_append_of_head apart closing
  rw [List.cons_append, parenthesised, dropped, taken]

theorem nativeType?_of_isWritable
    {type : Text} (isNativeType : IsWritableNativeType type) (blank : StartsBlank rest) :
    nativeType? ("@db." ++ type ++ rest) = some type := by
  have word : ∀ c ∈ type.takeWhile Text.isWord, Text.isWord c = true := by
    intro c member
    exact List.mem_takeWhile_imp member
  have named : (type.takeWhile Text.isWord).isEmpty = false := by
    simpa using isNativeType.named
  rw [nativeType?, List.append_assoc, Text.after?_append]
  simp only [Option.bind_eq_bind, Option.bind_some]
  rcases isNativeType.cases with ⟨_, whole⟩ | ⟨inner, arguments, whole⟩
  · have ends : ∀ c ∈ rest.head?, Text.isWord c = false := by
      intro c first
      exact Text.not_isWord_of_isBlank (blank c first)
    obtain ⟨taken, dropped⟩ := Text.takeWhile_append_of_head word ends
    rw [whole] at taken dropped named
    rw [taken, dropped, named, parenthesised_of_startsBlank blank, List.append_nil]
    rfl
  · have ends :
        ∀ c ∈ ('(' :: inner ++ ')' :: rest).head?, Text.isWord c = false := by
      rintro c ⟨⟩
      decide
    obtain ⟨taken, dropped⟩ := Text.takeWhile_append_of_head word ends
    have closed :=
      parenthesised_append (isNativeType.arguments inner arguments).2 rest
    have split : type ++ rest =
        type.takeWhile Text.isWord ++ ('(' :: inner ++ ')' :: rest) := by
      conv_lhs => rw [whole]
      simp
    rw [split, taken, dropped, named, closed, ← List.append_assoc]
    exact congrArg some whole.symm

end Mining

end SchemaCompose
