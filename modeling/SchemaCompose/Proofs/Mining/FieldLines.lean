import SchemaCompose.Proofs.Mining.Updates

/-!
# Lines that show what they say

The line of a field is candid if no mark stands in its type or its comment and each of
its attributes is candid.  Then the recognisers find in the whole line, with its comment
and its literals, what the first attribute of each kind says
(`Mining.firstMatch_of_isCandid`).
-/

namespace SchemaCompose

/-! ## Comments of a line -/

namespace Text

theorem exists_beforeComment_append (state : LiteralState) (text : Text) :
    ∃ behind, text = beforeComment state text ++ behind ∧
      ∀ c ∈ behind.head?, c = '/' := by
  induction text generalizing state with
  | nil => exact ⟨[], rfl, by simp⟩
  | cons c text ih =>
      rw [beforeComment]
      split_ifs with starts
      · refine ⟨c :: text, rfl, ?_⟩
        rintro d ⟨⟩
        exact starts.2.1
      · obtain ⟨behind, whole, slash⟩ := ih (state.next c)
        exact ⟨behind, congrArg (c :: ·) whole, slash⟩

end Text

namespace Line

/-- What stands behind the code of a line: its comment with the white space in front of
it. -/
def comment (line : Line) : Text :=
  line.text.drop line.code.length

theorem code_append_comment (line : Line) : line.code ++ line.comment = line.text :=
  List.prefix_iff_eq_append.mp (Text.prefix_code line.text)

theorem startsApart_comment (line : Line) : Mining.StartsApart line.comment := by
  obtain ⟨behind, whole, slash⟩ := Text.exists_beforeComment_append .outside line.text
  obtain ⟨gap, trimmed, blank⟩ :=
    Text.exists_trimEnd_append (Text.beforeComment .outside line.text)
  have same : line.comment = gap ++ behind := by
    have own := line.code_append_comment
    rw [whole, trimmed, List.append_assoc] at own
    exact List.append_cancel_left own
  rw [same]
  cases gap with
  | nil => exact fun c first => Or.inr (Or.inr (slash c first))
  | cons c gap =>
      rintro d ⟨⟩
      exact Or.inl (blank c List.mem_cons_self)

/-- The line declares a field, and each mark in it stands where an attribute of the row
says what the mark announces. -/
structure IsCandid (line : Line) (parts : FieldLine) (row : List (Text × Attribute)) :
    Prop where
  declares : FieldLine.ofText? line.code = some parts
  spells : Attribute.Spells parts.attributes row
  type : ∀ mark ∈ Mining.fieldMarks, ¬ mark <:+: parts.type
  comment : ∀ mark ∈ Mining.fieldMarks, ¬ mark <:+: line.comment
  noIndex : ¬ "@@index(".toList <:+: line.text
  attributes : ∀ entry ∈ row, Attribute.IsCandid entry.1 entry.2

end Line

namespace Mining

variable {α : Type} {recognise : Option Char → Text → Option α}
  {value : Text × Attribute → Option α} {mark text rest tail cut : Text}
  {before : Option Char} {source : Attribute} {row : List (Text × Attribute)}
  {line : Line} {parts : FieldLine}

/-! ## Rows of attributes -/

theorem getLast?_ne_of_spelled (spelled : Attribute.IsSpelled cut source) :
    cut.getLast? ≠ some '@' := by
  cases spelled with
  | bare isName =>
      have passes : ∀ {bare : Text}, Attribute.bareName? bare = some (bare, []) →
          bare.getLast?.or (some '@') ≠ some '@' := by
        intro bare isBare same
        cases last : bare.getLast? with
        | none =>
            rw [List.getLast?_eq_none_iff.mp last] at isBare
            contradiction
        | some c =>
            rw [last] at same
            obtain rfl : c = '@' := Option.some.inj same
            exact sign_not_mem_bare isBare (List.mem_of_mem_getLast? last)
      rcases isName.cases with ⟨bare, rfl, isBare⟩ | ⟨bare, rfl, isBare⟩
      · rw [List.getLast?_cons_cons, getLast?_cons_eq_or]
        exact passes isBare
      · rw [getLast?_cons_eq_or]
        exact passes isBare
  | @call name raw closing _ _ closes =>
      have regroup : name ++ '(' :: (raw ++ [closing]) = name ++ '(' :: raw ++ [closing] := by
        simp
      rw [regroup, List.getLast?_concat]
      rcases closes with rfl | rfl
      · decide
      · decide

theorem StartsApart.append
    (first : ∀ c ∈ text.head?, Text.isBlank c = true ∨ c = '@')
    (apart : StartsApart rest) : StartsApart (text ++ rest) := by
  cases text with
  | nil => exact apart
  | cons c text =>
      rintro d ⟨⟩
      exact (first c rfl).imp_right Or.inl

/-- In a row of attributes the search finds what the first one says, if in each of them
it finds what that one says. -/
theorem firstMatch_of_spells
    (blind : IsBlindToBlanks recognise) (spells : Attribute.Spells text row)
    (each : ∀ entry ∈ row, ∀ before rest, before ≠ some '@' → StartsApart rest →
      firstMatch recognise before (entry.1 ++ rest) =
        (value entry).or (firstMatch recognise entry.1.getLast? rest))
    (apart : StartsApart tail)
    (silent : ∀ before, firstMatch recognise before tail = none)
    (first : before ≠ some '@') :
    firstMatch recognise before (text ++ tail) = row.findSome? value := by
  -- The induction is on the row. That no at-sign stands in front of a place is kept
  -- along it, since a mapping is not recognised behind one.
  induction spells generalizing before with
  | nil => exact silent before
  | @gap c behind row isBlank further ih =>
      have visible : some c ≠ some '@' := by
        rintro ⟨⟩
        contradiction
      have none : recognise before (c :: (behind ++ tail)) = none := by
        apply blind
        rintro d ⟨⟩
        exact isBlank
      rw [List.cons_append, firstMatch_cons_of_none none]
      exact ih each visible
  | @entry cut behind source row spelled further ih =>
      rw [List.forall_mem_cons] at each
      rw [List.append_assoc, each.1 before _ first (.append further.head_cases apart),
        ih each.2 (getLast?_ne_of_spelled spelled), findSome?_cons_eq_or]

/-! ## The line of a field -/

/-- Before its attributes a line holds the marks of its type only. -/
theorem exists_declaration
    (declares : FieldLine.ofText? text = some parts)
    (unmarked : ∀ mark ∈ fieldMarks, ¬ mark <:+: parts.type) :
    ∃ declaration, text = declaration ++ parts.attributes ∧
      declaration.getLast? ≠ some '@' ∧
      ∀ mark ∈ fieldMarks, ¬ mark <:+: declaration := by
  obtain ⟨isName, isType, gap, marks, whole, filled, blank, known⟩ :=
    FieldLine.exists_of_ofText? declares
  refine ⟨_, whole, ?_, ?_⟩
  · intro last
    rw [List.getLast?_append, List.getLast?_append] at last
    cases own : marks.getLast? with
    | some c =>
        rw [own] at last
        obtain rfl : c = '@' := Option.some.inj last
        exact absurd (known '@' (List.mem_of_mem_getLast? own)) (by decide)
    | none =>
        rw [own, Option.none_or] at last
        rcases isType with isWord | ⟨argument, _, unsupported⟩
        · rw [List.getLast?_eq_some_getLast isWord.ne_nil, Option.some_or] at last
          have inType := List.getLast_mem isWord.ne_nil
          rw [Option.some.inj last] at inType
          exact isWord.not_mem (by decide) inType
        · rw [unsupported, List.getLast?_append] at last
          simp at last
  · intro mark isMark inside
    obtain ⟨markFilled, visible, _⟩ := solid_of_mem_fieldMarks mark isMark
    have eachForeign : ∀ mark ∈ fieldMarks, mark.any (!Text.isWord ·) = true := by
      decide
    obtain ⟨d, foreign, noWord⟩ := List.any_eq_true.mp (eachForeign mark isMark)
    rw [Bool.not_eq_true'] at noWord
    have bracketed : (['[', ']', '?'] : Text) ⊆ [')', ']', '[', '?'] := by simp
    have inFront : mark <:+: parts.name ++ gap ++ parts.type := by
      refine infix_of_append_apart markFilled (fun c inMarks inMark => ?_) inside
      exact (visible c inMark).1 (bracketed (known c inMarks))
    obtain ⟨c, others, rfl⟩ := List.exists_cons_of_ne_nil filled
    rw [List.append_assoc, List.cons_append] at inFront
    rw [List.forall_mem_cons] at blank
    have absent : c ∉ mark := fun inMark => by
      rw [(visible c inMark).2] at blank
      exact Bool.false_ne_true blank.1
    rcases infix_append_cons absent inFront with inName | behind
    · exact isName.not_mem noWord (inName.subset foreign)
    · exact unmarked mark isMark
        (infix_of_apart_append markFilled (not_mem_of_blank isMark blank.2) behind)

theorem isUnbroken_of_mem_fieldMarks : ∀ mark ∈ fieldMarks, IsUnbroken mark := by
  decide

/-- In the line of a field the search finds what the first attribute says. -/
theorem firstMatch_of_isCandid
    (candid : line.IsCandid parts row) (known : mark ∈ fieldMarks)
    (led : IsLed mark recognise)
    (each : ∀ entry ∈ row, ∀ before rest, before ≠ some '@' → StartsApart rest →
      firstMatch recognise before (entry.1 ++ rest) =
        (value entry).or (firstMatch recognise entry.1.getLast? rest)) :
    firstMatch recognise none line.text = row.findSome? value := by
  have blind := led.isBlindToBlanks (isUnbroken_of_mem_fieldMarks mark known)
  have silent := led.firstMatch_eq_none (solid_of_mem_fieldMarks mark known).1
    (candid.comment mark known)
  obtain ⟨declaration, whole, last, unmarked⟩ :=
    exists_declaration candid.declares candid.type
  have apart : StartsApart (parts.attributes ++ line.comment) :=
    .append candid.spells.head_cases line.startsApart_comment
  rw [← line.code_append_comment, whole, List.append_assoc,
    led.firstMatch_append known apart (unmarked mark known), Option.or_none]
  exact firstMatch_of_spells blind candid.spells each line.startsApart_comment silent last

theorem columnName_of_isCandid (candid : line.IsCandid parts row) :
    (extrasOf line.text).columnName = row.findSome? fun entry => entry.2.column? := by
  apply firstMatch_of_isCandid candid (by decide) isLed_columnName?
  intro entry member before rest first apart
  obtain ⟨_, spelled⟩ := candid.spells.isInfix_of_mem entry member
  have own := candid.attributes entry member
  rw [firstMatch_of_spelled isLed_columnName? (by decide) rfl spelled
    (fun inner inside => (own.unmarked inner inside).1) apart (fun _ _ => rfl),
    columnName?_of_spelled first apart spelled own]

/-- A text without a bracket that an attribute starts with is in its name. -/
theorem prefix_name_of_spelled
    {lead : Text} (spelled : Attribute.IsSpelled cut source) (plain : '(' ∉ lead)
    (starts : lead <+: cut) : lead <+: source.name := by
  cases spelled with
  | bare isName => exact starts
  | call isName _ _ => exact prefix_of_append_cons plain starts

theorem nativeType_of_isCandid (candid : line.IsCandid parts row) :
    (extrasOf line.text).nativeType =
      row.findSome? fun entry => Attribute.nativeType? entry.1 := by
  apply firstMatch_of_isCandid candid (by decide) isLed_nativeType?
  intro entry member before rest _ apart
  obtain ⟨_, spelled⟩ := candid.spells.isInfix_of_mem entry member
  have own := candid.attributes entry member
  rw [firstMatch_of_spelled isLed_nativeType? (by decide) rfl spelled
    (fun inner inside => (own.unmarked inner inside).2) apart _,
    nativeType?_of_spelled apart spelled own]
  intro body doubled
  apply isLed_nativeType? Option.none
  intro starts
  have inside := prefix_of_startsApart (by decide) apart (by simp)
    (show "@db.".toList <+: ('@' :: body) ++ rest from starts)
  apply own.single
  apply prefix_name_of_spelled spelled (by decide)
  rw [doubled]
  exact (List.prefix_cons_inj '@').mpr inside

theorem onUpdate_of_isCandid (candid : line.IsCandid parts row) :
    (extrasOf line.text).onUpdate = row.findSome? fun entry => entry.2.action? := by
  apply firstMatch_of_isCandid candid (by decide) isLed_onUpdate?
  intro entry member before rest _ apart
  obtain ⟨_, spelled⟩ := candid.spells.isInfix_of_mem entry member
  rw [firstMatch_onUpdate?_of_spelled apart spelled (candid.attributes entry member),
    firstMatch_eq_of_blind onUpdate? entry.1.getLast?]

end Mining

end SchemaCompose
