import SchemaCompose.Proofs.Schema.Balanced
import SchemaCompose.Schema.Attribute

/-!
# Arguments that are written out

A row of arguments is written with commas between neighbours.  A text passes as one
argument when no comma in it stands outside brackets and strings and all of those
close; such texts are split again where they were joined (`split_commaRow`), and
what stands under a key or in a list is found again.
-/

namespace SchemaCompose.Arguments

/-- Outside strings, a reader takes the text into the current argument as a whole,
whatever brackets are open around it. -/
def Passes (text : Text) : Prop :=
  ∀ (outer : Nat) (current rest : Text),
    splitFrom { current, depth := outer } (text ++ rest) =
      splitFrom { current := text.reverse ++ current, depth := outer } rest

/-- The text can stand between two commas and is given back as it is. -/
structure IsArgument (text : Text) : Prop where
  passes : Passes text
  trimmed : Text.IsTrimmed text
  filled : text ≠ []

/-- Where a reader stands behind a text; none if a comma separates in it, or a
bracket closes that was not opened in it. -/
def Reading.past (reading : Reading) : Text → Option Reading
  | [] => some reading
  | c :: rest =>
    if reading.separates c ∨ (reading.take c).depth < 0 then none
    else (reading.take c).past rest

/-- The text is read as a part of one argument: its brackets and strings close, and
no comma stands outside of them. -/
def IsPassing (text : Text) : Prop :=
  Reading.past {} text = some { current := text.reverse }

instance : DecidablePred IsPassing := fun text =>
  inferInstanceAs (Decidable (Reading.past {} text = some { current := text.reverse }))

variable {text left right inner rest current : Text} {c : Char} {depth : Nat}

/-! ## Texts that pass -/

theorem splitFrom_cons_of_not_separates
    {reading : Reading} (inside : reading.separates c = false) (rest : Text) :
    splitFrom reading (c :: rest) = splitFrom (reading.take c) rest := by
  rw [splitFrom, if_neg (by simp [inside])]

theorem Passes.splitFrom_append (passes : Passes text) (current rest : Text) :
    splitFrom { current } (text ++ rest) =
      splitFrom { current := text.reverse ++ current } rest :=
  passes 0 current rest

theorem Passes.append (first : Passes left) (second : Passes right) :
    Passes (left ++ right) := by
  intro outer current rest
  rw [List.append_assoc, first, second, List.reverse_append, List.append_assoc]

/-- A reader does not look further back than to the start of the string it is in. -/
theorem Reading.take_append {reading : Reading}
    (started : reading.inString = true → reading.current ≠ []) (lead : Text)
    (outer : Nat) (c : Char) :
    Reading.take ⟨reading.current ++ lead, reading.depth + outer, reading.inString⟩ c =
      ⟨(reading.take c).current ++ lead, (reading.take c).depth + outer,
        (reading.take c).inString⟩ := by
  obtain ⟨current, depth, inString⟩ := reading
  cases inString with
  | true =>
      obtain ⟨d, others, rfl⟩ := List.exists_cons_of_ne_nil (started rfl)
      rfl
  | false =>
      simp only [take, Bool.false_eq_true, if_false]
      split_ifs
      · rfl
      · simp only [List.cons_append, Reading.mk.injEq, true_and, and_true]
        omega
      · simp only [List.cons_append, Reading.mk.injEq, true_and, and_true]
        omega
      · rfl

theorem Reading.current_take (reading : Reading) (c : Char) :
    (reading.take c).current = c :: reading.current := by
  rw [take]
  split_ifs <;> rfl

/-- What a reader passes when it starts afresh, it passes behind anything. -/
theorem splitFrom_of_past
    {reading behind : Reading} (opened : 0 ≤ reading.depth)
    (started : reading.inString = true → reading.current ≠ [])
    (past : reading.past text = some behind) (lead : Text) (outer : Nat)
    (rest : Text) :
    splitFrom ⟨reading.current ++ lead, reading.depth + outer, reading.inString⟩
        (text ++ rest) =
      splitFrom ⟨behind.current ++ lead, behind.depth + outer, behind.inString⟩
        rest := by
  induction text generalizing reading with
  | nil =>
      obtain rfl := Option.some.inj past
      rfl
  | cons c text ih =>
      rw [Reading.past] at past
      split_ifs at past with stops
      rw [not_or] at stops
      have inside : Reading.separates
          ⟨reading.current ++ lead, reading.depth + outer, reading.inString⟩ c =
            false := by
        have here : reading.separates c = false := by simpa using stops.1
        simp only [Reading.separates, Bool.and_eq_false_iff, Bool.not_eq_false',
          decide_eq_false_iff_not] at here ⊢
        rcases here with (string | comma) | deep
        · exact Or.inl (Or.inl string)
        · exact Or.inl (Or.inr comma)
        · exact Or.inr (by omega)
      rw [List.cons_append, splitFrom_cons_of_not_separates inside,
        Reading.take_append started]
      apply ih
      · omega
      · intro _
        rw [Reading.current_take]
        simp
      · exact past

theorem IsPassing.passes (passing : IsPassing text) : Passes text := by
  intro outer current rest
  have read := splitFrom_of_past (by simp) (by simp) passing current outer rest
  simpa using read

theorem past_of_plain
    (plain : ∀ c ∈ text, c ∉ [',', '"', '(', ')', '[', ']']) (current : Text) :
    Reading.past { current } text = some { current := text.reverse ++ current } := by
  induction text generalizing current with
  | nil => rfl
  | cons c text ih =>
      rw [List.forall_mem_cons] at plain
      have here := plain.1
      simp only [List.mem_cons, List.not_mem_nil, or_false, not_or] at here
      have taken : Reading.take { current } c = { current := c :: current } := by
        simp [Reading.take, here]
      rw [Reading.past, taken, if_neg (by simp [Reading.separates, here]), ih plain.2]
      simp

theorem isPassing_of_plain
    (plain : ∀ c ∈ text, c ∉ [',', '"', '(', ')', '[', ']']) : IsPassing text := by
  rw [IsPassing, past_of_plain plain, List.append_nil]

theorem passes_of_plain
    (plain : ∀ c ∈ text, c ∉ [',', '"', '(', ')', '[', ']']) : Passes text :=
  (isPassing_of_plain plain).passes

theorem splitFrom_inside
    (plain : '"' ∉ text) (depth : Int) (current rest : Text) :
    splitFrom ⟨current, depth, true⟩ (text ++ rest) =
      splitFrom ⟨text.reverse ++ current, depth, true⟩ rest := by
  induction text generalizing current with
  | nil => rfl
  | cons c text ih =>
      rw [List.mem_cons, not_or] at plain
      rw [List.cons_append,
        splitFrom_cons_of_not_separates (by simp [Reading.separates]),
        List.reverse_cons, List.append_assoc, List.singleton_append,
        ← ih plain.2]
      simp [Reading.take, Ne.symm plain.1]

theorem passes_inQuotes (contained : IsContained text) : Passes (inQuotes text) := by
  intro outer current rest
  have unescaped : (text.reverse ++ '"' :: current).head? ≠ some '\\' := by
    cases reversed : text.reverse with
    | nil => simp
    | cons c others =>
        have ended := contained.ended
        rw [← List.head?_reverse, reversed] at ended
        simpa using ended
  have opened :
      splitFrom { current, depth := outer } ('"' :: (text ++ '"' :: rest)) =
        splitFrom ⟨'"' :: current, outer, true⟩ (text ++ '"' :: rest) := by
    rw [splitFrom_cons_of_not_separates (by simp [Reading.separates])]
    simp [Reading.take]
  have closed :
      splitFrom ⟨text.reverse ++ '"' :: current, outer, true⟩ ('"' :: rest) =
        splitFrom
          { current := '"' :: (text.reverse ++ '"' :: current), depth := outer }
          rest := by
    rw [splitFrom_cons_of_not_separates (by simp [Reading.separates])]
    simp only [Reading.take, if_true, ne_eq, not_true, decide_false, Bool.false_or,
      decide_eq_false unescaped]
  rw [inQuotes, List.cons_append, List.cons_append, List.append_assoc,
    List.singleton_append, opened, splitFrom_inside contained.plain, closed]
  simp

/-! ## Rows of arguments -/

theorem commaRow_cons_cons (argument next : Text) (others : List Text) :
    commaRow (argument :: next :: others) =
      argument ++ ',' :: ' ' :: commaRow (next :: others) := by
  rw [commaRow, Text.join, List.append_assoc]
  rfl

theorem splitFrom_comma (rest : Text) :
    splitFrom { current } (',' :: rest) =
      (splitFrom {} rest).map (Text.trim current.reverse :: ·) := by
  rw [splitFrom, if_pos (by simp [Reading.separates])]

/-- The row without the empty member that may stand at its end. -/
def withoutEmptyLast (items : List Text) : List Text :=
  if items.getLast? = some [] then items.dropLast else items

theorem withoutEmptyLast_cons_cons (item next : Text) (others : List Text) :
    withoutEmptyLast (item :: next :: others) =
      item :: withoutEmptyLast (next :: others) := by
  rw [withoutEmptyLast, withoutEmptyLast, List.getLast?_cons_cons]
  split_ifs
  · rfl
  · rfl

theorem withoutEmptyLast_of_filled {items : List Text}
    (filled : items.getLast? ≠ some []) : withoutEmptyLast items = items := by
  rw [withoutEmptyLast, if_neg filled]

theorem splitFrom_commaRow
    {arguments : List Text}
    (each : ∀ argument ∈ arguments, Passes argument ∧ Text.IsTrimmed argument)
    {lead : Text} (blank : ∀ c ∈ lead, Text.isBlank c = true) :
    splitFrom { current := lead } (commaRow arguments) =
      some (withoutEmptyLast arguments) := by
  have around : ∀ argument, Text.IsTrimmed argument → ∀ lead : Text,
      (∀ c ∈ lead, Text.isBlank c = true) →
      Text.trim (argument.reverse ++ lead).reverse = argument := by
    intro argument trimmed lead blank
    rw [List.reverse_append, List.reverse_reverse]
    exact trimmed.trim_append (by simpa using blank)
  induction arguments generalizing lead with
  | nil =>
      have nothing : Text.trim (lead.reverse ++ []) = [] :=
        Text.IsTrimmed.trim_append rfl (by simpa using blank)
      rw [List.append_nil] at nothing
      rw [commaRow, Text.join, splitFrom]
      simp [nothing, withoutEmptyLast]
  | cons argument others ih =>
      rw [List.forall_mem_cons] at each
      cases others with
      | nil =>
          have read := each.1.1.splitFrom_append lead []
          rw [List.append_nil] at read
          rw [commaRow, Text.join, read, splitFrom,
            around argument each.1.2 lead blank]
          cases argument with
          | nil => rfl
          | cons c argument => rfl
      | cons next others =>
          have behind :
              splitFrom { current := [' '] } (commaRow (next :: others)) =
                some (withoutEmptyLast (next :: others)) :=
            ih each.2 (by decide)
          rw [commaRow_cons_cons, each.1.1.splitFrom_append, splitFrom_comma,
            splitFrom_cons_of_not_separates rfl, around argument each.1.2 lead blank,
            withoutEmptyLast_cons_cons]
          exact congrArg (Option.map (argument :: ·)) behind

/-- A row that is joined by commas is split again; an empty member at its end does
not count. -/
theorem split_commaRow_of_passes
    {arguments : List Text}
    (each : ∀ argument ∈ arguments, Passes argument ∧ Text.IsTrimmed argument) :
    split (commaRow arguments) = .ok (withoutEmptyLast arguments) := by
  rw [split, splitFrom_commaRow each (by simp)]

/-- Arguments that are joined by commas are split again. -/
theorem split_commaRow
    {arguments : List Text} (each : ∀ argument ∈ arguments, IsArgument argument) :
    split (commaRow arguments) = .ok arguments := by
  rw [split_commaRow_of_passes fun argument member =>
      ⟨(each argument member).passes, (each argument member).trimmed⟩,
    withoutEmptyLast_of_filled]
  intro last
  exact (each [] (List.mem_of_getLast? last)).filled rfl

theorem mem_commaRow {arguments : List Text} (member : c ∈ commaRow arguments) :
    (∃ argument ∈ arguments, c ∈ argument) ∨ c = ',' ∨ c = ' ' := by
  induction arguments with
  | nil => contradiction
  | cons argument others ih =>
      cases others with
      | nil => exact Or.inl ⟨argument, by simp, member⟩
      | cons next others =>
          rw [commaRow_cons_cons, List.mem_append, List.mem_cons,
            List.mem_cons] at member
          rcases member with here | comma | space | behind
          · exact Or.inl ⟨argument, by simp, here⟩
          · exact Or.inr (Or.inl comma)
          · exact Or.inr (Or.inr space)
          · rcases ih behind with ⟨other, inRow, inOther⟩ | separator
            · exact Or.inl ⟨other, List.mem_cons_of_mem _ inRow, inOther⟩
            · exact Or.inr separator

theorem balanced_commaRow
    {arguments : List Text} (each : ∀ argument ∈ arguments, Balanced argument) :
    Balanced (commaRow arguments) := by
  induction arguments with
  | nil => exact balanced_nil
  | cons argument others ih =>
      rw [List.forall_mem_cons] at each
      cases others with
      | nil => exact each.1
      | cons next others =>
          have separator : Balanced [',', ' '] := by decide
          rw [commaRow_cons_cons]
          exact each.1.append (separator.append (ih each.2) (Or.inl (by simp)))
            (Or.inr (by simp))

/-- Inside brackets, a row of texts that pass is passed with its commas. -/
theorem splitFrom_commaRow_enclosed
    {items : List Text} (each : ∀ item ∈ items, Passes item) (outer : Nat)
    (current rest : Text) :
    splitFrom { current, depth := (outer + 1 : Nat) } (commaRow items ++ rest) =
      splitFrom
        { current := (commaRow items).reverse ++ current, depth := (outer + 1 : Nat) }
        rest := by
  have deep : (outer : Int) + 1 ≠ 0 := by omega
  induction items generalizing current with
  | nil => rfl
  | cons item others ih =>
      rw [List.forall_mem_cons] at each
      cases others with
      | nil => exact each.1 (outer + 1) current rest
      | cons next others =>
          rw [commaRow_cons_cons, List.append_assoc, each.1, List.cons_append,
            List.cons_append,
            splitFrom_cons_of_not_separates (by simp [Reading.separates, deep]),
            splitFrom_cons_of_not_separates (by simp [Reading.take, Reading.separates])]
          have behind := ih each.2 (' ' :: ',' :: (item.reverse ++ current))
          simpa [Reading.take] using behind

/-- Between brackets a text passes if it is passed where brackets are open. -/
theorem passes_between {opening closing : Char} (opens : opening = '(' ∨ opening = '[')
    (closes : closing = ')' ∨ closing = ']')
    (inside : ∀ (outer : Nat) (current rest : Text),
      splitFrom { current := opening :: current, depth := (outer + 1 : Nat) }
          (inner ++ rest) =
        splitFrom
          { current := inner.reverse ++ opening :: current, depth := (outer + 1 : Nat) }
          rest) :
    Passes (opening :: inner ++ [closing]) := by
  intro outer current rest
  have opened : ∀ behind : Text,
      splitFrom { current, depth := outer } (opening :: behind) =
        splitFrom { current := opening :: current, depth := (outer + 1 : Nat) }
          behind := by
    intro behind
    rcases opens with rfl | rfl
    all_goals
      rw [splitFrom_cons_of_not_separates (by simp [Reading.separates])]
      simp [Reading.take]
  have closed : ∀ before : Text,
      splitFrom { current := before, depth := (outer + 1 : Nat) } (closing :: rest) =
        splitFrom { current := closing :: before, depth := outer } rest := by
    intro before
    rcases closes with rfl | rfl
    all_goals
      rw [splitFrom_cons_of_not_separates (by simp [Reading.separates])]
      simp [Reading.take]
  rw [List.cons_append, List.cons_append, List.append_assoc, List.singleton_append,
    opened, inside, closed]
  simp

theorem passes_enclosed {items : List Text} (each : ∀ item ∈ items, Passes item) :
    Passes ('[' :: commaRow items ++ [']']) :=
  passes_between (Or.inr rfl) (Or.inr rfl) fun outer current =>
    splitFrom_commaRow_enclosed each outer ('[' :: current)

/-! ## Lists -/

/-- A member of a list that has no modifiers, no punctuation and no line
boundary. -/
@[mk_iff]
structure IsItem (text : Text) : Prop where
  plain : ∀ c ∈ text, c ∉ [',', ':', '"', '\\', '/', '@', '(', ')', '[', ']']
  single : Text.IsLine text
  trimmed : Text.IsTrimmed text
  filled : text ≠ []

instance : DecidablePred IsItem := fun text =>
  decidable_of_iff' _ (isItem_iff text)

theorem IsItem.not_mem
    (item : IsItem text)
    (punctuation : c ∈ [',', ':', '"', '\\', '/', '@', '(', ')', '[', ']']) :
    c ∉ text := by
  intro member
  exact item.plain c member punctuation

theorem IsItem.balanced (item : IsItem text) : Balanced text := by
  have among : ∀ c ∈ ['"', '(', ')', '[', ']', '/'],
      c ∈ [',', ':', '"', '\\', '/', '@', '(', ')', '[', ']'] := by
    decide
  apply balanced_of_plain
  intro c member punctuation
  exact item.plain c member (among c punctuation)

theorem IsItem.isPassing (item : IsItem text) : IsPassing text := by
  have among : ∀ c ∈ [',', '"', '(', ')', '[', ']'],
      c ∈ [',', ':', '"', '\\', '/', '@', '(', ')', '[', ']'] := by
    decide
  apply isPassing_of_plain
  intro c member punctuation
  exact item.plain c member (among c punctuation)

/-- A text that can stand between commas and is read as one argument. -/
structure IsValue (text : Text) : Prop where
  passing : IsPassing text
  balanced : Balanced text
  single : Text.IsLine text
  trimmed : Text.IsTrimmed text

/-- A member of a list, without modifiers. -/
structure IsMember (text : Text) : Prop extends IsValue text where
  unmodified : '(' ∉ text

theorem IsItem.isMember (item : IsItem text) : IsMember text :=
  ⟨⟨item.isPassing, item.balanced, item.single, item.trimmed⟩,
    item.not_mem (by decide)⟩

theorem IsValue.isArgument (isValue : IsValue text) (filled : text ≠ []) :
    IsArgument text :=
  ⟨isValue.passing.passes, isValue.trimmed, filled⟩

theorem IsItem.isArgument (item : IsItem text) : IsArgument text :=
  item.isMember.isArgument item.filled

/-- A list as it is written. -/
def bracketed (items : List Text) : Text :=
  '[' :: commaRow items ++ [']']

theorem isTrimmed_bracketed (items : List Text) :
    Text.IsTrimmed (bracketed items) := by
  apply Text.isTrimmed_append_singleton
  · rintro c ⟨⟩
    decide
  · decide

theorem balanced_bracketed_of_balanced {items : List Text}
    (each : ∀ item ∈ items, Balanced item) : Balanced (bracketed items) :=
  (balanced_commaRow each).enclosed (Or.inr rfl) (Or.inr rfl)

theorem balanced_bracketed {items : List Text}
    (each : ∀ item ∈ items, IsMember item) :
    Balanced (bracketed items) :=
  balanced_bracketed_of_balanced fun item member => (each item member).balanced

theorem isArgument_bracketed_of_passes {items : List Text}
    (each : ∀ item ∈ items, Passes item) : IsArgument (bracketed items) :=
  ⟨passes_enclosed each, isTrimmed_bracketed items, by simp [bracketed]⟩

theorem isArgument_bracketed {items : List Text}
    (each : ∀ item ∈ items, IsMember item) :
    IsArgument (bracketed items) :=
  isArgument_bracketed_of_passes fun item member => (each item member).passing.passes

theorem cutAt_of_not_mem {mark : Char} (absent : mark ∉ text) :
    Text.cutAt mark text = (text, none) := by
  induction text with
  | nil => rfl
  | cons c text ih =>
      rw [List.mem_cons, not_or] at absent
      rw [Text.cutAt, if_neg (Ne.symm absent.1), ih absent.2]

theorem cutAt_append {mark : Char} (absent : mark ∉ left) (right : Text) :
    Text.cutAt mark (left ++ mark :: right) = (left, some right) := by
  induction left with
  | nil => rw [List.nil_append, Text.cutAt, if_pos rfl]
  | cons c left ih =>
      rw [List.mem_cons, not_or] at absent
      rw [List.cons_append, Text.cutAt, if_neg (Ne.symm absent.1), ih absent.2]

/-- The members of a list lose their modifiers, and an empty one at its end does not
count. -/
theorem listOf_bracketed_of_passes {items : List Text}
    (each : ∀ item ∈ items, Passes item ∧ Text.IsTrimmed item) :
    listOf (bracketed items) =
      .ok ((withoutEmptyLast items).map fun item =>
        Text.trim (Text.cutAt '(' item).1) := by
  rw [listOf, isTrimmed_bracketed items]
  simp only [bracketed, List.cons_append, List.getLast?_append,
    List.getLast?_singleton, Option.some_or, if_true, List.dropLast_concat,
    split_commaRow_of_passes each]
  rfl

/-- The members of a list are read back, except for an empty one at its end. -/
theorem listOf_bracketed {items : List Text}
    (each : ∀ item ∈ items, IsMember item) :
    listOf (bracketed items) = .ok (withoutEmptyLast items) := by
  have fewer : ∀ item ∈ withoutEmptyLast items, item ∈ items := by
    intro item member
    rw [withoutEmptyLast] at member
    split_ifs at member
    · exact List.dropLast_subset _ member
    · exact member
  rw [listOf_bracketed_of_passes fun item member =>
    ⟨(each item member).passing.passes, (each item member).trimmed⟩]
  refine congrArg Except.ok (map_eq_self_iff.mpr fun item member => ?_)
  have isMember := each item (fewer item member)
  rw [cutAt_of_not_mem isMember.unmodified]
  exact isMember.trimmed

/-! ## Quoted values and keys -/

theorem isTrimmed_inQuotes (text : Text) : Text.IsTrimmed (inQuotes text) := by
  apply Text.isTrimmed_append_singleton
  · rintro c ⟨⟩
    decide
  · decide

theorem isArgument_inQuotes (contained : IsContained text) :
    IsArgument (inQuotes text) :=
  ⟨passes_inQuotes contained, isTrimmed_inQuotes text, by simp [inQuotes]⟩

theorem unescapeQuotes_of_plain (plain : '"' ∉ text) :
    Text.unquote.unescapeQuotes text = text := by
  induction text with
  | nil => rfl
  | cons c text ih =>
      rw [List.mem_cons, not_or] at plain
      rw [Text.unquote.unescapeQuotes, ih plain.2]
      rintro rest rfl rfl
      exact plain.2 List.mem_cons_self

/-- A text that is quoted loses its quotes and its escapes. -/
theorem unquote_inQuotes_eq (text : Text) :
    Text.unquote (inQuotes text) = Text.unquote.unescapeQuotes text := by
  have trimmed : Text.trim (inQuotes text) = inQuotes text := isTrimmed_inQuotes text
  rw [Text.unquote, trimmed]
  simp [inQuotes]

theorem unquote_inQuotes (plain : '"' ∉ text) :
    Text.unquote (inQuotes text) = text := by
  rw [unquote_inQuotes_eq, unescapeQuotes_of_plain plain]

theorem map_unquote_inQuotes {name : Option Text} (quotable : ∀ text ∈ name, Quotable text) :
    (name.map inQuotes).map Text.unquote = name := by
  cases name with
  | none => rfl
  | some text => exact congrArg some (unquote_inQuotes (quotable text rfl).isContained.plain)

/-- White space in front of a value does not count. -/
theorem unquote_cons_space (text : Text) :
    Text.unquote (' ' :: text) = Text.unquote text := by
  have same : Text.trim (' ' :: text) = Text.trim text := by
    rw [Text.trim, Text.trim, Text.trimStart_cons_of_blank (by decide)]
  rw [Text.unquote, Text.unquote, same]

/-- A value without quotes loses only the white space around it. -/
theorem unquote_of_head (plain : (Text.trim text).head? ≠ some '"') :
    Text.unquote text = Text.trim text := by
  rw [Text.unquote]
  split
  · rename_i rest same
    rw [same] at plain
    contradiction
  · rfl

theorem named?_append (key : Text) (earlier later : List Text) :
    named? key (earlier ++ later) = (named? key earlier).or (named? key later) := by
  rw [named?, List.findSome?_append]
  rfl

theorem named?_keyed
    {other : Text} (plain : ':' ∉ other) (trimmed : Text.IsTrimmed other)
    (key value : Text) :
    named? key [other ++ ':' :: value] =
      if other = key then some (Text.unquote value) else none := by
  rw [named?, List.findSome?_singleton, cutAt_append plain]
  simp only [show Text.trim other = other from trimmed]

/-- A text has no key that starts like another text, even when it holds a
colon. -/
theorem named?_of_head {key : Text} (plain : key.head? ≠ some c)
    (visible : Text.isBlank c = false) (noColon : c ≠ ':') (text : Text) :
    named? key [c :: text] = none := by
  rw [named?, List.findSome?_singleton, Text.cutAt, if_neg noColon]
  split
  · rename_i found value cut
    rw [Prod.mk.injEq] at cut
    rw [← cut.1, Text.trim_cons_of_not_blank visible, if_neg]
    rintro rfl
    exact plain rfl
  · rfl

theorem named?_inQuotes {key : Text} (plain : key.head? ≠ some '"') (text : Text) :
    named? key [inQuotes text] = none :=
  named?_of_head plain (by decide) (by decide) (text ++ ['"'])

theorem named?_bracketed {key : Text} (plain : key.head? ≠ some '[')
    (items : List Text) : named? key [bracketed items] = none :=
  named?_of_head plain (by decide) (by decide) (commaRow items ++ [']'])

/-! ## Keyed arguments -/

/-- An argument with a key. -/
def keyed (key value : Text) : Text :=
  key ++ ':' :: ' ' :: value

theorem isArgument_keyed
    {key value : Text} (isName : Text.IsName key) (isArgument : IsArgument value) :
    IsArgument (keyed key value) := by
  constructor
  · have colon : Passes [':', ' '] := passes_of_plain (by decide)
    exact (passes_of_plain (isName.apart (by decide))).append
      (colon.append isArgument.passes)
  · have trimmed :=
      isName.isTrimmed.around isName.ne_nil isArgument.trimmed isArgument.filled
      [':', ' ']
    rwa [List.append_assoc] at trimmed
  · simp [keyed]

theorem balanced_keyed
    {key value : Text} (isName : Text.IsName key) (balanced : Balanced value) :
    Balanced (keyed key value) := by
  have colon : Balanced [':', ' '] := by decide
  exact (balanced_of_plain (isName.apart (by decide))).append
    (colon.append balanced (Or.inl (by decide))) (Or.inr (by simp))

theorem named?_singleton_keyed
    {key : Text} (isName : Text.IsName key) (sought value : Text) :
    named? sought [keyed key value] =
      if key = sought then some (Text.unquote (' ' :: value)) else none :=
  named?_keyed (isName.not_mem (by decide)) isName.isTrimmed sought (' ' :: value)

theorem isTrimmed_commaRow
    {arguments : List Text} (each : ∀ argument ∈ arguments, IsArgument argument) :
    Text.IsTrimmed (commaRow arguments) := by
  induction arguments with
  | nil => rfl
  | cons argument others ih =>
      rw [List.forall_mem_cons] at each
      cases others with
      | nil => exact each.1.trimmed
      | cons next others =>
          have filled : commaRow (next :: others) ≠ [] := by
            cases others with
            | nil => exact (each.2 next (by simp)).filled
            | cons last others =>
                rw [commaRow_cons_cons]
                simp
          have trimmed :=
            each.1.trimmed.around each.1.filled (ih each.2) filled [',', ' ']
          rw [commaRow_cons_cons]
          rwa [List.append_assoc] at trimmed

theorem isArgument_of_isName {name : Text} (isName : Text.IsName name) :
    IsArgument name :=
  ⟨passes_of_plain (isName.apart (by decide)), isName.isTrimmed, isName.ne_nil⟩

theorem unquote_of_isName {name : Text} (isName : Text.IsName name) :
    Text.unquote name = name := by
  have trimmed : Text.trim name = name := isName.isTrimmed
  have plain : name.head? ≠ some '"' := by
    simpa using isName.head?_ne (show Text.isWord '"' = false by decide) []
  rw [unquote_of_head (by rwa [trimmed]), trimmed]

/-- A list of names is read back. -/
theorem listOf_bracketed_of_isName {names : List Text}
    (each : ∀ name ∈ names, Text.IsName name) : listOf (bracketed names) = .ok names := by
  have filled : names.getLast? ≠ some [] := fun last =>
    (each [] (List.mem_of_getLast? last)).ne_nil rfl
  rw [listOf_bracketed_of_passes fun name member =>
      ⟨(isArgument_of_isName (each name member)).passes, (each name member).isTrimmed⟩,
    withoutEmptyLast_of_filled filled]
  refine congrArg Except.ok (map_eq_self_iff.mpr fun name member => ?_)
  rw [cutAt_of_not_mem ((each name member).not_mem (by decide))]
  exact (each name member).isTrimmed

/-- The arguments with keys that are given, in their order. -/
def keyedRow (settings : List (Text × Option Text)) : List Text :=
  settings.filterMap fun setting => setting.2.map (keyed setting.1)

theorem forall_mem_keyedRow
    {settings : List (Text × Option Text)} {Holds : Text → Prop}
    (each : ∀ setting ∈ settings, ∀ value ∈ setting.2, Holds (keyed setting.1 value)) :
    ∀ argument ∈ keyedRow settings, Holds argument := by
  intro argument member
  obtain ⟨setting, inRow, given⟩ := List.mem_filterMap.mp member
  obtain ⟨value, found, rfl⟩ := Option.map_eq_some_iff.mp given
  exact each setting inRow value found

theorem named?_keyedRow_cons
    {setting : Text × Option Text} (isName : Text.IsName setting.1) (sought : Text)
    (others : List (Text × Option Text)) :
    named? sought (keyedRow (setting :: others)) =
      (if setting.1 = sought then setting.2.map Text.unquote else none).or
        (named? sought (keyedRow others)) := by
  obtain ⟨key, value⟩ := setting
  cases value with
  | none => simp [keyedRow]
  | some value =>
      have row : keyedRow ((key, some value) :: others) =
          [keyed key value] ++ keyedRow others := rfl
      rw [row, named?_append, named?_singleton_keyed isName, unquote_cons_space]
      rfl

theorem named?_keyedRow_of_not_mem
    {settings : List (Text × Option Text)} {key : Text}
    (names : ∀ key ∈ settings.map Prod.fst, Text.IsName key)
    (absent : key ∉ settings.map Prod.fst) : named? key (keyedRow settings) = none := by
  induction settings with
  | nil => rfl
  | cons setting others ih =>
      rw [List.map_cons, List.forall_mem_cons] at names
      rw [List.map_cons, List.mem_cons, not_or] at absent
      rw [named?_keyedRow_cons names.1, if_neg (Ne.symm absent.1), ih names.2 absent.2]
      rfl

theorem named?_keyedRow_of_mem
    {settings : List (Text × Option Text)} {key : Text} {value : Option Text}
    (names : ∀ key ∈ settings.map Prod.fst, Text.IsName key)
    (distinct : (settings.map Prod.fst).Nodup) (member : (key, value) ∈ settings) :
    named? key (keyedRow settings) = value.map Text.unquote := by
  induction settings with
  | nil => contradiction
  | cons setting others ih =>
      rw [List.map_cons, List.forall_mem_cons] at names
      rw [List.map_cons, List.nodup_cons] at distinct
      rw [named?_keyedRow_cons names.1]
      rcases List.mem_cons.mp member with rfl | behind
      · rw [if_pos rfl, named?_keyedRow_of_not_mem names.2 distinct.1, Option.or_none]
      · have other : setting.1 ≠ key := by
          rintro rfl
          exact distinct.1 (List.mem_map.mpr ⟨_, behind, rfl⟩)
        rw [if_neg other, Option.none_or, ih names.2 distinct.2 behind]

/-- Among arguments with keys, of which no two are the same, each is found under its key,
in whatever order they are written. -/
theorem named?_keyedRow
    {settings order : List (Text × Option Text)} {key : Text} {value : Option Text}
    (perm : order.Perm settings) (names : ∀ key ∈ settings.map Prod.fst, Text.IsName key)
    (distinct : (settings.map Prod.fst).Nodup) (member : (key, value) ∈ settings) :
    named? key (keyedRow order) = value.map Text.unquote := by
  have keys := perm.map Prod.fst
  exact named?_keyedRow_of_mem (fun key inOrder => names key (keys.mem_iff.mp inOrder))
    (keys.nodup_iff.mpr distinct) (perm.mem_iff.mpr member)

/-! ## Lines -/

theorem isLine_inQuotes (single : Text.IsLine text) :
    Text.IsLine (inQuotes text) := by
  rw [inQuotes, List.cons_append, Text.isLine_cons, Text.isLine_append]
  exact ⟨by decide, single, by decide⟩

theorem isLine_commaRow {arguments : List Text}
    (each : ∀ argument ∈ arguments, Text.IsLine argument) :
    Text.IsLine (commaRow arguments) := by
  intro c member
  rcases mem_commaRow member with ⟨argument, inRow, inArgument⟩ | rfl | rfl
  · exact each argument inRow c inArgument
  · decide
  · decide

theorem isLine_keyed {key value : Text} (first : Text.IsLine key)
    (second : Text.IsLine value) :
    Text.IsLine (keyed key value) := by
  rw [keyed, Text.isLine_append, Text.isLine_cons, Text.isLine_cons]
  exact ⟨first, by decide, by decide, second⟩

theorem isLine_bracketed {items : List Text}
    (each : ∀ item ∈ items, IsMember item) :
    Text.IsLine (bracketed items) := by
  rw [bracketed, List.cons_append, Text.isLine_cons, Text.isLine_append]
  exact ⟨by decide, isLine_commaRow fun item member =>
    (each item member).single, by decide⟩

end SchemaCompose.Arguments
