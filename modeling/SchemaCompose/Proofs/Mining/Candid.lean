import SchemaCompose.Proofs.Mining.Bodies
import SchemaCompose.Proofs.Reading.Parts

/-!
# Attributes that show what they say

The recognisers look for their marks in the text of a line, whether an attribute
stands there or not.  An attribute is candid if each of them finds in its text just
what the attribute says: a column name, a native type or an action on update.
-/

namespace SchemaCompose

/-! ## What an attribute says -/

/-- The text between two quotes, if it holds no further one. -/
def betweenQuotes? : Text → Option Text
  | '"' :: rest =>
    if rest.getLast? = some '"' ∧ '"' ∉ rest.dropLast then some rest.dropLast
    else none
  | _ => none

theorem betweenQuotes?_eq_some {text name : Text} :
    betweenQuotes? text = some name ↔ text = inQuotes name ∧ '"' ∉ name := by
  constructor
  · intro found
    unfold betweenQuotes? at found
    split at found
    · rename_i rest
      split_ifs at found with quoted
      cases found
      refine ⟨?_, quoted.2⟩
      rw [inQuotes, List.cons_append, List.dropLast_append_getLast? _ quoted.1]
    · contradiction
  · rintro ⟨rfl, plain⟩
    simp [inQuotes, betweenQuotes?, plain]

namespace Arguments

/-- The action that an argument asks for on update. -/
def action? (argument : Text) : Option Text :=
  ((Text.after? "onUpdate:" argument).map Text.trim).filter
    Mining.relationActions.contains

/-- The key of an action stands in front of the argument or nowhere in it, and where an
action is recognised it is the whole value. -/
def IsCandid (argument : Text) : Prop :=
  ¬ "onUpdate:".toList <:+: argument ∨
    ∃ value, argument = "onUpdate:" ++ value ∧ ¬ "onUpdate:".toList <:+: value ∧
      ∀ action ∈ Mining.onUpdate? argument, Text.trim value = action

end Arguments

namespace Attribute

/-- The column that a mapping names between quotes. -/
def column? (source : Attribute) : Option Text :=
  if source.name = "@map" then source.arguments.bind betweenQuotes? else none

/-- The native type that the text of an attribute names, with its arguments. -/
def nativeType? (cut : Text) : Option Text :=
  (Text.after? "@db." cut).filter (·.head?.any Text.isWord)

/-- The action on update that a relation asks for. -/
def action? (source : Attribute) : Option Text :=
  if source.name = "@relation" then
    (source.split.toOption.getD []).findSome? Arguments.action?
  else none

/-- Each mark in the text of an attribute stands where the attribute says what the mark
announces, and the recogniser of the mark reads it to its end. -/
structure IsCandid (cut : Text) (source : Attribute) : Prop where
  /-- The arguments end at a round bracket. -/
  closed : cut.getLast? ≠ some ']'
  /-- No argument holds the mark of another attribute. -/
  unmarked : ∀ inner ∈ source.arguments,
    ¬ "@map(".toList <:+: inner ∧ ¬ "@db.".toList <:+: inner
  /-- A mapping holds no escaped quote. -/
  mapping : source.name = "@map" →
    ∀ inner ∈ source.arguments, ¬ "\\\"".toList <:+: inner
  /-- The prefix of a native type stands behind one sign only. -/
  single : ¬ "@@db.".toList <+: source.name
  /-- The name of a native type is a word, and its arguments close no round bracket. -/
  nativeType : ∀ word, source.name = "@db." ++ word →
    (∀ c ∈ word, Text.isWord c = true) ∧ ∀ inner ∈ source.arguments, ')' ∉ inner
  /-- The key of an action stands in a relation only. -/
  plain : source.name ≠ "@relation" →
    ∀ inner ∈ source.arguments, ¬ "onUpdate:".toList <:+: inner
  /-- In a relation it stands in front of an action. -/
  relation : source.name = "@relation" →
    ∃ arguments, source.split = .ok arguments ∧
      ∀ argument ∈ arguments, Arguments.IsCandid argument

theorem IsCandid.closing_eq
    {name raw : Text} {closing : Char} {source : Attribute}
    (candid : IsCandid (name ++ '(' :: (raw ++ [closing])) source)
    (closes : closing = ')' ∨ closing = ']') : closing = ')' := by
  rcases closes with rfl | rfl
  · rfl
  · have last : (name ++ '(' :: raw ++ [']']).getLast? = some ']' := List.getLast?_concat
    rw [List.append_assoc] at last
    exact absurd last candid.closed

theorem nativeType?_append
    {word more : Text} (run : ∀ c ∈ word, Text.isWord c = true)
    (ends : ∀ c ∈ more.head?, Text.isWord c = false) :
    nativeType? ("@db." ++ (word ++ more)) =
      if word = [] then none else some (word ++ more) := by
  rw [nativeType?, Text.after?_append]
  cases word with
  | nil =>
      cases more with
      | nil => rfl
      | cons c more =>
          have other := ends c rfl
          simp [Option.filter, other]
  | cons c word =>
      have first := run c List.mem_cons_self
      simp [Option.filter, first]

end Attribute

namespace Mining

/-! ## Marks -/

/-- The marks of what is recovered for a field. -/
def fieldMarks : List Text :=
  ["@map(", "@db.", "onUpdate:"]

/-- A piece of a line ends where this text starts: at white space, at a further
attribute or at a comment. -/
def StartsApart (rest : Text) : Prop :=
  ∀ c ∈ rest.head?, Text.isBlank c = true ∨ c = '@' ∨ c = '/'

variable {α : Type} {recognise : Option Char → Text → Option α}
  {mark piece place rest raw cut : Text} {before : Option Char} {closing : Char}
  {source : Attribute}

theorem StartsApart.ends (apart : StartsApart rest) :
    ∀ c ∈ rest.head?, Text.isWord c = false ∧ c ≠ '(' := by
  intro c first
  rcases apart c first with blank | rfl | rfl
  · refine ⟨Text.not_isWord_of_isBlank blank, ?_⟩
    rintro rfl
    contradiction
  · decide
  · decide

theorem StartsApart.parenthesised_eq (apart : StartsApart rest) :
    parenthesised rest = [] := by
  rw [parenthesised.eq_def]
  split
  · exact absurd rfl (apart.ends '(' rfl).2
  · rfl

theorem solid_of_mem_fieldMarks :
    ∀ mark ∈ fieldMarks, mark ≠ [] ∧
      (∀ c ∈ mark, c ∉ [')', ']', '[', '?'] ∧ Text.isBlank c = false) ∧
      ∀ c ∈ mark.tail, c ≠ '@' ∧ c ≠ '/' := by
  decide

/-- No mark reaches over the end of a piece. -/
theorem prefix_of_startsApart
    (known : mark ∈ fieldMarks) (apart : StartsApart rest) (filled : place ≠ [])
    (starts : mark <+: place ++ rest) : mark <+: place := by
  obtain ⟨_, visible, solid⟩ := solid_of_mem_fieldMarks mark known
  apply prefix_of_append_apart filled _ starts
  intro c first member
  rcases apart c first with blank | sign | slash
  · rw [(visible c (List.mem_of_mem_tail member)).2] at blank
    contradiction
  · exact (solid c member).1 sign
  · exact (solid c member).2 slash

/-- The search passes over a piece without the mark. -/
theorem IsLed.firstMatch_append
    (led : IsLed mark recognise) (known : mark ∈ fieldMarks) (apart : StartsApart rest)
    (unmarked : ¬ mark <:+: piece) (before : Option Char) :
    firstMatch recognise before (piece ++ rest) =
      firstMatch recognise (piece.getLast?.or before) rest := by
  apply Mining.firstMatch_append
  intro other place suffix filled
  apply led
  intro starts
  have inside := prefix_of_startsApart known apart filled starts
  exact unmarked (inside.isInfix.trans suffix.isInfix)

/-- White space is no part of a mark. -/
theorem not_mem_of_blank
    {gap : Text} (known : mark ∈ fieldMarks) (blank : ∀ c ∈ gap, Text.isBlank c = true) :
    ∀ c ∈ gap, c ∉ mark := by
  intro c inGap inMark
  have isBlank := blank c inGap
  rw [((solid_of_mem_fieldMarks mark known).2.1 c inMark).2] at isBlank
  contradiction

theorem infix_trim (known : mark ∈ fieldMarks) (found : mark <:+: raw) :
    mark <:+: Text.trim raw := by
  have filled := (solid_of_mem_fieldMarks mark known).1
  obtain ⟨lead, tail, whole, blankLead, blankTail⟩ := Text.exists_trim_append raw
  rw [whole] at found
  exact infix_of_apart_append filled (not_mem_of_blank known blankLead)
    (infix_of_append_apart filled (not_mem_of_blank known blankTail) found)

/-- White space around a text and a bracket behind it are no part of a mark. -/
theorem infix_trim_of_closed
    (known : mark ∈ fieldMarks) (closes : closing = ')' ∨ closing = ']')
    (found : mark <:+: raw ++ [closing]) : mark <:+: Text.trim raw := by
  obtain ⟨filled, visible, _⟩ := solid_of_mem_fieldMarks mark known
  apply infix_trim known
  apply infix_of_append_apart filled _ found
  rw [List.forall_mem_singleton]
  intro member
  rcases closes with rfl | rfl
  · exact (visible ')' member).1 (by decide)
  · exact (visible ']' member).1 (by decide)

/-! ## One attribute -/

theorem sign_not_mem_bare {bare : Text}
    (isBare : Attribute.bareName? bare = some (bare, [])) : '@' ∉ bare := by
  intro sign
  have inName := Attribute.isNameChar_of_mem_bare isBare '@' sign
  contradiction

/-- Behind its signs an attribute holds the mark of another one in its arguments
only. -/
theorem exists_body_of_spelled
    (known : mark ∈ fieldMarks) (first : mark.head? = some '@')
    (spelled : Attribute.IsSpelled cut source)
    (unmarked : ∀ inner ∈ source.arguments, ¬ mark <:+: inner) :
    ∃ body, (cut = '@' :: body ∨ cut = '@' :: '@' :: body) ∧ ¬ mark <:+: body := by
  have signed : '@' ∈ mark := List.mem_of_mem_head? first
  cases spelled with
  | bare isName =>
      have passes : ∀ {bare : Text}, Attribute.bareName? bare = some (bare, []) →
          ¬ mark <:+: bare :=
        fun isBare found => sign_not_mem_bare isBare (found.subset signed)
      rcases isName.cases with ⟨bare, rfl, isBare⟩ | ⟨bare, rfl, isBare⟩
      · exact ⟨bare, Or.inr rfl, passes isBare⟩
      · exact ⟨bare, Or.inl rfl, passes isBare⟩
  | @call name raw closing isName _ closes =>
      have passes : ∀ {bare : Text}, Attribute.bareName? bare = some (bare, []) →
          ¬ mark <:+: bare ++ '(' :: (raw ++ [closing]) := by
        intro bare isBare found
        have regroup : bare ++ '(' :: (raw ++ [closing]) =
            (bare ++ ['(']) ++ (raw ++ [closing]) := by
          simp
        rw [regroup] at found
        have absent : '@' ∉ bare ++ ['('] := by
          simp [sign_not_mem_bare isBare]
        exact unmarked _ rfl
          (infix_trim_of_closed known closes (infix_of_append_of_head first absent found))
      rcases isName.cases with ⟨bare, rfl, isBare⟩ | ⟨bare, rfl, isBare⟩
      · exact ⟨_, Or.inr rfl, passes isBare⟩
      · exact ⟨_, Or.inl rfl, passes isBare⟩

/-- In the text of an attribute a mark with a sign is looked for in front of it, and
then behind it. -/
theorem firstMatch_of_spelled
    (led : IsLed mark recognise) (known : mark ∈ fieldMarks)
    (first : mark.head? = some '@') (spelled : Attribute.IsSpelled cut source)
    (unmarked : ∀ inner ∈ source.arguments, ¬ mark <:+: inner)
    (apart : StartsApart rest)
    (second : ∀ body, cut = '@' :: '@' :: body →
      recognise (some '@') ('@' :: (body ++ rest)) = none)
    (before : Option Char) :
    firstMatch recognise before (cut ++ rest) =
      (recognise before (cut ++ rest)).or (firstMatch recognise cut.getLast? rest) := by
  cases here : recognise before (cut ++ rest) with
  | some value => exact firstMatch_of_some here
  | none =>
      obtain ⟨body, rfl | rfl, passes⟩ :=
        exists_body_of_spelled known first spelled unmarked
      · have further := led.firstMatch_append known apart passes (some '@')
        rw [List.cons_append] at here
        rw [List.cons_append, firstMatch_cons_of_none here, further,
          getLast?_cons_eq_or]
        rfl
      · have further := led.firstMatch_append known apart passes (some '@')
        rw [List.cons_append, List.cons_append] at here
        rw [List.cons_append, List.cons_append, firstMatch_cons_of_none here,
          firstMatch_cons_of_none (second body rfl), further, List.getLast?_cons_cons,
          getLast?_cons_eq_or]
        rfl

/-! ## Column names -/

/-- A literal that ends in a text ends at its next quote, unless a backslash stands in
front of that one. -/
theorem exists_of_nesting_inside
    {text : Text} (nested : nesting 0 .inside text = some (0, .outside))
    (unescaped : ¬ "\\\"".toList <:+: text) :
    ∃ name behind, text = name ++ '"' :: behind ∧ '"' ∉ name ∧
      nesting 0 .outside behind = some (0, .outside) := by
  have quote : '"' ∈ text := by
    by_contra plain
    rw [LiteralState.nesting_of_literal (by simp) plain] at nested
    exact LiteralState.run_ne_outside (by simp) plain
      (congrArg Prod.snd (Option.some.inj nested))
  obtain ⟨name, behind, rfl, plain⟩ := List.eq_append_cons_of_mem quote
  have contained : IsContained name := by
    refine ⟨plain, fun last => unescaped ?_⟩
    obtain ⟨init, rfl⟩ := List.getLast?_eq_some_iff.mp last
    exact ⟨init, behind, by simp⟩
  rw [nesting_append, LiteralState.nesting_of_literal (by simp) plain,
    contained.run_inside] at nested
  exact ⟨name, behind, rfl, plain, nested⟩

theorem columnName?_append (apart : before ≠ some '@') (text : Text) :
    columnName? before ("@map(" ++ text) =
      (Text.after? "\"" (Text.trimStart text)).bind fun behind =>
        (Text.after? "\"" (behind.dropWhile (· ≠ '"'))).bind fun further =>
          if (Text.trimStart further).head? = some ')' then
            some (behind.takeWhile (· ≠ '"'))
          else none := by
  rw [columnName?, Text.after?_append]
  simp only [apart, ne_eq, not_false_eq_true, guard_true, Option.bind_eq_bind,
    Option.pure_def, Option.bind_some]
  congr 1
  funext behind
  congr 1
  funext further
  by_cases closed : (Text.trimStart further).head? = some ')'
  · simp [closed]
  · simp [closed]

/-- A text that ends visibly and opens each of its brackets does not start with a
closing one. -/
theorem head?_trimStart_of_nesting
    {text : Text} {place : Nat × LiteralState} (filled : text ≠ [])
    (visible : ∀ c ∈ text.getLast?, Text.isBlank c = false)
    (nested : nesting 0 .outside text = some place) (rest : Text) :
    (Text.trimStart (text ++ rest)).head? ≠ some ')' := by
  have gap : ∀ c ∈ text.takeWhile Text.isBlank, Text.isBlank c = true :=
    fun c member => List.mem_takeWhile_imp member
  have whole := List.takeWhile_append_dropWhile (p := Text.isBlank) (l := text)
  rw [Text.trimStart, List.dropWhile_append]
  cases start : text.dropWhile Text.isBlank with
  | nil =>
      have last := List.getLast?_eq_some_getLast filled
      have blank := List.dropWhile_eq_nil_iff.mp start _ (List.getLast_mem filled)
      rw [visible _ last] at blank
      contradiction
  | cons c behind =>
      rintro ⟨⟩
      rw [start] at whole
      rw [← whole, nesting_append, nesting_of_blank gap] at nested
      contradiction

theorem betweenQuotes?_of_further
    {name behind : Text} (filled : behind ≠ []) :
    betweenQuotes? ('"' :: (name ++ '"' :: behind)) = none := by
  cases found : betweenQuotes? ('"' :: (name ++ '"' :: behind)) with
  | none => rfl
  | some other =>
      obtain ⟨same, plain⟩ := betweenQuotes?_eq_some.mp found
      have cut : (name ++ '"' :: behind).dropLast = (other ++ ['"']).dropLast :=
        congrArg List.dropLast (List.cons.inj same).2
      rw [List.dropLast_concat, List.dropLast_append_cons,
        List.dropLast_cons_of_ne_nil filled] at cut
      exact absurd (by rw [← cut]; simp) plain

/-- A mapping of a literal gives the text up to the next quote, if the mapping is closed
behind it. -/
theorem columnName?_literal
    {name lead : Text} (apart : before ≠ some '@')
    (blankLead : ∀ c ∈ lead, Text.isBlank c = true) (plain : '"' ∉ name)
    (further : Text) :
    columnName? before ("@map(" ++ (lead ++ '"' :: (name ++ '"' :: further))) =
      if (Text.trimStart further).head? = some ')' then some name else none := by
  obtain ⟨taken, dropped⟩ := takeWhile_append_quote plain further
  have opened : ∀ text : Text, Text.after? "\"" ('"' :: text) = some text :=
    fun _ => rfl
  rw [columnName?_append apart, Text.trimStart_append_of_blank blankLead,
    Text.trimStart_cons_of_not_blank (by decide), opened, Option.bind_some, taken,
    dropped, opened, Option.bind_some]

/-- A mapping gives the text between its quotes. -/
theorem columnName?_call
    {inner lead tail : Text} (apart : before ≠ some '@')
    (trimmed : Text.IsTrimmed inner)
    (nested : nesting 0 .outside inner = some (0, .outside))
    (unescaped : ¬ "\\\"".toList <:+: inner)
    (blankLead : ∀ c ∈ lead, Text.isBlank c = true)
    (blankTail : ∀ c ∈ tail, Text.isBlank c = true) (rest : Text) :
    columnName? before ("@map(" ++ (lead ++ inner ++ tail ++ ')' :: rest)) =
      betweenQuotes? inner := by
  have closing : Text.trimStart (tail ++ ')' :: rest) = ')' :: rest := by
    rw [Text.trimStart_append_of_blank blankTail]
    exact Text.trimStart_cons_of_not_blank (by decide)
  rw [List.append_assoc, List.append_assoc]
  by_cases quoted : inner.head? = some '"'
  · obtain ⟨others, rfl⟩ := List.head?_eq_some_iff.mp quoted
    obtain ⟨name, behind, rfl, plain, further⟩ :=
      exists_of_nesting_inside nested fun inside => unescaped (List.infix_cons inside)
    have regroup : '"' :: (name ++ '"' :: behind) ++ (tail ++ ')' :: rest) =
        '"' :: (name ++ '"' :: (behind ++ (tail ++ ')' :: rest))) := by
      simp
    rw [regroup, columnName?_literal apart blankLead plain]
    cases behind with
    | nil =>
        rw [List.nil_append, closing]
        exact (betweenQuotes?_eq_some.mpr ⟨rfl, plain⟩).symm
    | cons d more =>
        have visible : ∀ c ∈ (d :: more).getLast?, Text.isBlank c = false := by
          intro c last
          apply trimmed.not_blank_of_getLast?
          rw [← List.cons_append, List.getLast?_append, List.getLast?_cons_cons, last]
          rfl
        rw [if_neg (head?_trimStart_of_nesting (by simp) visible further _),
          betweenQuotes?_of_further (by simp)]
  · rw [columnName?_append apart, Text.trimStart_append_of_blank blankLead]
    cases inner with
    | nil =>
        rw [List.nil_append, closing]
        rfl
    | cons c inner =>
        have other : c ≠ '"' := by simpa using quoted
        have none : betweenQuotes? (c :: inner) = none := by
          rw [betweenQuotes?.eq_def]
          split
          · rename_i rest same
            exact absurd (List.cons.inj same).1 other
          · rfl
        rw [none, List.cons_append,
          Text.trimStart_cons_of_not_blank trimmed.not_blank_of_cons,
          Text.after?_of_head? (c := '"') rfl (by simpa using other)]
        rfl

theorem columnName?_of_spelled
    (apart : before ≠ some '@') (behind : StartsApart rest)
    (spelled : Attribute.IsSpelled cut source)
    (candid : Attribute.IsCandid cut source) :
    columnName? before (cut ++ rest) = source.column? := by
  have known : "@map(".toList ∈ fieldMarks := by decide
  cases spelled with
  | bare isName =>
      have none : Attribute.column? ⟨cut, none⟩ = none := by
        rw [Attribute.column?]
        split_ifs
        · rfl
        · rfl
      rw [none]
      apply isLed_columnName?
      intro starts
      have inside := prefix_of_startsApart known behind isName.ne_nil starts
      have bracket : '(' ∈ cut := inside.subset (by decide)
      exact isName.not_mem (by decide) bracket
  | @call name raw closing isName nested closes =>
      by_cases mapping : name = "@map"
      · obtain rfl := candid.closing_eq closes
        subst mapping
        obtain ⟨lead, tail, whole, blankLead, blankTail⟩ := Text.exists_trim_append raw
        have call := columnName?_call apart (Text.isTrimmed_trim raw)
          (nesting_trim nested) (candid.mapping rfl _ rfl) blankLead blankTail rest
        rw [← whole] at call
        have regroup : "@map".toList ++ '(' :: (raw ++ [')']) ++ rest =
            "@map(".toList ++ (raw ++ ')' :: rest) := by
          simp
        rw [regroup, call]
        rfl
      · have none : Attribute.column? ⟨name, some (Text.trim raw)⟩ = none :=
          if_neg mapping
        rw [none]
        apply isLed_columnName?
        rintro ⟨more, same⟩
        have regroup : "@map".toList ++ '(' :: more =
            name ++ '(' :: (raw ++ [closing] ++ rest) := by
          simpa using same
        have inName := prefix_of_append_cons (by decide) ⟨_, regroup⟩
        have inMark := prefix_of_append_cons (isName.not_mem (by decide)) ⟨_, regroup.symm⟩
        exact mapping (inMark.eq_of_length_le inName.length_le)

/-! ## Native types -/

/-- A native type is a word with the arguments right behind it. -/
theorem nativeType?_append
    {word more : Text} (run : ∀ c ∈ word, Text.isWord c = true)
    (ends : ∀ c ∈ more.head?, Text.isWord c = false) :
    nativeType? ("@db." ++ (word ++ more)) =
      if word = [] then none else some (word ++ parenthesised more) := by
  obtain ⟨taken, dropped⟩ := Text.takeWhile_append_of_head run ends
  rw [nativeType?, Text.after?_append]
  simp only [Option.bind_eq_bind, Option.bind_some, taken, dropped]
  cases word with
  | nil => rfl
  | cons c word => rfl

theorem nativeType?_of_spelled
    (behind : StartsApart rest) (spelled : Attribute.IsSpelled cut source)
    (candid : Attribute.IsCandid cut source) :
    nativeType? (cut ++ rest) = Attribute.nativeType? cut := by
  have known : "@db.".toList ∈ fieldMarks := by decide
  by_cases starts : "@db.".toList <+: cut
  · cases spelled with
    | bare isName =>
        obtain ⟨word, rfl⟩ := starts
        obtain ⟨run, _⟩ := candid.nativeType word rfl
        have here := nativeType?_append run fun c first => (behind.ends c first).1
        have own := Attribute.nativeType?_append run
          (show ∀ c ∈ ([] : Text).head?, Text.isWord c = false by simp)
        rw [List.append_nil] at own
        rw [List.append_assoc, here, own, behind.parenthesised_eq, List.append_nil]
    | @call name raw closing isName _ closes =>
        obtain rfl := candid.closing_eq closes
        obtain ⟨word, rfl⟩ := prefix_of_append_cons (by decide) starts
        obtain ⟨run, plain⟩ := candid.nativeType word rfl
        have inner : ')' ∉ raw :=
          fun bracket => plain _ rfl (Text.mem_trim (by decide) bracket)
        have ends : ∀ c ∈ ('(' :: raw ++ ')' :: rest).head?,
            Text.isWord c = false := by
          rintro c ⟨⟩
          decide
        have ownEnds : ∀ c ∈ ('(' :: (raw ++ [')'])).head?,
            Text.isWord c = false := by
          rintro c ⟨⟩
          decide
        have regroup : "@db.".toList ++ word ++ '(' :: (raw ++ [')']) ++ rest =
            "@db." ++ (word ++ ('(' :: raw ++ ')' :: rest)) := by
          simp
        rw [regroup, nativeType?_append run ends, parenthesised_append inner,
          List.append_assoc, Attribute.nativeType?_append run ownEnds]
        rfl
  · have none : Attribute.nativeType? cut = none := by
      rw [Attribute.nativeType?, Text.after?_of_not_prefix starts]
      rfl
    rw [none]
    apply isLed_nativeType? Option.none
    intro reaches
    exact starts (prefix_of_startsApart known behind spelled.ne_nil reaches)

end Mining

end SchemaCompose
