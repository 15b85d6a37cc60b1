import SchemaCompose.Proofs.Mining.Candid
import SchemaCompose.Proofs.Mining.Kept
import SchemaCompose.Proofs.Mining.Updates
import SchemaCompose.Proofs.Reading.RespacedLines

/-!
# Recognisers and white space

The recognisers look for their marks in the whole text of a line.  White space beside a
colon, a comma or a bracket parts no mark but one (`Mining.prefix_of_beside`), and what is
recognised behind a mark does not depend on it, unless a recogniser copies what stands there
(`Mining.IsUnseen`).  So the same is recovered from the line, whatever white space stands at
the place (`Mining.IsUnseen.extrasOf_eq`).
-/

namespace SchemaCompose

open Text

/-- What is seen first behind a text depends on what is seen first there. -/
theorem Text.head?_trimStart_append {rest rest' : Text} (same : trimStart rest = trimStart rest')
    (text : Text) :
    (trimStart (text ++ rest)).head? = (trimStart (text ++ rest')).head? := by
  cases start : trimStart text with
  | nil =>
      have blank : ∀ c ∈ text, isBlank c = true := List.dropWhile_eq_nil_iff.mp start
      rw [trimStart_append_of_blank blank, trimStart_append_of_blank blank, same]
  | cons c others =>
      rw [trimStart_append_of_visible (by simp [start]),
        trimStart_append_of_visible (by simp [start]), start]
      rfl

namespace Mining

open Attribute.Place

variable {α : Type} {recognise : Option Char → Text → Option α}
  {front back gap fresh mark : Text}

/-! ## Marks at a place -/

/-- What a line holds around a place beside a mark. -/
structure IsAround (front back : Text) : Prop where
  filled : front ≠ []
  beside : IsBeside front back
  silent : beforeComment .outside front = front
  closed : LiteralState.run .outside front = .outside

/-- The characters that white space stands beside are none of a mark but its last one. -/
structure IsSolid (mark : Text) : Prop where
  filled : mark ≠ []
  visible : ∀ c ∈ mark, isBlank c = false
  inner : ∀ c ∈ mark.dropLast, c ∉ [':', ',', '(', '[', ')', ']']

/-- If the mark ends with a character that white space may stand in front of, then it is not
parted there. -/
def IsWhole (mark front back : Text) : Prop :=
  ∀ c ∈ [':', ',', ')', ']'], mark.getLast? = some c →
    mark.dropLast <:+ front → back.head? ≠ some c

theorem isWhole_of_getLast? (other : ∀ c ∈ [':', ',', ')', ']'], mark.getLast? ≠ some c)
    (front back : Text) : IsWhole mark front back :=
  fun c closer last => absurd last (other c closer)

/-- At a place beside a mark no pattern begins in front of the white space and ends behind it,
unless it ends with the mark. -/
theorem prefix_of_beside {piece : Text} (beside : IsBeside front back) (blank : IsGap gap)
    (suffix : piece <:+ front) (filled : piece ≠ []) (solid : IsSolid mark)
    (whole : IsWhole mark front back)
    (starts : mark <+: piece ++ (gap ++ back)) : mark <+: piece := by
  rcases List.prefix_or_prefix_of_prefix starts (List.prefix_append piece _) with
    inside | ⟨further, rfl⟩
  · exact inside
  · cases further with
    | nil => simp
    | cons c further =>
        exfalso
        rw [List.prefix_append_right_inj] at starts
        cases gap with
        | cons d gap =>
            obtain rfl : c = d := (List.cons_prefix_cons.mp starts).1
            have unseen := blank c List.mem_cons_self
            rw [solid.visible c (by simp)] at unseen
            contradiction
        | nil =>
            obtain ⟨more, rfl⟩ := starts
            rcases beside with before | behind
            · obtain ⟨lead, rfl⟩ := suffix
              have last := List.getLast?_eq_some_getLast filled
              refine solid.inner (piece.getLast filled) ?_ ?_
              · rw [List.dropLast_append_cons]
                exact List.mem_append_left _ (List.getLast_mem filled)
              · have opener := before (piece.getLast filled)
                  (by rw [List.getLast?_append_of_ne_nil _ filled, last]; rfl)
                simp only [List.mem_cons, List.not_mem_nil, or_false] at opener ⊢
                tauto
            · have closer := behind c rfl
              cases further with
              | nil => exact whole c closer (by simp) (by simpa using suffix) rfl
              | cons d others =>
                  refine solid.inner c ?_ ?_
                  · rw [List.dropLast_append_cons]
                    simp
                  · simp only [List.mem_cons, List.not_mem_nil, or_false] at closer ⊢
                    tauto

/-- A search goes on alike where it does so at each place of the text in front and behind
it. -/
theorem firstMatch_append_congr {right right' : Text}
    (each : ∀ before piece, piece <:+ front → piece ≠ [] →
      recognise before (piece ++ right) = recognise before (piece ++ right'))
    (before : Option Char)
    (behind : firstMatch recognise (front.getLast?.or before) right =
      firstMatch recognise (front.getLast?.or before) right') :
    firstMatch recognise before (front ++ right) =
      firstMatch recognise before (front ++ right') := by
  induction front generalizing before with
  | nil => exact behind
  | cons c front ih =>
      have here := each before (c :: front) List.suffix_rfl (by simp)
      have further := ih
        (fun before piece suffix => each before piece (suffix.trans (List.suffix_cons c front)))
        (some c) (by rwa [getLast?_cons_eq_or, Option.or_assoc] at behind)
      rw [List.cons_append, List.cons_append] at here ⊢
      rw [firstMatch, firstMatch, here, further]

/-- The character in front of a text does not matter unless a sign stands there and the text
starts with one. -/
def IsUnjoined (back : Text) (before : Option Char) : Prop :=
  before ≠ some '@' ∨ back.head? ≠ some '@'

theorem IsAround.isUnjoined (around : IsAround front back) (blank : IsGap gap)
    (before : Option Char) :
    IsUnjoined back (gap.getLast?.or (front.getLast?.or before)) := by
  rcases gap.eq_nil_or_concat with rfl | ⟨init, c, rfl⟩
  · rcases around.beside with opener | closer
    · left
      intro sign
      rw [List.getLast?_eq_some_getLast around.filled] at sign opener
      exact absurd (opener '@' (by simpa using sign)) (by decide)
    · exact Or.inr fun sign => absurd (closer '@' sign) (by decide)
  · left
    rw [List.concat_eq_append, List.getLast?_concat] at *
    rintro ⟨⟩
    exact blank.not_mem (show isBlank '@' = false by decide) (by simp)

/-- A recogniser that is led by a mark finds the same in a line whatever white space stands at
a place, if it does so behind each mark in front of the place. -/
theorem IsLed.firstMatch_respaced (led : IsLed mark recognise) (around : IsAround front back)
    (solid : IsSolid mark) (whole : IsWhole mark front back)
    (call : ∀ before lead rest, front = lead ++ (mark ++ rest) →
      recognise before (mark ++ (rest ++ (gap ++ back))) =
        recognise before (mark ++ (rest ++ (fresh ++ back))))
    (unjoined : ∀ before other, IsUnjoined back before → IsUnjoined back other →
      recognise before back = recognise other back)
    (blank : IsGap gap) (blank' : IsGap fresh) (before : Option Char) :
    firstMatch recognise before (front ++ (gap ++ back)) =
      firstMatch recognise before (front ++ (fresh ++ back)) := by
  have passes : ∀ space : Text, IsGap space → ∀ before,
      firstMatch recognise before (space ++ back) =
        firstMatch recognise (space.getLast?.or before) back := by
    intro space blank before
    apply Mining.firstMatch_append
    intro other place suffix filled
    obtain ⟨c, others, rfl⟩ := List.exists_cons_of_ne_nil filled
    apply led
    intro starts
    obtain ⟨d, further, rfl⟩ := List.exists_cons_of_ne_nil solid.filled
    obtain rfl : d = c := (List.cons_prefix_cons.mp starts).1
    exact blank.not_mem (solid.visible d List.mem_cons_self) (suffix.subset List.mem_cons_self)
  have first : ∀ before other, IsUnjoined back before → IsUnjoined back other →
      firstMatch recognise before back = firstMatch recognise other back := by
    intro before other isUnjoined isUnjoined'
    have same := unjoined before other isUnjoined isUnjoined'
    cases back with
    | nil => exact same
    | cons c back => rw [firstMatch, firstMatch, same]
  apply firstMatch_append_congr
  · intro before piece suffix filled
    by_cases starts : mark <+: piece
    · obtain ⟨rest, rfl⟩ := starts
      obtain ⟨lead, rfl⟩ := suffix
      rw [List.append_assoc, List.append_assoc]
      exact call before lead rest rfl
    · have none : ∀ space : Text, IsGap space →
          recognise before (piece ++ (space ++ back)) = none := by
        intro space blank
        apply led
        exact fun reaches => starts
          (prefix_of_beside around.beside blank suffix filled solid whole reaches)
      rw [none gap blank, none fresh blank']
  · rw [passes gap blank, passes fresh blank']
    exact first _ _ (around.isUnjoined blank before) (around.isUnjoined blank' before)

/-! ## What stands behind a mark -/

/-- The state of the scanner behind what stands in front of a mark. -/
theorem IsAround.run_behind (around : IsAround front back) {lead rest : Text}
    (parted : front = lead ++ rest) :
    (LiteralState.run .outside lead).run rest = .outside := by
  rw [← LiteralState.run_append, ← parted]
  exact around.closed

/-- What the recogniser of column names finds behind its mark depends on what is seen first
behind a text that ends its literals. -/
theorem columnName?_respaced {rest right right' : Text} (before : Option Char)
    (ends : LiteralState.run .outside rest = .outside)
    (same : trimStart right = trimStart right') :
    columnName? before ("@map(" ++ (rest ++ right)) =
      columnName? before ("@map(" ++ (rest ++ right')) := by
  by_cases joined : before = some '@'
  · simp [columnName?, joined]
  · cases start : trimStart rest with
    | nil =>
        have blank : ∀ c ∈ rest, isBlank c = true := List.dropWhile_eq_nil_iff.mp start
        rw [columnName?_append joined, columnName?_append joined,
          trimStart_append_of_blank blank, trimStart_append_of_blank blank, same]
    | cons c others =>
        have whole := List.takeWhile_append_dropWhile (p := isBlank) (l := rest)
        rw [← trimStart, start] at whole
        have blank : IsGap (rest.takeWhile isBlank) := fun c => List.mem_takeWhile_imp
        by_cases quote : c = '"'
        · subst quote
          -- The literal that begins here ends in front of the place.
          have quoted : '"' ∈ others := by
            by_contra plain
            rw [← whole, LiteralState.run_append, (balanced_of_blank blank).run_eq] at ends
            exact LiteralState.run_ne_outside (by decide) plain ends
          obtain ⟨name, further, rfl, plain⟩ := List.eq_append_cons_of_mem quoted
          have parted : ∀ more : Text, rest ++ more =
              rest.takeWhile isBlank ++ '"' :: (name ++ '"' :: (further ++ more)) := by
            intro more
            conv_lhs => rw [← whole]
            simp
          rw [parted, parted, columnName?_literal joined blank plain,
            columnName?_literal joined blank plain, head?_trimStart_append same]
        · have none : ∀ more : Text, columnName? before ("@map(" ++ (rest ++ more)) = none := by
            intro more
            rw [columnName?_append joined, trimStart_append_of_visible (by simp [start]), start,
              after?_of_head? (c := '"') rfl (by simpa using quote)]
            rfl
          rw [none, none]

/-- Behind what ends with no mark stands white space or a mark. -/
theorem IsAround.head_apart (around : IsAround front back) (blank : IsGap gap)
    (last : ∀ c ∈ front.getLast?, c ∉ [':', ',', '(', '[']) :
    ∀ c ∈ (gap ++ back).head?, isWord c = false ∧ c ≠ '(' := by
  intro c first
  cases gap with
  | cons d gap =>
      obtain rfl : d = c := Option.some.inj first
      refine ⟨not_isWord_of_isBlank (blank d List.mem_cons_self), ?_⟩
      rintro rfl
      exact blank.not_mem (show isBlank '(' = false by decide) List.mem_cons_self
  | nil =>
      rcases around.beside with opener | closer
      · have end_ := List.getLast?_eq_some_getLast around.filled
        exact absurd (opener _ end_) (last _ end_)
      · have each : ∀ c ∈ [':', ',', ')', ']'], isWord c = false ∧ c ≠ '(' := by decide
        exact each c (closer c first)

theorem parenthesised_of_head? {text : Text} (other : text.head? ≠ some '(') :
    parenthesised text = [] := by
  rw [parenthesised.eq_def]
  split
  · exact absurd rfl other
  · rfl

/-- What the recogniser of native types finds behind its mark ends where its arguments are
closed, or else with its name. -/
theorem nativeType?_append_of_closed {rest right : Text}
    (apart : (∀ c ∈ rest, isWord c = true) → ∀ c ∈ right.head?, isWord c = false ∧ c ≠ '(')
    (closed : (rest.dropWhile isWord).head? = some '(' → ')' ∈ rest.dropWhile isWord) :
    nativeType? ("@db." ++ (rest ++ right)) = nativeType? ("@db." ++ rest) := by
  have whole := List.takeWhile_append_dropWhile (p := isWord) (l := rest)
  have run : ∀ c ∈ rest.takeWhile isWord, isWord c = true := fun c => List.mem_takeWhile_imp
  have ends : ∀ c ∈ (rest.dropWhile isWord ++ right).head?, isWord c = false := by
    cases behind : rest.dropWhile isWord with
    | nil =>
        have words : ∀ c ∈ rest, isWord c = true := List.dropWhile_eq_nil_iff.mp behind
        exact fun c first => (apart words c first).1
    | cons d others =>
        rintro c ⟨⟩
        have stops := List.head?_dropWhile_not isWord rest
        rw [behind] at stops
        simpa using stops
  have same : parenthesised (rest.dropWhile isWord ++ right) =
      parenthesised (rest.dropWhile isWord) := by
    cases behind : rest.dropWhile isWord with
    | nil =>
        have words : ∀ c ∈ rest, isWord c = true := List.dropWhile_eq_nil_iff.mp behind
        exact parenthesised_of_head? fun opens => (apart words '(' opens).2 rfl
    | cons d others =>
        by_cases opens : d = '('
        · subst opens
          have closing : ')' ∈ others := by
            have member := closed (by rw [behind]; rfl)
            rw [behind] at member
            simpa using member
          obtain ⟨inner, more, rfl, plain⟩ := List.eq_append_cons_of_mem closing
          have regroup : '(' :: (inner ++ ')' :: more) ++ right =
              '(' :: inner ++ ')' :: (more ++ right) := by
            simp
          rw [regroup, parenthesised_append plain, ← parenthesised_append plain more]
          rfl
        · rw [parenthesised_of_head? (by simpa using opens),
            parenthesised_of_head? (by simpa using opens)]
  obtain ⟨taken, dropped⟩ := takeWhile_append_of_head run ends
  rw [← List.append_assoc, whole] at taken dropped
  rw [nativeType?, nativeType?, after?_append, after?_append]
  simp only [Option.bind_eq_bind, Option.bind_some, taken, dropped, same]

/-- Whether a word stands in front does not depend on what follows behind something that is no
part of a word. -/
theorem atWordEnd_after?_append_of_last {word text : Text}
    (run : word ≠ [] ∧ ∀ c ∈ word, isWord c = true)
    (filled : text ≠ []) (last : ∀ c ∈ text.getLast?, isWord c = false) (more : Text) :
    (after? word (text ++ more)).any atWordEnd = (after? word text).any atWordEnd := by
  have end_ := last _ (List.getLast?_eq_some_getLast filled)
  have short : ¬ text <+: word := by
    intro inside
    have isWord := run.2 _ (inside.subset (List.getLast_mem filled))
    rw [end_] at isWord
    contradiction
  by_cases starts : word <+: text
  · obtain ⟨behind, rfl⟩ := starts
    cases behind with
    | nil => exact absurd (by simp) short
    | cons c behind => rw [List.append_assoc, after?_append, after?_append]; rfl
  · have further : ¬ word <+: text ++ more := by
      intro reaches
      rcases List.prefix_or_prefix_of_prefix reaches (List.prefix_append text more) with
        inside | beyond
      · exact starts inside
      · exact short beyond
    rw [Text.after?_of_not_prefix starts, Text.after?_of_not_prefix further]

theorem onUpdate?_respaced {lead rest : Text} (around : IsAround front back)
    (parted : front = lead ++ ("onUpdate:" ++ rest)) (blank : IsGap gap)
    (blank' : IsGap fresh) :
    onUpdate? ("onUpdate:" ++ (rest ++ (gap ++ back))) =
      onUpdate? ("onUpdate:" ++ (rest ++ (fresh ++ back))) := by
  rw [onUpdate?_eq_find?, onUpdate?_eq_find?]
  apply List.find?_congr
  intro action member
  have run := isWord_of_mem_relationActions action member
  cases start : trimStart rest with
  | nil =>
      have inRest : ∀ c ∈ rest, isBlank c = true := List.dropWhile_eq_nil_iff.mp start
      rw [trimStart_append_of_blank inRest, trimStart_append_of_blank inRest,
        trimStart_append_of_blank blank, trimStart_append_of_blank blank']
  | cons c others =>
      have each : ∀ space, IsGap space →
          (after? action (trimStart (rest ++ (space ++ back)))).any atWordEnd =
            (after? action (trimStart rest)).any atWordEnd := by
        intro space blank
        have filled : trimStart rest ≠ [] := by simp [start]
        rw [trimStart_append_of_visible filled]
        have sameLast : (trimStart rest).getLast? = front.getLast? := by
          have whole := List.takeWhile_append_dropWhile (p := isBlank) (l := rest)
          rw [← trimStart] at whole
          have regroup : front = (lead ++ "onUpdate:" ++ rest.takeWhile isBlank) ++
              trimStart rest := by
            rw [parted, List.append_assoc, whole, List.append_assoc]
          rw [regroup, List.getLast?_append_of_ne_nil _ filled]
        by_cases opener : ∃ c ∈ front.getLast?, c ∈ [':', ',', '(', '[']
        · obtain ⟨c, last, opens⟩ := opener
          apply atWordEnd_after?_append_of_last run filled
          rw [sameLast, last]
          rintro d ⟨⟩
          have each : ∀ c ∈ [':', ',', '(', '['], isWord c = false := by decide
          exact each c opens
        · apply atWordEnd_after?_append run.2 filled
          intro c first
          exact (around.head_apart blank (fun d last opens => opener ⟨d, last, opens⟩) c first).1
      rw [each gap blank, each fresh blank']

/-! ## Directives -/

theorem isLed_directive? (name : Text) : IsLed "//" (directive? name) := by
  intro before text other
  rw [directive?, isDirective, after?_of_not_prefix other]
  rfl

/-- A directive that begins inside of a literal is over where the literal ends. -/
theorem isDirective_append_of_quote {fold : Char → Char} {name rest : Text} (quote : '"' ∈ rest)
    (folded : fold '"' = '"') (plain : '"' ∉ name) (right : Text) :
    isDirective fold name ("//" ++ (rest ++ right)) = isDirective fold name ("//" ++ rest) := by
  have inside : '"' ∈ trimStart rest := (prefix_trimEnd _).subset (mem_trim (by decide) quote)
  have filled := List.ne_nil_of_mem inside
  rw [isDirective, isDirective, after?_append, after?_append]
  dsimp only
  rw [trimStart_append_of_visible filled]
  obtain ⟨c, others, start⟩ := List.exists_cons_of_ne_nil filled
  rw [start] at inside ⊢
  by_cases sign : c = '@'
  · subst sign
    have member : '"' ∈ others := by simpa using inside
    have opened : ∀ text : Text, after? "@" ('@' :: text) = some text := fun _ => rfl
    rw [List.cons_append, opened, opened]
    dsimp only
    by_cases short : name.length < others.length
    · rw [List.take_append_of_le_length short.le, List.drop_append_of_le_length short.le]
      obtain ⟨d, behind, further⟩ :=
        List.exists_cons_of_ne_nil (List.drop_eq_nil_iff.not.mpr (not_le.mpr short))
      rw [further]
      rfl
    · have other : ∀ more : Text,
          ((others ++ more).take name.length).map fold ≠ name := by
        intro more same
        apply plain
        rw [← same, ← folded]
        apply List.mem_map_of_mem
        rw [List.take_append, List.take_of_length_le (not_lt.mp short)]
        exact List.mem_append_left _ member
      have other' := other []
      rw [List.append_nil] at other'
      rw [decide_eq_false (other right), decide_eq_false other']
      rfl
  · rw [List.cons_append, after?_of_head? (c := '@') rfl (by simpa using sign),
      after?_of_head? (c := '@') rfl (by simpa using sign)]

/-! ## One line -/

/-- No recogniser copies what stands at a place of a line, and none has its mark parted
there. -/
structure IsUnseen (front back : Text) : Prop where
  /-- An index is copied up to the last bracket of the line. -/
  index : ¬ "@@index(".toList <:+: front
  /-- A literal in which the mark of a mapping stands may end where that of the mapping
  begins. -/
  column : ∀ lead rest, front = lead ++ ("@map(" ++ rest) →
    LiteralState.run .outside lead = .outside
  /-- The arguments of a native type are copied up to the bracket that closes them. -/
  type : ∀ lead rest, front = lead ++ ("@db." ++ rest) →
    (rest.dropWhile isWord).head? = some '(' → ')' ∈ rest.dropWhile isWord
  /-- The key of an action on update is looked for together with its colon. -/
  update : "onUpdate".toList <:+ front → back.head? ≠ some ':'

/-- Where no mark stands in front, only the key of an action on update may be parted from its
colon. -/
theorem isUnseen_of_plain (index : ¬ "@@index(".toList <:+: front)
    (column : ¬ "@map(".toList <:+: front) (type : ¬ "@db.".toList <:+: front)
    (update : "onUpdate".toList <:+ front → back.head? ≠ some ':') : IsUnseen front back where
  index := index
  column lead rest parted := absurd ⟨lead, rest, by rw [parted, List.append_assoc]⟩ column
  type lead rest parted := absurd ⟨lead, rest, by rw [parted, List.append_assoc]⟩ type
  update := update

namespace IsUnseen

variable (unseen : IsUnseen front back) (around : IsAround front back) (blank : IsGap gap)
  (blank' : IsGap fresh)

include unseen around blank blank'

theorem extraIndex_eq :
    firstMatch (fun _ => extraIndex?) none (front ++ (gap ++ back)) =
      firstMatch (fun _ => extraIndex?) none (front ++ (fresh ++ back)) := by
  apply isLed_extraIndex?.firstMatch_respaced around (by constructor <;> decide)
    (isWhole_of_getLast? (by decide) _ _) _ (fun _ _ _ _ => rfl) blank blank'
  intro _ lead rest parted
  exact absurd ⟨lead, rest, by rw [parted, List.append_assoc]⟩ unseen.index

theorem columnName_eq :
    firstMatch columnName? none (front ++ (gap ++ back)) =
      firstMatch columnName? none (front ++ (fresh ++ back)) := by
  apply isLed_columnName?.firstMatch_respaced around (by constructor <;> decide)
    (isWhole_of_getLast? (by decide) _ _) _ _ blank blank'
  · intro before lead rest parted
    apply columnName?_respaced
    · have ends := around.run_behind parted
      rw [unseen.column lead rest parted, LiteralState.run_append] at ends
      exact ends
    · rw [trimStart_append_of_blank blank, trimStart_append_of_blank blank']
  · intro before other isUnjoined isUnjoined'
    by_cases sign : back.head? = some '@'
    · have first := isUnjoined.resolve_right (not_not.mpr sign)
      have second := isUnjoined'.resolve_right (not_not.mpr sign)
      simp only [columnName?, ne_eq, first, second, not_false_eq_true]
    · have unmarked : ¬ "@map(".toList <+: back := by
        rintro ⟨behind, rfl⟩
        exact sign rfl
      rw [isLed_columnName? before back unmarked, isLed_columnName? other back unmarked]

theorem nativeType_eq :
    firstMatch (fun _ => nativeType?) none (front ++ (gap ++ back)) =
      firstMatch (fun _ => nativeType?) none (front ++ (fresh ++ back)) := by
  apply isLed_nativeType?.firstMatch_respaced around (by constructor <;> decide)
    (isWhole_of_getLast? (by decide) _ _) _ (fun _ _ _ _ => rfl) blank blank'
  intro _ lead rest parted
  have each : ∀ space, IsGap space →
      nativeType? ("@db." ++ (rest ++ (space ++ back))) = nativeType? ("@db." ++ rest) := by
    intro space blank
    apply nativeType?_append_of_closed _ (unseen.type lead rest parted)
    intro words
    apply around.head_apart blank
    intro c last opener
    have regroup : front = lead ++ "@db" ++ ('.' :: rest) := by
      rw [parted, List.append_assoc]
      rfl
    rw [regroup, List.getLast?_append_of_ne_nil _ (List.cons_ne_nil '.' rest)] at last
    have apart : ∀ c ∈ [':', ',', '(', '['], c ≠ '.' ∧ isWord c = false := by decide
    rcases List.mem_cons.mp (List.mem_of_getLast? last) with dot | word
    · exact (apart c opener).1 dot
    · have isWord := words c word
      rw [(apart c opener).2] at isWord
      contradiction
  rw [each gap blank, each fresh blank']

theorem onUpdate_eq :
    firstMatch (fun _ => onUpdate?) none (front ++ (gap ++ back)) =
      firstMatch (fun _ => onUpdate?) none (front ++ (fresh ++ back)) := by
  apply isLed_onUpdate?.firstMatch_respaced around (by constructor <;> decide)
    _ _ (fun _ _ _ _ => rfl) blank blank'
  · intro c _ last starts
    obtain rfl : ':' = c := Option.some.inj last
    exact unseen.update starts
  · intro _ lead rest parted
    exact onUpdate?_respaced around parted blank blank'

omit unseen in
theorem hasDirective_eq {name : Text} (plain : '"' ∉ name) :
    hasDirective name (front ++ (gap ++ back)) =
      hasDirective name (front ++ (fresh ++ back)) := by
  rw [Mining.hasDirective_eq, Mining.hasDirective_eq]
  congr 1
  apply (isLed_directive? name).firstMatch_respaced around (by constructor <;> decide)
    (isWhole_of_getLast? (by decide) _ _) _ (fun _ _ _ _ => rfl) blank blank'
  intro _ lead rest parted
  -- Two slashes in front of the place stand in a literal, which ends in front of it.
  have quote : '"' ∈ rest := by
    have behind := around.silent
    rw [parted] at behind
    have slashes := (Text.beforeComment_of_append behind).2
    have literal : LiteralState.run .outside lead ≠ .outside := by
      intro outside
      rw [outside] at slashes
      contradiction
    by_contra plain
    have ends := around.run_behind parted
    rw [LiteralState.run_append] at ends
    exact LiteralState.run_ne_outside
      (LiteralState.run_ne_outside literal (by decide)) plain ends
  rw [directive?, directive?, isDirective_append_of_quote quote (by decide) plain,
    isDirective_append_of_quote quote (by decide) plain]

theorem extrasOf_eq : extrasOf (front ++ (gap ++ back)) = extrasOf (front ++ (fresh ++ back)) := by
  rw [extrasOf, extrasOf, unseen.columnName_eq around blank blank',
    unseen.nativeType_eq around blank blank', unseen.onUpdate_eq around blank blank',
    hasDirective_eq around blank blank' (by decide),
    hasDirective_eq around blank blank' (by decide),
    hasDirective_eq around blank blank' (by decide),
    hasDirective_eq around blank blank' (by decide)]

end IsUnseen

end Mining

end SchemaCompose
