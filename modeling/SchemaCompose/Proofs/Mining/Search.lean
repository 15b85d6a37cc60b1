import Mathlib.Data.List.Infix
import Mathlib.Data.List.TakeWhile
import Mathlib.Tactic.MkIffOfInductiveProp
import SchemaCompose.Mining.Pattern

/-!
# Searching a line

A recogniser is tried at every place of a line.  A line is searched piece by piece:
what is found in a piece (`Finds`) does not depend on what stands behind it, as
long as a blank stands between them, and the pieces of a line are composed from the
left (`Finds.append`).  What is found is recognised at one place, and at none in front of
it (`exists_append_of_firstMatch`).
-/

namespace SchemaCompose

/-! ## Patterns and separators -/

section Separator

variable {pattern left right : Text} {separator : Char}

/-- A pattern does not reach over a character that it does not hold. -/
theorem prefix_of_append_cons
    (absent : separator ∉ pattern)
    (starts : pattern <+: left ++ separator :: right) :
    pattern <+: left := by
  rcases List.prefix_or_prefix_of_prefix starts
    (List.prefix_append left _) with inside | beyond
  · exact inside
  · obtain ⟨more, rfl⟩ := beyond
    cases more with
    | nil => simp
    | cons c more =>
        rw [List.prefix_append_right_inj, List.cons_prefix_cons] at starts
        apply absurd _ absent
        rw [starts.1]
        simp

theorem infix_append_cons
    (absent : separator ∉ pattern)
    (found : pattern <:+: left ++ separator :: right) :
    pattern <:+: left ∨ pattern <:+: right := by
  induction left with
  | nil =>
      rcases List.infix_cons_iff.mp found with starts | behind
      · have inside : pattern <+: [] := prefix_of_append_cons absent starts
        exact Or.inl inside.isInfix
      · exact Or.inr behind
  | cons c left ih =>
      rcases List.infix_cons_iff.mp found with starts | behind
      · have inside : pattern <+: c :: left := prefix_of_append_cons absent starts
        exact Or.inl inside.isInfix
      · rcases ih behind with inside | inside
        · exact Or.inl (List.infix_cons inside)
        · exact Or.inr inside

/-- A pattern that holds nothing of a text does not reach into that text. -/
theorem infix_of_append_apart
    (filled : pattern ≠ []) (apart : ∀ c ∈ right, c ∉ pattern)
    (found : pattern <:+: left ++ right) : pattern <:+: left := by
  cases right with
  | nil => rwa [List.append_nil] at found
  | cons c right =>
      rw [List.forall_mem_cons] at apart
      rcases infix_append_cons apart.1 found with inside | inside
      · exact inside
      · obtain ⟨d, rest, rfl⟩ := List.exists_cons_of_ne_nil filled
        exact absurd List.mem_cons_self
          (apart.2 d (inside.subset List.mem_cons_self))

theorem infix_of_apart_append
    (filled : pattern ≠ []) (apart : ∀ c ∈ left, c ∉ pattern)
    (found : pattern <:+: left ++ right) : pattern <:+: right := by
  induction left with
  | nil => exact found
  | cons c left ih =>
      rw [List.forall_mem_cons] at apart
      rw [← List.nil_append (c :: left), List.append_assoc, List.cons_append] at found
      rcases infix_append_cons apart.1 found with inside | inside
      · exact absurd (List.infix_nil.mp inside) filled
      · exact ih apart.2 inside

/-- A pattern is found behind a text that does not hold its first character. -/
theorem infix_of_append_of_head
    {first : Char} (starts : pattern.head? = some first) (absent : first ∉ left)
    (found : pattern <:+: left ++ right) : pattern <:+: right := by
  obtain ⟨rest, rfl⟩ := List.head?_eq_some_iff.mp starts
  induction left with
  | nil => exact found
  | cons c left ih =>
      rw [List.mem_cons, not_or] at absent
      rcases List.infix_cons_iff.mp found with here | inside
      · exact absurd (List.cons_prefix_cons.mp here).1 absent.1
      · exact ih absent.2 inside

/-- A pattern does not reach over the end of a text where only a first character of
it may follow. -/
theorem prefix_of_append_apart
    (filled : left ≠ []) (apart : ∀ c ∈ right.head?, c ∉ pattern.tail)
    (starts : pattern <+: left ++ right) : pattern <+: left := by
  rcases List.prefix_or_prefix_of_prefix starts
    (List.prefix_append left right) with inside | beyond
  · exact inside
  · obtain ⟨more, rfl⟩ := beyond
    cases more with
    | nil => simp
    | cons c more =>
        rw [List.prefix_append_right_inj] at starts
        obtain ⟨tail, rfl⟩ := starts
        obtain ⟨d, others, rfl⟩ := List.exists_cons_of_ne_nil filled
        exact absurd (by simp) (apart c rfl)

end Separator

namespace Mining

/-- A piece of a line ends where this text starts. -/
def StartsBlank (rest : Text) : Prop :=
  ∀ c ∈ rest.head?, Text.isBlank c = true

theorem startsBlank_nil : StartsBlank [] := by
  rintro c ⟨⟩

theorem startsBlank_space (rest : Text) : StartsBlank (' ' :: rest) := by
  rintro c ⟨⟩
  decide

theorem StartsBlank.append {left right : Text} (first : StartsBlank left)
    (second : StartsBlank right) :
    StartsBlank (left ++ right) := by
  cases left with
  | nil => exact second
  | cons c left =>
      rintro d ⟨⟩
      exact first c rfl

variable {α : Type} {recognise : Option Char → Text → Option α}
  {before : Option Char}
  {mark piece left right rest tail : Text} {found other : Option α}

/-- The recogniser sees nothing where a piece of a line has ended. -/
def IsBlindToBlanks (recognise : Option Char → Text → Option α) : Prop :=
  ∀ before rest, StartsBlank rest → recognise before rest = none

/-- The recogniser sees something only where the mark stands. -/
def IsLed (mark : Text) (recognise : Option Char → Text → Option α) : Prop :=
  ∀ before text, ¬ mark <+: text → recognise before text = none

/-- A mark is not empty and holds no white space. -/
def IsUnbroken (mark : Text) : Prop :=
  mark ≠ [] ∧ ∀ c ∈ mark, Text.isBlank c = false

instance : DecidablePred IsUnbroken := fun mark =>
  inferInstanceAs (Decidable (mark ≠ [] ∧ ∀ c ∈ mark, Text.isBlank c = false))

/-- A mark does not reach over the end of a piece. -/
theorem IsUnbroken.prefix_of_startsBlank (unbroken : IsUnbroken mark)
    (blank : StartsBlank rest) (starts : mark <+: piece ++ rest) : mark <+: piece := by
  cases rest with
  | nil => rwa [List.append_nil] at starts
  | cons c rest =>
      apply prefix_of_append_cons _ starts
      intro member
      have visible := unbroken.2 c member
      rw [blank c rfl] at visible
      contradiction

theorem IsLed.isBlindToBlanks (led : IsLed mark recognise) (unbroken : IsUnbroken mark) :
    IsBlindToBlanks recognise := by
  intro before rest blank
  apply led
  intro starts
  exact unbroken.1 (List.prefix_nil.mp (unbroken.prefix_of_startsBlank blank starts))

/-! ## Passing over text -/

theorem findSome?_cons_eq_or {β : Type} (search : β → Option α) (item : β)
    (others : List β) :
    (item :: others).findSome? search = (search item).or (others.findSome? search) := by
  rw [List.findSome?_cons]
  cases search item with
  | none => rfl
  | some found => rfl

theorem firstMatch_cons_of_none {c : Char}
    (none : recognise before (c :: rest) = none) :
    firstMatch recognise before (c :: rest) =
      firstMatch recognise (some c) rest := by
  rw [firstMatch, none]

theorem firstMatch_of_some {text : Text} {value : α}
    (here : recognise before text = some value) :
    firstMatch recognise before text = some value := by
  cases text with
  | nil => exact here
  | cons c rest => rw [firstMatch, here]

theorem getLast?_cons_eq_or (c : Char) (text : Text) :
    (c :: text).getLast? = text.getLast?.or (some c) := by
  rw [List.getLast?_cons]
  cases text.getLast? with
  | none => rfl
  | some last => rfl

/-- What a search finds is recognised at some place, and nothing is recognised in front
of it. -/
theorem exists_append_of_firstMatch
    {text : Text} {value : α} (found : firstMatch recognise before text = some value) :
    ∃ lead place, text = lead ++ place ∧
      (∃ before, recognise before place = some value) ∧
      ∀ left right, lead = left ++ right → right ≠ [] →
        ∃ before, recognise before (right ++ place) = none := by
  induction text generalizing before with
  | nil => exact ⟨[], [], rfl, ⟨before, found⟩, by simp⟩
  | cons c rest ih =>
      rw [firstMatch] at found
      split at found
      · rename_i here recognised
        obtain rfl := Option.some.inj found
        exact ⟨[], c :: rest, rfl, ⟨before, recognised⟩, by simp⟩
      · rename_i silent
        obtain ⟨lead, place, rfl, recognised, earlier⟩ := ih found
        refine ⟨c :: lead, place, rfl, recognised, ?_⟩
        intro left right whole filled
        cases left with
        | nil =>
            obtain rfl : c :: lead = right := whole
            exact ⟨before, silent⟩
        | cons d left => exact earlier left right (List.cons.inj whole).2 filled

/-- Where nothing is recognised at any place of a text, the search goes on behind
it. -/
theorem firstMatch_append
    (silent : ∀ before place, place <:+ left → place ≠ [] →
      recognise before (place ++ rest) = none)
    (before : Option Char) :
    firstMatch recognise before (left ++ rest) =
      firstMatch recognise (left.getLast?.or before) rest := by
  induction left generalizing before with
  | nil => rfl
  | cons c left ih =>
      have here : recognise before (c :: (left ++ rest)) = none :=
        silent before (c :: left) List.suffix_rfl (by simp)
      have further := ih
        (fun before place suffix filled =>
          silent before place
            (suffix.trans (List.suffix_cons c left)) filled) (some c)
      rw [List.cons_append, firstMatch_cons_of_none here, further,
        getLast?_cons_eq_or, Option.or_assoc]
      rfl

theorem IsLed.firstMatch_eq_none
    {text : Text} (led : IsLed mark recognise) (filled : mark ≠ [])
    (unmarked : ¬ mark <:+: text) (before : Option Char) :
    firstMatch recognise before text = none := by
  have passes : firstMatch recognise before (text ++ []) =
      firstMatch recognise (text.getLast?.or before) [] := by
    apply firstMatch_append
    intro other place suffix _
    apply led
    intro starts
    rw [List.append_nil] at starts
    exact unmarked (starts.isInfix.trans suffix.isInfix)
  rw [List.append_nil] at passes
  exact passes.trans (led _ [] fun starts => filled (List.prefix_nil.mp starts))

theorem firstMatch_of_startsBlank
    (blind : IsBlindToBlanks recognise) (blank : StartsBlank rest)
    (before : Option Char) :
    firstMatch recognise before rest = firstMatch recognise none rest := by
  cases rest with
  | nil => exact (blind before [] blank).trans (blind none [] blank).symm
  | cons c rest =>
      rw [firstMatch_cons_of_none (blind before _ blank),
        firstMatch_cons_of_none (blind none _ blank)]

/-! ## Pieces of a line -/

/-- What the recogniser finds in a piece of a line, whatever stands behind the next
blank. -/
def Finds (recognise : Option Char → Text → Option α) (piece : Text)
    (found : Option α) : Prop :=
  ∀ before rest, StartsBlank rest →
    firstMatch recognise before (piece ++ rest) =
      found.or (firstMatch recognise none rest)

theorem finds_nil (blind : IsBlindToBlanks recognise) :
    Finds recognise [] none := by
  intro before rest blank
  exact firstMatch_of_startsBlank blind blank before

/-- The pieces of a line are searched from the left. -/
theorem Finds.append
    (first : Finds recognise left found) (second : Finds recognise right other)
    (blank : StartsBlank right) :
    Finds recognise (left ++ right) (found.or other) := by
  intro before rest restBlank
  rw [List.append_assoc, first before _ (blank.append restBlank),
    second none rest restBlank, Option.or_assoc]

theorem Finds.firstMatch_eq
    (finds : Finds recognise piece found) (blind : IsBlindToBlanks recognise) :
    firstMatch recognise none piece = found := by
  have whole := finds none [] startsBlank_nil
  have none : firstMatch recognise none [] = none := blind none [] startsBlank_nil
  rwa [List.append_nil, none, Option.or_none] at whole

/-- A piece is not hidden by a text in front of it where nothing is recognised. -/
theorem Finds.behind
    {lead : Text} (finds : Finds recognise piece found)
    (silent : ∀ before place rest, place <:+ lead → place ≠ [] →
      recognise before (place ++ rest) = none) :
    Finds recognise (lead ++ piece) found := by
  intro before rest blank
  rw [List.append_assoc, firstMatch_append fun before place suffix filled =>
    silent before place _ suffix filled]
  exact finds _ rest blank

theorem finds_of_silent
    (blind : IsBlindToBlanks recognise)
    (silent : ∀ before place rest, place <:+ piece → place ≠ [] → StartsBlank rest →
      recognise before (place ++ rest) = none) :
    Finds recognise piece none := by
  intro before rest blank
  rw [firstMatch_append (fun before place suffix filled =>
    silent before place rest suffix filled blank),
      firstMatch_of_startsBlank blind blank]
  rfl

theorem IsLed.finds_none (led : IsLed mark recognise) (unbroken : IsUnbroken mark)
    (unmarked : ¬ mark <:+: piece) : Finds recognise piece none := by
  apply finds_of_silent (led.isBlindToBlanks unbroken)
  intro before place rest suffix filled blank
  apply led
  intro starts
  exact unmarked
    ((unbroken.prefix_of_startsBlank blank starts).isInfix.trans suffix.isInfix)

/-- In a piece with one mark in front, what is found is what is recognised there. -/
theorem IsLed.finds
    (led : IsLed mark recognise) (unbroken : IsUnbroken mark) (unmarked : ¬ mark <:+: tail)
    (here : ∀ rest, StartsBlank rest →
      recognise (some ' ') ('@' :: tail ++ rest) = found) :
    Finds recognise (' ' :: '@' :: tail) found := by
  intro before rest blank
  have space : recognise before (' ' :: '@' :: (tail ++ rest)) = none :=
    led.isBlindToBlanks unbroken before _ (startsBlank_space _)
  have sign := here rest blank
  rw [List.cons_append] at sign
  rw [List.cons_append, List.cons_append, firstMatch_cons_of_none space]
  cases found with
  | some value => exact firstMatch_of_some sign
  | none =>
      rw [firstMatch_cons_of_none sign]
      exact led.finds_none unbroken unmarked (some '@') rest blank

/-- A piece with two at-signs in front gives nothing when neither of them is
recognised. -/
theorem IsLed.finds_double
    (led : IsLed mark recognise) (unbroken : IsUnbroken mark) (unmarked : ¬ mark <:+: tail)
    (first : ∀ before rest, recognise before ('@' :: '@' :: (tail ++ rest)) = none)
    (second : ∀ rest, StartsBlank rest →
      recognise (some '@') ('@' :: (tail ++ rest)) = none) :
    Finds recognise ('@' :: '@' :: tail) none := by
  intro before rest blank
  rw [List.cons_append, List.cons_append,
    firstMatch_cons_of_none (first before rest),
    firstMatch_cons_of_none (second rest blank)]
  exact led.finds_none unbroken unmarked _ rest blank

/-! ## Texts without marks -/

/-- The marks that start with an at-sign. -/
def signMarks : List Text :=
  ["@map(", "@db.", "@@index("]

/-- The marks of everything that is recovered from a row but directives. -/
def rowMarks : List Text :=
  "onUpdate:" :: signMarks

/-- A comment starts here that begins with an at-sign, as one with a directive does. -/
def opensDirective (text : Text) : Bool :=
  (Text.after? "//" text).any fun behind => (Text.trimStart behind).head? = some '@'

/-- None of the marks stands in the text, and no directive starts in it. -/
@[mk_iff]
structure Lacks (marks : List Text) (text : Text) : Prop where
  unmarked : ∀ mark ∈ marks, ¬ mark <:+: text
  undirected : ∀ place ∈ text.tails, opensDirective place = false

instance (marks : List Text) : DecidablePred (Lacks marks) := fun text =>
  decidable_of_iff' _ (lacks_iff marks text)

/-- No mark stands in the text, and no directive starts in it. -/
abbrev IsInert (text : Text) : Prop :=
  Lacks rowMarks text

/-! ## The last bracket -/

section LastClosing

variable {text index left right : Text}

theorem throughLastClosing_append (absent : ')' ∉ right) :
    throughLastClosing (left ++ ')' :: right) = some (left ++ [')']) := by
  have passes : ∀ c ∈ right.reverse, decide (c ≠ ')') = true := by
    intro c member
    rw [List.mem_reverse] at member
    exact decide_eq_true fun same => absent (same ▸ member)
  have reversed : (left ++ ')' :: right).reverse =
      right.reverse ++ ')' :: left.reverse := by
    simp
  rw [throughLastClosing, reversed, List.dropWhile_append_of_pos passes]
  simp

theorem exists_last_of_mem {c : Char} (member : c ∈ text) :
    ∃ left right, text = left ++ c :: right ∧ c ∉ right := by
  obtain ⟨after, before, whole, absent⟩ :=
    List.eq_append_cons_of_mem (List.mem_reverse.mpr member)
  refine ⟨before.reverse, after.reverse, ?_, by rwa [List.mem_reverse]⟩
  rw [← List.reverse_reverse text, whole]
  simp

theorem exists_of_throughLastClosing (found : throughLastClosing text = some index) :
    ∃ kept behind, text = kept ++ ')' :: behind ∧ ')' ∉ behind ∧
      index = kept ++ [')'] := by
  have closes : ')' ∈ text := by
    by_contra absent
    have passes : ∀ c ∈ text.reverse, decide (c ≠ ')') = true := by
      intro c member
      exact decide_eq_true (ne_of_mem_of_not_mem (List.mem_reverse.mp member) absent)
    rw [throughLastClosing, List.dropWhile_eq_nil_iff.mpr passes] at found
    contradiction
  obtain ⟨kept, behind, rfl, last⟩ := exists_last_of_mem closes
  rw [throughLastClosing_append last] at found
  exact ⟨kept, behind, rfl, last, (Option.some.inj found).symm⟩

/-- A text has one last bracket. -/
theorem eq_of_last_closing
    {left' right' : Text} (same : left ++ ')' :: right = left' ++ ')' :: right')
    (last : ')' ∉ right) (last' : ')' ∉ right') : left = left' := by
  have through : throughLastClosing (left ++ ')' :: right) = some (left ++ [')']) :=
    throughLastClosing_append last
  rw [same, throughLastClosing_append last'] at through
  exact (List.append_cancel_right (Option.some.inj through)).symm

end LastClosing

end Mining

end SchemaCompose
