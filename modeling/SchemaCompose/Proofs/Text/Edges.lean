import Mathlib.Data.List.TakeWhile
import SchemaCompose.Text.Lines

/-!
# The edges of a text

Trimming depends on the first and the last character only.  A text is trimmed
(`IsTrimmed`) when neither of them is blank, and white space around a trimmed text
goes away.
-/

namespace SchemaCompose.Text

/-- A statement about the characters of a text is decided by looking at these
characters, and not by going through every character that there is. -/
instance (priority := high) decidableForallMem
    {Holds : Char → Prop} [DecidablePred Holds] (text : Text) :
      Decidable (∀ c ∈ text, Holds c) :=
  List.decidableBAll Holds text

instance (priority := high) decidableForallMemOption
    {Holds : Char → Prop} [DecidablePred Holds] (found : Option Char) :
    Decidable (∀ c ∈ found, Holds c) :=
  Option.decidableForallMem found

/-- No white space stands at either end. -/
def IsTrimmed (text : Text) : Prop :=
  trim text = text

instance : DecidablePred IsTrimmed := fun text =>
  inferInstanceAs (Decidable (trim text = text))

variable {text lead rest : Text} {c d : Char}

theorem trimStart_cons_of_blank (blank : isBlank c = true) :
    trimStart (c :: rest) = trimStart rest := by
  simp [trimStart, blank]

theorem trimStart_cons_of_not_blank (visible : isBlank c = false) :
    trimStart (c :: rest) = c :: rest := by
  simp [trimStart, visible]

theorem trimStart_append_of_blank
    (blank : ∀ c ∈ lead, isBlank c = true) (rest : Text) :
    trimStart (lead ++ rest) = trimStart rest := by
  induction lead with
  | nil => rfl
  | cons c lead ih =>
      rw [List.forall_mem_cons] at blank
      rw [List.cons_append, trimStart_cons_of_blank blank.1, ih blank.2]

theorem trimEnd_append_of_blank
    (text : Text) (blank : ∀ c ∈ rest, isBlank c = true) :
    trimEnd (text ++ rest) = trimEnd text := by
  have reversed : ∀ c ∈ rest.reverse, isBlank c = true := by
    simpa using blank
  rw [trimEnd, List.reverse_append, trimEnd]
  exact congrArg List.reverse (trimStart_append_of_blank reversed text.reverse)

theorem trimStart_of_head
    (visible : ∀ c ∈ text.head?, isBlank c = false) :
    trimStart text = text := by
  cases text with
  | nil => rfl
  | cons c rest => exact trimStart_cons_of_not_blank (visible c rfl)

theorem trimEnd_of_last
    (visible : ∀ c ∈ text.getLast?, isBlank c = false) :
    trimEnd text = text := by
  rw [trimEnd]
  have same : trimStart text.reverse = text.reverse := by
    apply trimStart_of_head
    simpa [List.head?_reverse] using visible
  rw [trimStart] at same
  rw [same, List.reverse_reverse]

theorem trimEnd_append_of_visible
    (visible : ∀ c ∈ text.getLast?, isBlank c = false) (rest : Text) :
    trimEnd (text ++ rest) = text ++ trimEnd rest := by
  rw [trimEnd, List.reverse_append, List.dropWhile_append]
  split
  · rename_i empty
    have blank : trimEnd rest = [] := by
      rw [trimEnd, List.isEmpty_iff.mp empty]
      rfl
    rw [blank, List.append_nil]
    exact trimEnd_of_last visible
  · rw [List.reverse_append, List.reverse_reverse]
    rfl

theorem isTrimmed_of_edges
    (first : ∀ c ∈ text.head?, isBlank c = false)
    (last : ∀ c ∈ text.getLast?, isBlank c = false) :
    IsTrimmed text := by
  rw [IsTrimmed, trim, trimStart_of_head first, trimEnd_of_last last]

theorem length_trimEnd_le (text : Text) : (trimEnd text).length ≤ text.length := by
  rw [trimEnd, List.length_reverse]
  exact (List.dropWhile_sublist isBlank).length_le.trans (by simp)

theorem IsTrimmed.trimStart_eq (trimmed : IsTrimmed text) :
    trimStart text = text := by
  have suffix : trimStart text <:+ text := List.dropWhile_suffix isBlank
  apply suffix.eq_of_length
  apply Nat.le_antisymm suffix.length_le
  have shorter := length_trimEnd_le (trimStart text)
  rwa [← trim, trimmed] at shorter

theorem IsTrimmed.trimEnd_eq (trimmed : IsTrimmed text) : trimEnd text = text := by
  have both := trimmed
  rwa [IsTrimmed, trim, trimmed.trimStart_eq] at both

theorem IsTrimmed.not_blank_of_cons
    (trimmed : IsTrimmed (c :: rest)) : isBlank c = false := by
  by_contra blank
  rw [Bool.not_eq_false] at blank
  have shorter := (List.dropWhile_sublist isBlank (l := rest)).length_le
  have same := congrArg List.length trimmed.trimStart_eq
  rw [trimStart_cons_of_blank blank, trimStart, List.length_cons] at same
  omega

theorem IsTrimmed.not_blank_of_concat
    (trimmed : IsTrimmed (text ++ [c])) : isBlank c = false := by
  by_contra blank
  rw [Bool.not_eq_false] at blank
  have shorter := length_trimEnd_le text
  have same := congrArg List.length trimmed.trimEnd_eq
  rw [trimEnd_append_of_blank text (by simpa using blank), List.length_append,
    List.length_singleton] at same
  omega

theorem IsTrimmed.not_blank_of_getLast?
    (trimmed : IsTrimmed text) : ∀ c ∈ text.getLast?, isBlank c = false := by
  intro c last
  obtain ⟨before, rfl⟩ := List.getLast?_eq_some_iff.mp last
  exact trimmed.not_blank_of_concat

theorem prefix_trimEnd (text : Text) : trimEnd text <+: text := by
  have suffix : text.reverse.dropWhile isBlank <:+ text.reverse :=
    List.dropWhile_suffix isBlank
  rw [← List.reverse_prefix, List.reverse_reverse] at suffix
  exact suffix

theorem trim_subset (text : Text) : trim text ⊆ text :=
  List.Subset.trans (prefix_trimEnd _).subset (List.dropWhile_suffix isBlank).subset

/-- Only the edges matter: what stands between two trimmed texts is not trimmed. -/
theorem IsTrimmed.around
    (trimmed : IsTrimmed lead) (filled : lead ≠ []) (trimmedBehind : IsTrimmed rest)
    (filledBehind : rest ≠ []) (text : Text) :
    IsTrimmed (lead ++ text ++ rest) := by
  obtain ⟨first, others, rfl⟩ := List.exists_cons_of_ne_nil filled
  apply isTrimmed_of_edges
  · rintro c ⟨⟩
    exact trimmed.not_blank_of_cons
  · intro c found
    rw [List.getLast?_append, List.getLast?_eq_some_getLast filledBehind,
      Option.some_or] at found
    apply trimmedBehind.not_blank_of_getLast?
    rwa [List.getLast?_eq_some_getLast filledBehind]

/-- White space in front of a trimmed text goes away. -/
theorem IsTrimmed.trim_append
    (trimmed : IsTrimmed text) (blank : ∀ c ∈ lead, isBlank c = true) :
    trim (lead ++ text) = text := by
  rw [trim, trimStart_append_of_blank blank, ← trim]
  exact trimmed

/-- What is trimmed off at the end is white space. -/
theorem exists_trimEnd_append (text : Text) :
    ∃ tail, text = trimEnd text ++ tail ∧ ∀ c ∈ tail, isBlank c = true := by
  refine ⟨(text.reverse.takeWhile isBlank).reverse, ?_, ?_⟩
  · rw [trimEnd, ← List.reverse_append, List.takeWhile_append_dropWhile,
      List.reverse_reverse]
  · intro c member
    exact List.mem_takeWhile_imp (List.mem_reverse.mp member)

/-- A text is its trimmed text with white space around it. -/
theorem exists_trim_append (text : Text) :
    ∃ before behind, text = before ++ trim text ++ behind ∧
      (∀ c ∈ before, isBlank c = true) ∧ ∀ c ∈ behind, isBlank c = true := by
  obtain ⟨behind, whole, blank⟩ := exists_trimEnd_append (trimStart text)
  refine ⟨text.takeWhile isBlank, behind, ?_,
    fun c member => List.mem_takeWhile_imp member, blank⟩
  rw [List.append_assoc, trim, ← whole]
  exact List.takeWhile_append_dropWhile.symm

theorem mem_trim (visible : isBlank c = false) (member : c ∈ text) : c ∈ trim text := by
  obtain ⟨before, behind, whole, blank, blankBehind⟩ := exists_trim_append text
  rw [whole, List.mem_append, List.mem_append] at member
  rcases member with (inside | inside) | inside
  · rw [blank c inside] at visible
    contradiction
  · exact inside
  · rw [blankBehind c inside] at visible
    contradiction

theorem trimEnd_eq_nil_iff : trimEnd text = [] ↔ ∀ c ∈ text, isBlank c = true := by
  rw [trimEnd, List.reverse_eq_nil_iff, List.dropWhile_eq_nil_iff]
  simp

/-- White space that is trimmed off at the end does not matter for trimming. -/
theorem trim_trimEnd (text : Text) : trim (trimEnd text) = trim text := by
  obtain ⟨tail, whole, blank⟩ := exists_trimEnd_append text
  have start := congrArg trimStart whole
  rw [trimStart, trimStart, List.dropWhile_append] at start
  rw [trim, trim, trimStart, trimStart, start]
  split
  · rename_i empty
    rw [List.isEmpty_iff.mp empty, List.dropWhile_eq_nil_iff.mpr blank]
  · exact (trimEnd_append_of_blank _ blank).symm

theorem isTrimmed_trim (text : Text) : IsTrimmed (trim text) := by
  obtain ⟨tail, whole, blank⟩ := exists_trimEnd_append (trimStart text)
  apply isTrimmed_of_edges
  · intro c first
    have start : c ∈ (trimStart text).head? := by
      rw [whole, List.head?_append, show (trimEnd (trimStart text)).head? = some c
        from first]
      rfl
    have visible := List.head?_dropWhile_not isBlank text
    rw [← trimStart, start] at visible
    exact visible
  · intro c last
    have reversed : c ∈ ((trimStart text).reverse.dropWhile isBlank).head? := by
      rwa [trim, trimEnd, List.getLast?_reverse] at last
    have visible := List.head?_dropWhile_not isBlank (trimStart text).reverse
    rw [reversed] at visible
    exact visible

theorem trimEnd_cons_of_not_blank
    (visible : isBlank c = false) : trimEnd (c :: rest) = c :: trimEnd rest := by
  rw [trimEnd, trimEnd, List.reverse_cons, List.dropWhile_append]
  split
  · rename_i empty
    rw [List.isEmpty_iff] at empty
    simp [empty, visible]
  · simp

/-- A visible first character is still the first one when the text is trimmed. -/
theorem trim_cons_of_not_blank
    (visible : isBlank c = false) : trim (c :: rest) = c :: trimEnd rest := by
  rw [trim, trimStart_cons_of_not_blank visible, trimEnd_cons_of_not_blank visible]

theorem isTrimmed_append_singleton
    (first : ∀ d ∈ (text ++ [c]).head?, isBlank d = false)
    (last : isBlank c = false) :
    IsTrimmed (text ++ [c]) :=
  isTrimmed_of_edges first (fun d found => by
    obtain rfl : c = d := by simpa using found
    exact last)

/-! ## What a text starts with -/

theorem after?_of_head? (first : lead.head? = some c)
    (other : text.head? ≠ some c) :
    after? lead text = none := by
  obtain ⟨behind, rfl⟩ := List.head?_eq_some_iff.mp first
  cases text with
  | nil => rfl
  | cons d rest =>
      rw [after?, if_neg]
      rintro rfl
      exact other rfl

theorem startsWith_of_head? (first : lead.head? = some c)
    (other : text.head? ≠ some c) :
    startsWith lead text = false := by
  rw [startsWith, after?_of_head? first other]
  rfl

theorem after?_of_not_prefix (other : ¬ lead <+: text) :
    after? lead text = none := by
  cases behind : after? lead text with
  | none => rfl
  | some rest =>
      rw [eq_append_of_after? behind] at other
      exact absurd (List.prefix_append lead rest) other

end SchemaCompose.Text
