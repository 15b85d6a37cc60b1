import SchemaCompose.Proofs.Text.Rows
import SchemaCompose.Text.Word

/-!
# Names

A name is a text that is one identifier.  A scanner of identifiers gives a name
back when no word goes on behind it, and since word characters are neither blank
nor punctuation, a name never hides what stands next to it.
-/

namespace SchemaCompose.Text

/-- The whole text is one identifier. -/
def IsName (text : Text) : Prop :=
  identifier? text = some (text, [])

instance : DecidablePred IsName := fun text =>
  inferInstanceAs (Decidable (identifier? text = some (text, [])))

/-! ## Word characters -/

theorem mem_range'_of_inRanges
    {ranges : List (Nat × Nat)} {code : Nat}
    (inside : inRanges ranges code = true) :
    code ∈ ranges.flatMap fun range =>
      List.range' range.1 (range.2 + 1 - range.1) := by
  obtain ⟨range, member, within⟩ := List.any_eq_true.mp inside
  rw [Bool.and_eq_true, decide_eq_true_eq, decide_eq_true_eq] at within
  refine List.mem_flatMap.mpr
    ⟨range, member, List.mem_range'.mpr ⟨code - range.1, ?_, ?_⟩⟩
  · omega
  · omega

theorem not_isWord_of_isBlank {c : Char} (blank : isBlank c = true) :
    isWord c = false := by
  have none :
      ∀ code ∈ blankRanges.flatMap fun range =>
        List.range' range.1 (range.2 + 1 - range.1),
        isWord (Char.ofNat code) = false := by
    decide +kernel
  have own := none c.toNat (mem_range'_of_inRanges blank)
  rwa [Char.ofNat_toNat] at own

theorem not_isBlank_of_isWord {c : Char} (word : isWord c = true) :
    isBlank c = false := by
  by_contra blank
  rw [Bool.not_eq_false] at blank
  rw [not_isWord_of_isBlank blank] at word
  contradiction

theorem isWord_of_isNameStart {c : Char} (starts : isNameStart c = true) :
    isWord c = true := by
  rw [isNameStart, Bool.or_eq_true] at starts
  rcases starts with letter | underscore
  · have small : c.toNat < 0x80 := by
      have upper : c.toNat ≤ 122 := by
        rcases Bool.or_eq_true_iff.mp letter with capital | lower
        · exact (of_decide_eq_true capital).2.trans (by decide)
        · exact of_decide_eq_true (Bool.and_eq_true_iff.mp lower).2
      omega
    simp [isWord, small, Char.isAlphanum, letter]
  · rw [beq_iff_eq] at underscore
    rw [underscore]
    decide

/-! ## Names -/

variable {name rest : Text}

theorem isName_cons {c : Char} :
    IsName (c :: rest) ↔ isNameStart c = true ∧ ∀ d ∈ rest, isWord d = true := by
  rw [IsName, identifier?]
  constructor
  · intro same
    split at same
    · rename_i starts
      refine ⟨starts, List.takeWhile_eq_self_iff.mp ?_⟩
      simpa using congrArg (Option.map Prod.fst) same
    · contradiction
  · rintro ⟨starts, words⟩
    rw [if_pos starts, List.takeWhile_eq_self_iff.mpr words,
      List.dropWhile_eq_nil_iff.mpr words]

namespace IsName

theorem ne_nil (isName : IsName name) : name ≠ [] := by
  rintro rfl
  contradiction

theorem isWord (isName : IsName name) : ∀ c ∈ name, isWord c = true := by
  cases name with
  | nil => simp
  | cons c rest =>
      obtain ⟨starts, words⟩ := isName_cons.mp isName
      exact List.forall_mem_cons.mpr ⟨isWord_of_isNameStart starts, words⟩

theorem not_isBlank (isName : IsName name) : ∀ c ∈ name, isBlank c = false := by
  intro c member
  exact not_isBlank_of_isWord (isName.isWord c member)

theorem not_mem (isName : IsName name) {c : Char} (apart : Text.isWord c = false) :
    c ∉ name := by
  intro member
  rw [isName.isWord c member] at apart
  contradiction

theorem apart
    (isName : IsName name) {others : List Char}
    (punctuation : ∀ c ∈ others, Text.isWord c = false) :
    ∀ c ∈ name, c ∉ others := by
  intro c member other
  exact isName.not_mem (punctuation c other) member

theorem head?_append (isName : IsName name) (rest : Text) :
    ∀ c ∈ (name ++ rest).head?, Text.isWord c = true := by
  obtain ⟨c, others, rfl⟩ := List.exists_cons_of_ne_nil isName.ne_nil
  rintro d ⟨⟩
  exact isName.isWord c List.mem_cons_self

/-- A name starts with a word character, and with nothing else. -/
theorem head?_ne
    (isName : IsName name) {c : Char} (punctuation : Text.isWord c = false)
    (rest : Text) :
    (name ++ rest).head? ≠ some c := by
  intro first
  rw [isName.head?_append rest c first] at punctuation
  contradiction

theorem isLine (isName : IsName name) : IsLine name :=
  isLine_of_not_blank isName.not_isBlank

theorem isTrimmed (isName : IsName name) : IsTrimmed name := by
  apply isTrimmed_of_edges
  · intro c first
    exact isName.not_isBlank c (List.mem_of_mem_head? first)
  · intro c last
    exact isName.not_isBlank c (List.mem_of_mem_getLast? last)

end IsName

/-- A run of characters ends where the first other character stands. -/
theorem takeWhile_append_of_head
    {inRun : Char → Bool} (run : ∀ c ∈ name, inRun c = true)
    (ends : ∀ c ∈ rest.head?, inRun c = false) :
    (name ++ rest).takeWhile inRun = name ∧
      (name ++ rest).dropWhile inRun = rest := by
  rw [List.takeWhile_append_of_pos run, List.dropWhile_append_of_pos run]
  cases rest with
  | nil => simp
  | cons c rest => simp [ends c rfl]

/-- A name ends where the first blank stands. -/
theorem IsName.takeWhile_visible
    (isName : IsName name) (blank : ∀ c ∈ rest.head?, isBlank c = true) :
    (name ++ rest).takeWhile (!isBlank ·) = name ∧
      (name ++ rest).dropWhile (!isBlank ·) = rest := by
  apply takeWhile_append_of_head
  · intro c member
    rw [isName.not_isBlank c member]
    rfl
  · intro c first
    rw [blank c first]
    rfl

theorem IsName.trimStart_space (isName : IsName name) (rest : Text) :
    trimStart (' ' :: (name ++ rest)) = name ++ rest := by
  rw [trimStart_cons_of_blank (by decide)]
  apply trimStart_of_head
  intro c first
  exact not_isBlank_of_isWord (isName.head?_append rest c first)

theorem atWordEnd_iff :
    atWordEnd rest = true ↔ ∀ c ∈ rest.head?, isWord c = false := by
  cases rest with
  | nil => simp [atWordEnd]
  | cons c rest => simp [atWordEnd]

/-- A name is read back where no word goes on behind it. -/
theorem IsName.identifier?_append (isName : IsName name)
    (ends : atWordEnd rest = true) :
    identifier? (name ++ rest) = some (name, rest) := by
  cases name with
  | nil => contradiction
  | cons c others =>
      obtain ⟨starts, words⟩ := isName_cons.mp isName
      obtain ⟨taken, dropped⟩ :=
        takeWhile_append_of_head words (atWordEnd_iff.mp ends)
      rw [List.cons_append, identifier?, if_pos starts, taken, dropped]

/-- What is read as an identifier is a name, and it stands in front of the rest. -/
theorem isName_of_identifier?
    {text behind : Text} (found : identifier? text = some (name, behind)) :
    IsName name ∧ text = name ++ behind ∧ ∀ c ∈ behind.head?, isWord c = false := by
  cases text with
  | nil => contradiction
  | cons c text =>
      rw [identifier?] at found
      split_ifs at found with starts
      cases found
      refine ⟨isName_cons.mpr ⟨starts, fun d member => List.mem_takeWhile_imp member⟩,
        ?_, ?_⟩
      · rw [List.cons_append, List.takeWhile_append_dropWhile]
      · intro d first
        have ends := List.head?_dropWhile_not isWord text
        rw [show (text.dropWhile isWord).head? = some d from first] at ends
        exact ends

end SchemaCompose.Text
