import SchemaCompose.Proofs.Text.Edges

/-!
# Rows of lines

A row of lines is written with a line feed between neighbours, and reading it back
gives the row again.  A line that is written must not hold a line boundary itself
(`IsLine`), and an empty line at the end of a row is not read back.
-/

namespace SchemaCompose

theorem map_eq_self_iff {α : Type} {change : α → α} {row : List α} :
    row.map change = row ↔ ∀ item ∈ row, change item = item := by
  have identity : row.map change = row ↔ row.map change = row.map id := by
    rw [List.map_id]
  rw [identity]
  exact List.map_inj_left

namespace Text

/-- No character of the text ends a line. -/
def IsLine (text : Text) : Prop :=
  ∀ c ∈ text, isLineEnd c = false

instance : DecidablePred IsLine := fun text =>
  inferInstanceAs (Decidable (∀ c ∈ text, isLineEnd c = false))

variable {text line rest : Text} {c : Char} {rows : List Text}

theorem isLine_append {left right : Text} :
    IsLine (left ++ right) ↔ IsLine left ∧ IsLine right :=
  List.forall_mem_append

theorem isLine_cons : IsLine (c :: rest) ↔ isLineEnd c = false ∧ IsLine rest :=
  List.forall_mem_cons

theorem isLine_nil : IsLine [] := by
  simp [IsLine]

theorem isLine_of_not_blank (visible : ∀ c ∈ text, isBlank c = false) :
    IsLine text := by
  intro c member
  by_contra ends
  rw [Bool.not_eq_false] at ends
  have blank := isBlank_of_isLineEnd ends
  rw [visible c member] at blank
  contradiction

/-! ## Reading lines -/

theorem lines_cons_of_not_end (inside : isLineEnd c = false) (rest : Text) :
    lines (c :: rest) =
      match lines rest with
      | [] => [[c]]
      | line :: others => (c :: line) :: others := by
  rw [lines.eq_def]
  split
  · contradiction
  · rename_i carriage feed same
    rw [List.cons.injEq] at same
    rw [same.1] at inside
    exact absurd inside (by decide)
  · rename_i first behind _ same
    rw [List.cons.injEq] at same
    obtain ⟨rfl, rfl⟩ := same
    exact if_neg (by simp [inside])

theorem lines_feed (rest : Text) : lines ('\n' :: rest) = [] :: lines rest := by
  rw [lines.eq_def]
  rfl

theorem lines_append_feed (single : IsLine line) (rest : Text) :
    lines (line ++ '\n' :: rest) = line :: lines rest := by
  induction line with
  | nil => exact lines_feed rest
  | cons c line ih =>
      rw [isLine_cons] at single
      rw [List.cons_append, lines_cons_of_not_end single.1, ih single.2]

theorem lines_of_isLine (single : IsLine line) (filled : line ≠ []) :
    lines line = [line] := by
  induction line with
  | nil => contradiction
  | cons c line ih =>
      rw [isLine_cons] at single
      rw [lines_cons_of_not_end single.1]
      cases line with
      | nil => simp
      | cons d others => rw [ih single.2 (by simp)]

theorem isLine_of_mem_lines {text : Text} : ∀ line ∈ lines text, IsLine line := by
  induction text using lines.induct with
  | case1 => simp
  | case2 rest ih =>
      rw [lines, List.forall_mem_cons]
      exact ⟨isLine_nil, ih⟩
  | case3 c rest single ends ih =>
      rw [lines, if_pos ends, List.forall_mem_cons]
      · exact ⟨isLine_nil, ih⟩
      · exact single
  | case4 c rest single inside none ih =>
      rw [lines_cons_of_not_end (by simpa using inside), none]
      simpa [isLine_cons, isLine_nil] using inside
  | case5 c rest single inside line others some ih =>
      rw [some, List.forall_mem_cons] at ih
      rw [lines_cons_of_not_end (by simpa using inside), some]
      simp only [List.forall_mem_cons, isLine_cons]
      exact ⟨⟨by simpa using inside, ih.1⟩, ih.2⟩

/-- A carriage return and the line feed behind it are one boundary. -/
theorem lines_carriage (feed : rest.head? = some '\n') :
    lines ('\r' :: rest) = lines rest := by
  obtain ⟨behind, rfl⟩ := List.head?_eq_some_iff.mp feed
  rw [lines, lines_feed]

theorem lines_cons_of_end
    (ends : isLineEnd c = true) (alone : ¬ (c = '\r' ∧ rest.head? = some '\n')) :
    lines (c :: rest) = [] :: lines rest := by
  rw [lines.eq_def]
  split
  · contradiction
  · rename_i further same
    rw [List.cons.injEq] at same
    rw [same.1, same.2] at alone
    simp at alone
  · rename_i first behind _ same
    rw [List.cons.injEq] at same
    obtain ⟨rfl, rfl⟩ := same
    exact if_pos ends

theorem lines_ne_nil (filled : text ≠ []) : lines text ≠ [] := by
  induction text with
  | nil => contradiction
  | cons c rest ih =>
      by_cases ends : isLineEnd c = true
      · by_cases carriage : c = '\r' ∧ rest.head? = some '\n'
        · rw [carriage.1, lines_carriage carriage.2]
          apply ih
          rintro rfl
          simp at carriage
        · rw [lines_cons_of_end ends carriage]
          simp
      · rw [lines_cons_of_not_end (by simpa using ends)]
        split
        · simp
        · simp

/-- A character that ends no line is the first one of the first line. -/
theorem exists_lines_cons (inside : isLineEnd c = false) (rest : Text) :
    ∃ line others, lines (c :: rest) = (c :: line) :: others := by
  rw [lines_cons_of_not_end inside]
  split
  · exact ⟨[], [], rfl⟩
  · exact ⟨_, _, rfl⟩

/-- A line feed parts the lines of a text, whatever stands in front of it. -/
theorem lines_append_break (text rest : Text) :
    lines (text ++ '\n' :: rest) = lines (text ++ ['\n']) ++ lines rest := by
  induction text with
  | nil =>
      rw [List.nil_append, List.nil_append, lines_feed, lines_feed]
      rfl
  | cons c text ih =>
      have head : (text ++ '\n' :: rest).head? = (text ++ ['\n']).head? := by
        cases text with
        | nil => rfl
        | cons d text => rfl
      rw [List.cons_append, List.cons_append]
      by_cases ends : isLineEnd c = true
      · by_cases carriage : c = '\r' ∧ (text ++ ['\n']).head? = some '\n'
        · rw [carriage.1, lines_carriage (head ▸ carriage.2),
            lines_carriage carriage.2, ih]
        · rw [lines_cons_of_end ends (head ▸ carriage),
            lines_cons_of_end ends carriage, ih, List.cons_append]
      · have inside : isLineEnd c = false := by simpa using ends
        have filled : lines (text ++ ['\n']) ≠ [] := lines_ne_nil (by simp)
        obtain ⟨line, others, own⟩ := List.exists_cons_of_ne_nil filled
        rw [lines_cons_of_not_end inside, lines_cons_of_not_end inside, ih, own]
        rfl

/-- A line feed at the end of a text opens at most one line, which is empty. -/
theorem exists_lines_feed (text : Text) :
    ∃ tail, lines (text ++ ['\n']) = lines text ++ tail ∧
      (tail = [] ∨ tail = [[]]) := by
  induction text with
  | nil => exact ⟨[[]], lines_feed [], Or.inr rfl⟩
  | cons c text ih =>
      obtain ⟨tail, whole, blank⟩ := ih
      rw [List.cons_append]
      by_cases ends : isLineEnd c = true
      · by_cases carriage : c = '\r' ∧ (text ++ ['\n']).head? = some '\n'
        · obtain ⟨rfl, feed⟩ := carriage
          rw [lines_carriage feed]
          cases text with
          | nil => exact ⟨[], by decide, Or.inl rfl⟩
          | cons d text =>
              have behind : (d :: text).head? = some '\n' := feed
              rw [lines_carriage behind]
              exact ⟨tail, whole, blank⟩
        · have alone : ¬ (c = '\r' ∧ text.head? = some '\n') := by
            rintro ⟨rfl, feed⟩
            refine carriage ⟨rfl, ?_⟩
            rw [List.head?_append, feed]
            rfl
          rw [lines_cons_of_end ends carriage, lines_cons_of_end ends alone, whole]
          exact ⟨tail, rfl, blank⟩
      · have inside : isLineEnd c = false := by simpa using ends
        rw [lines_cons_of_not_end inside, lines_cons_of_not_end inside, whole]
        cases own : lines text with
        | cons line others => exact ⟨tail, rfl, blank⟩
        | nil =>
            obtain rfl : text = [] := by
              by_contra filled
              exact lines_ne_nil filled own
            rw [own] at whole
            have one : tail = [[]] := whole.symm.trans (lines_feed [])
            rw [one]
            exact ⟨[], rfl, Or.inl rfl⟩

theorem prefix_lines_feed (text : Text) : lines text <+: lines (text ++ ['\n']) := by
  obtain ⟨tail, whole, _⟩ := exists_lines_feed text
  exact ⟨tail, whole.symm⟩

/-! ## Writing lines -/

theorem unlines_singleton (line : Text) : unlines [line] = line := rfl

theorem unlines_cons_cons (line next : Text) (rows : List Text) :
    unlines (line :: next :: rows) = line ++ '\n' :: unlines (next :: rows) := by
  rw [unlines, join, List.append_assoc]
  rfl

theorem unlines_cons (line : Text) (others : rows ≠ []) :
    unlines (line :: rows) = line ++ '\n' :: unlines rows := by
  cases rows with
  | nil => contradiction
  | cons next rows => exact unlines_cons_cons line next rows

theorem unlines_append {left right : List Text} (filled : left ≠ [])
    (others : right ≠ []) :
    unlines (left ++ right) = unlines left ++ '\n' :: unlines right := by
  induction left with
  | nil => contradiction
  | cons line left ih =>
      cases left with
      | nil => exact unlines_cons line others
      | cons next left =>
          rw [List.cons_append, unlines_cons line (by simp), ih (by simp),
            unlines_cons line (by simp)]
          simp

/-- Rows that are written one by one and then as lines of one text are written as
one row. -/
theorem unlines_map_unlines
    {parts : List (List Text)} (filled : ∀ rows ∈ parts, rows ≠ []) :
    unlines (parts.map unlines) = unlines parts.flatten := by
  induction parts with
  | nil => rfl
  | cons rows parts ih =>
      rw [List.forall_mem_cons] at filled
      cases parts with
      | nil => simp [unlines_singleton]
      | cons next parts =>
          have further : (next :: parts).flatten ≠ [] := by
            intro empty
            exact filled.2 next (by simp)
              (List.flatten_eq_nil_iff.mp empty next (by simp))
          rw [List.map_cons, unlines_cons _ (by simp), ih filled.2,
            ← unlines_append filled.1 further, ← List.flatten_cons]

/-- A row whose last line is not empty is read back as it was written. -/
theorem lines_unlines
    (single : ∀ line ∈ rows, IsLine line)
    (filled : ∀ last ∈ rows.getLast?, last ≠ []) :
    lines (unlines rows) = rows := by
  induction rows with
  | nil => rfl
  | cons line rows ih =>
      rw [List.forall_mem_cons] at single
      cases rows with
      | nil => exact lines_of_isLine single.1 (filled line rfl)
      | cons next rows =>
          rw [unlines_cons_cons, lines_append_feed single.1, ih single.2]
          intro last found
          exact filled last (by simpa using found)

/-- An empty line at the end of a row is not read back. -/
theorem lines_unlines_concat
    (single : ∀ line ∈ rows, IsLine line) :
    lines (unlines (rows ++ [[]])) = rows := by
  induction rows with
  | nil => rfl
  | cons line rows ih =>
      rw [List.forall_mem_cons] at single
      rw [List.cons_append, unlines_cons _ (by simp), lines_append_feed single.1,
        ih single.2]

/-- A row is read back up to an empty line at its end. -/
theorem exists_lines_unlines (single : ∀ line ∈ rows, IsLine line) :
    ∃ tail, rows = lines (unlines rows) ++ tail ∧ (tail = [] ∨ tail = [[]]) := by
  rcases List.eq_nil_or_concat rows with rfl | ⟨before, last, rfl⟩
  · exact ⟨[], rfl, Or.inl rfl⟩
  · rw [List.concat_eq_append] at single ⊢
    by_cases filled : last = []
    · have readBack : lines (unlines (before ++ [[]])) = before :=
        lines_unlines_concat fun line member =>
          single line (List.mem_append_left _ member)
      rw [filled, readBack]
      exact ⟨[[]], rfl, Or.inr rfl⟩
    · have readBack : lines (unlines (before ++ [last])) = before ++ [last] := by
        apply lines_unlines single
        intro other found
        obtain rfl : last = other := by simpa using found
        exact filled
      rw [readBack]
      exact ⟨[], (List.append_nil _).symm, Or.inl rfl⟩

/-! ## Texts behind spaces -/

theorem join_space (first : Text) (others : List Text) :
    join " " (first :: others) = first ++ others.flatMap (' ' :: ·) := by
  induction others generalizing first with
  | nil => simp [join]
  | cons next others ih =>
      rw [join, ih, List.flatMap_cons, List.append_assoc]
      rfl

/-- What is written behind a space each starts with a space, if there is
anything. -/
theorem head?_flatMap_space {α : Type} (write : α → Text) (items : List α) :
    ∀ c ∈ (items.flatMap fun item => ' ' :: write item).head?, c = ' ' := by
  cases items with
  | nil => simp
  | cons item others =>
      rintro c ⟨⟩
      rfl

theorem isLine_flatMap_space
    {texts : List Text} (each : ∀ text ∈ texts, IsLine text) :
    IsLine (texts.flatMap (' ' :: ·)) := by
  induction texts with
  | nil => exact isLine_nil
  | cons text others ih =>
      rw [List.forall_mem_cons] at each
      rw [List.flatMap_cons, List.cons_append, isLine_cons, isLine_append]
      exact ⟨by decide, each.1, ih each.2⟩

theorem IsTrimmed.append_flatMap_space
    {lead : Text} (trimmed : IsTrimmed lead) (filled : lead ≠ [])
    {texts : List Text}
    (each : ∀ text ∈ texts, IsTrimmed text ∧ text ≠ []) :
    IsTrimmed (lead ++ texts.flatMap (' ' :: ·)) := by
  induction texts generalizing lead with
  | nil => simpa using trimmed
  | cons text others ih =>
      rw [List.forall_mem_cons] at each
      have next := trimmed.around filled each.1.1 each.1.2 [' ']
      have all := ih next (by simp) each.2
      simpa using all

end Text

end SchemaCompose
