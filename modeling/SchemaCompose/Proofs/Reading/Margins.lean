import SchemaCompose.Proofs.Reading.Gaps
import SchemaCompose.Proofs.Reading.Layout

/-!
# One line of a document

The content of one line, and what stands around it in the document (`Text.Margins`).  The
other lines do not depend on what the line holds (`Text.Margins.exists_lines`).
-/

namespace SchemaCompose

namespace Text

variable {above below content rest : Text} {others : List Text} {c : Char}

/-! ## Lines around a line -/

/-- A text that ends with the end of a line has its own lines. -/
theorem lines_append_of_ends (ends : ∀ c ∈ above.getLast?, isLineEnd c = true)
    (apart : rest.head? ≠ some '\n') : lines (above ++ rest) = lines above ++ lines rest := by
  induction above with
  | nil => rw [lines_nil]; rfl
  | cons c above ih =>
      cases above with
      | nil =>
          have own : isLineEnd c = true := ends c rfl
          rw [List.singleton_append, lines_cons_of_end own (fun carriage => apart carriage.2),
            lines_cons_of_end own (by simp), lines_nil]
          rfl
      | cons d above =>
          have further := ih ends
          have head : (d :: above ++ rest).head? = (d :: above).head? := rfl
          rw [List.cons_append]
          by_cases own : isLineEnd c = true
          · by_cases carriage : c = '\r' ∧ (d :: above).head? = some '\n'
            · rw [carriage.1, lines_carriage (head ▸ carriage.2), lines_carriage carriage.2,
                further]
            · rw [lines_cons_of_end own (head ▸ carriage), lines_cons_of_end own carriage,
                further, List.cons_append]
          · have inside : isLineEnd c = false := by simpa using own
            have filled : lines (d :: above) ≠ [] := lines_ne_nil (List.cons_ne_nil d above)
            obtain ⟨first, more, cut⟩ := List.exists_cons_of_ne_nil filled
            rw [lines_cons_of_not_end inside, lines_cons_of_not_end inside, further, cut]
            rfl

theorem lines_append_of_lines {first : Text} (single : IsLine content)
    (behind : lines rest = first :: others) :
    lines (content ++ rest) = (content ++ first) :: others := by
  induction content with
  | nil => exact behind
  | cons c content ih =>
      rw [isLine_cons] at single
      rw [List.cons_append, lines_cons_of_not_end single.1, ih single.2]
      rfl

/-- What follows the end of a line are lines of their own. -/
theorem exists_lines_append (ends : ∀ c ∈ below.head?, isLineEnd c = true) :
    ∃ others, ∀ content, IsLine content → content ≠ [] →
      lines (content ++ below) = content :: others := by
  cases below with
  | nil =>
      refine ⟨[], fun content single filled => ?_⟩
      rw [List.append_nil, lines_of_isLine single filled]
  | cons c rest =>
      obtain ⟨others, behind⟩ : ∃ others, lines (c :: rest) = [] :: others := by
        by_cases carriage : c = '\r' ∧ rest.head? = some '\n'
        · obtain ⟨rfl, feed⟩ := carriage
          obtain ⟨further, rfl⟩ := List.head?_eq_some_iff.mp feed
          rw [lines_carriage feed, lines_feed]
          exact ⟨lines further, rfl⟩
        · exact ⟨lines rest, lines_cons_of_end (ends c rfl) carriage⟩
      refine ⟨others, fun content single _ => ?_⟩
      rw [lines_append_of_lines single behind, List.append_nil]

/-! ## Margins -/

/-- What stands around the content of one line of a text. -/
structure Margins where
  above : Text
  indent : Text
  trail : Text
  below : Text

/-- White space in which no line ends. -/
@[mk_iff]
structure IsSpace (gap : Text) : Prop where
  blank : IsGap gap
  single : IsLine gap

instance : DecidablePred IsSpace := fun gap =>
  decidable_of_iff' _ (isSpace_iff gap)

/-- What a line may hold between its margins. -/
@[mk_iff]
structure IsContent (content : Text) : Prop where
  filled : content ≠ []
  single : IsLine content
  trimmed : IsTrimmed content

instance : DecidablePred IsContent := fun content =>
  decidable_of_iff' _ (isContent_iff content)

/-- Between what a line begins and ends with, other text leaves the line what it is. -/
theorem IsContent.between {front middle fresh back : Text}
    (isContent : IsContent (front ++ (middle ++ back))) (filled : front ≠ [])
    (filledBehind : back ≠ []) (single : IsLine fresh) :
    IsContent (front ++ (fresh ++ back)) := by
  obtain ⟨-, whole, trimmed⟩ := isContent
  have first : ∀ middle : Text, (front ++ (middle ++ back)).head? = front.head? :=
    fun _ => List.head?_append_of_ne_nil _ filled
  have last : ∀ middle : Text, (front ++ (middle ++ back)).getLast? = back.getLast? :=
    fun middle => by
      rw [← List.append_assoc, List.getLast?_append_of_ne_nil _ filledBehind]
  refine ⟨by simp [filled], ?_, ?_⟩
  · rw [isLine_append, isLine_append] at whole ⊢
    exact ⟨whole.1, single, whole.2.2⟩
  · apply isTrimmed_of_edges
    · rw [first fresh, ← first middle]
      intro c starts
      obtain ⟨rest, same⟩ := List.head?_eq_some_iff.mp starts
      rw [same] at trimmed
      exact trimmed.not_blank_of_cons
    · rw [last fresh, ← last middle]
      exact trimmed.not_blank_of_getLast?

namespace Margins

variable {margins : Margins}

/-- The line between its margins. -/
def row (margins : Margins) (content : Text) : Text :=
  margins.indent ++ content ++ margins.trail

/-- The text in which the line holds the content. -/
def fill (margins : Margins) (content : Text) : Text :=
  margins.above ++ (margins.row content ++ margins.below)

/-- The line as it is read. -/
def line (margins : Margins) (content : Text) : Line :=
  ⟨(lines margins.above).length + 1, content⟩

/-- The margins are those of one line: other lines end above it, and below it itself does. -/
structure IsLaid (margins : Margins) : Prop where
  above : ∀ c ∈ margins.above.getLast?, isLineEnd c = true
  below : ∀ c ∈ margins.below.head?, isLineEnd c = true
  indent : IsSpace margins.indent
  trail : IsSpace margins.trail

theorem trim_row (laid : margins.IsLaid) (isContent : IsContent content) :
    trim (margins.row content) = content := by
  rw [row, trim_append_gap _ laid.trail.blank, trim_gap_append laid.indent.blank]
  exact isContent.trimmed

theorem isLine_row (laid : margins.IsLaid) (isContent : IsContent content) :
    IsLine (margins.row content) :=
  isLine_append.mpr
    ⟨isLine_append.mpr ⟨laid.indent.single, isContent.single⟩, laid.trail.single⟩

theorem row_ne_nil (isContent : IsContent content) : margins.row content ≠ [] := by
  simp [row, isContent.filled]

/-- The line starts with what is indented. -/
theorem head?_row_append (isContent : IsContent content) (laid : margins.IsLaid)
    (rest : Text) : ∀ c ∈ (margins.row content ++ rest).head?, isLineEnd c = false := by
  intro c first
  apply isLine_row laid isContent c
  rw [List.head?_append_of_ne_nil _ (row_ne_nil isContent)] at first
  exact List.mem_of_head? first

/-- The lines of the document around the one whose content may change. -/
theorem exists_lines (laid : margins.IsLaid) :
    ∃ lower, ∀ content, IsContent content →
      Line.ofText (margins.fill content) =
        Line.ofText margins.above ++ margins.line content :: lower := by
  obtain ⟨others, below⟩ := exists_lines_append laid.below
  refine ⟨numbered ((lines margins.above).length + 2) others, fun content isContent => ?_⟩
  have apart : (margins.row content ++ margins.below).head? ≠ some '\n' := by
    intro feed
    have inside := head?_row_append isContent laid margins.below '\n' feed
    contradiction
  have whole : lines (margins.fill content) =
      lines margins.above ++ margins.row content :: others := by
    rw [fill, lines_append_of_ends laid.above apart,
      below _ (isLine_row laid isContent) (row_ne_nil isContent)]
  rw [Line.ofText_eq, whole, numbered_append, Nat.add_comm, Line.ofText_eq]
  congr 1
  show Line.mk _ (trim (margins.row content)) :: numbered _ others = _
  rw [trim_row laid isContent]
  rfl

end Margins

end Text

end SchemaCompose
