import SchemaCompose.Proofs.Mining.FieldLines
import SchemaCompose.Proofs.Mining.Regions

/-!
# Lines of indexes

An index is recovered from its mark on, up to the last closing bracket of the line.
A line shows its indexes if no index is marked in it, or if its only mark stands at an
index and no closing bracket stands behind that one.  Then what is recovered from the
line is the text of its index (`Mining.indexOf?_of_showsIndexes`).
-/

namespace SchemaCompose

namespace Attribute

variable {text cut inner behind : Text} {row others : List (Text × Attribute)}

/-- The texts of the indexes in a row of attributes. -/
def indexes (row : List (Text × Attribute)) : List Text :=
  (row.filter fun entry : Text × Attribute =>
    entry.2.name = "@@index" ∧ entry.2.arguments.isSome).map Prod.fst

theorem indexes_append (row others : List (Text × Attribute)) :
    indexes (row ++ others) = indexes row ++ indexes others := by
  rw [indexes, List.filter_append, List.map_append]
  rfl

/-- The indexes of a row are attributes of the row. -/
theorem exists_of_mem_indexes {index : Text} (member : index ∈ indexes row) :
    ∃ entry ∈ row, entry.1 = index ∧ entry.2.name = "@@index" := by
  obtain ⟨entry, kept, same⟩ := List.mem_map.mp member
  obtain ⟨inRow, isIndex⟩ := List.mem_filter.mp kept
  exact ⟨entry, inRow, same, (of_decide_eq_true isIndex).1⟩

theorem indexes_eq_nil
    (spells : Spells text row) (unmarked : ¬ "@@index(".toList <:+: text) :
    indexes row = [] := by
  rw [indexes, List.map_eq_nil_iff, List.filter_eq_nil_iff]
  intro entry member isIndex
  obtain ⟨inside, spelled⟩ := spells.isInfix_of_mem entry member
  obtain ⟨named, filled⟩ := of_decide_eq_true isIndex
  have starts := spelled.prefix_of_isSome filled
  rw [named] at starts
  exact unmarked (starts.isInfix.trans inside)

/-- An index is spelled with its mark, and a bracket closes it. -/
theorem IsSpelled.exists_of_index (spelled : IsSpelled cut ⟨"@@index", some inner⟩) :
    ∃ (raw : Text) (closing : Char), cut = "@@index(" ++ raw ++ [closing] ∧
      nesting 0 .outside raw = some (0, .outside) ∧ (closing = ')' ∨ closing = ']') := by
  cases spelled with
  | @call _ raw closing _ nested closes =>
      refine ⟨raw, closing, ?_, nested, closes⟩
      simp

end Attribute

namespace Line

/-- The line is a row of attributes that marks no index, or the only mark in it stands
at an index behind which no bracket is closed. -/
inductive ShowsIndexes (line : Line) : List (Text × Attribute) → Prop
  | none {row : List (Text × Attribute)} (spells : Attribute.Spells line.code row)
      (unmarked : ¬ "@@index(".toList <:+: line.text) : ShowsIndexes line row
  | single {lead cut behind inner : Text} {row others : List (Text × Attribute)}
      (whole : line.code = lead ++ cut ++ behind)
      (spells : Attribute.Spells lead row)
      (spelled : Attribute.IsSpelled cut ⟨"@@index", some inner⟩)
      (further : Attribute.Spells behind others)
      (unmarked : ∀ piece ∈ [lead, behind], ¬ "@@index(".toList <:+: piece)
      (closed : cut.getLast? = some ')')
      (last : ')' ∉ behind ++ line.comment) :
      ShowsIndexes line (row ++ (cut, ⟨"@@index", some inner⟩) :: others)

theorem ShowsIndexes.spells {line : Line} {row : List (Text × Attribute)}
    (shows : line.ShowsIndexes row) : Attribute.Spells line.code row := by
  cases shows with
  | none spells _ => exact spells
  | single whole spells spelled further _ _ _ =>
      rw [whole, List.append_assoc]
      exact spells.append (.entry spelled further)

end Line

namespace Mining

variable {lead cut rest inner : Text}

/-- The index that is recovered from a row. -/
def indexOf? (row : Text) : Option Text :=
  if isComment row then none else firstMatch (fun _ => extraIndex?) none row

/-- The mark of an index does not reach over the place where one starts. -/
theorem prefix_of_append_index
    (filled : lead ≠ []) (starts : "@@index(".toList <+: lead ++ "@@index(" ++ rest) :
    "@@index(".toList <+: lead := by
  rw [List.append_assoc] at starts
  rcases List.prefix_or_prefix_of_prefix starts (List.prefix_append lead _) with
    inside | ⟨more, whole⟩
  · exact inside
  · have within : more <+: "@@index(".toList := by
      have same := starts
      rw [← whole, List.append_assoc, List.prefix_append_right_inj, ← List.append_assoc,
        whole] at same
      apply List.prefix_of_prefix_length_le same (List.prefix_append _ _)
      rw [← whole, List.length_append]
      omega
    have further : more ∈ "@@index(".toList.tail.tails := by
      obtain ⟨c, others, rfl⟩ := List.exists_cons_of_ne_nil filled
      rw [List.mem_tails, ← whole]
      exact List.suffix_append others more
    -- Only the empty end of the mark is also a start of it, so the mark cannot straddle.
    have unbordered : ∀ more ∈ "@@index(".toList.tail.tails,
        more <+: "@@index(".toList → more = [] := by
      decide
    rw [unbordered more further within, List.append_nil] at whole
    exact whole ▸ List.prefix_rfl

/-- Behind a text without a mark the index is found that stands there. -/
theorem firstMatch_extraIndex?_append
    (unmarked : ¬ "@@index(".toList <:+: lead)
    (spelled : Attribute.IsSpelled cut ⟨"@@index", some inner⟩)
    (closed : cut.getLast? = some ')') (last : ')' ∉ rest) :
    firstMatch (fun _ => extraIndex?) none (lead ++ (cut ++ rest)) = some cut := by
  obtain ⟨raw, closing, rfl, _⟩ := spelled.exists_of_index
  rw [List.getLast?_concat, Option.some.injEq] at closed
  subst closed
  have here : extraIndex? ("@@index(" ++ (raw ++ ')' :: rest)) =
      some ("@@index(" ++ (raw ++ [')'])) := by
    rw [extraIndex?, Text.after?_append, Option.bind_eq_bind, Option.bind_some,
      throughLastClosing_append last]
    rfl
  have split : "@@index(" ++ raw ++ [')'] ++ rest =
      "@@index(" ++ (raw ++ ')' :: rest) := by
    simp
  rw [split, firstMatch_append, firstMatch_of_some here]
  · simp
  · intro before place suffix filled
    apply isLed_extraIndex? Option.none
    intro starts
    rw [← List.append_assoc] at starts
    exact unmarked ((prefix_of_append_index filled starts).isInfix.trans
      suffix.isInfix)

theorem indexOf?_of_unmarked
    {row : Text} (unmarked : ¬ "@@index(".toList <:+: row) : indexOf? row = none := by
  rw [indexOf?]
  split_ifs
  · rfl
  · exact isLed_extraIndex?.firstMatch_eq_none (by decide) unmarked none

theorem indexOf?_of_isSilent {row : Text} (silent : Text.IsSilent row) :
    indexOf? row = none := by
  rcases silent with rfl | comment
  · rfl
  · exact if_pos comment

/-- What is recovered from a line that shows its indexes. -/
theorem indexOf?_of_showsIndexes
    {line : Line} {row : List (Text × Attribute)} (shows : line.ShowsIndexes row)
    (plain : isComment line.text = false) :
    (indexOf? line.text).toList = Attribute.indexes row := by
  cases shows with
  | none spells unmarked =>
      have inCode : ¬ "@@index(".toList <:+: line.code := fun inside =>
        unmarked (inside.trans (Text.prefix_code line.text).isInfix)
      rw [indexOf?_of_unmarked unmarked, Attribute.indexes_eq_nil spells inCode]
      rfl
  | @single lead cut behind inner row others whole spells spelled further unmarked
      closed last =>
      have text : line.text = lead ++ (cut ++ (behind ++ line.comment)) := by
        conv => lhs; rw [← line.code_append_comment, whole]
        simp
      rw [List.forall_mem_cons, List.forall_mem_singleton] at unmarked
      have cuts := Attribute.indexes_append [(cut, ⟨"@@index", some inner⟩)] others
      rw [Attribute.indexes_eq_nil further unmarked.2] at cuts
      rw [indexOf?, plain, text,
        firstMatch_extraIndex?_append unmarked.1 spelled closed last,
        Attribute.indexes_append, Attribute.indexes_eq_nil spells unmarked.1]
      exact cuts.symm

end Mining

end SchemaCompose
