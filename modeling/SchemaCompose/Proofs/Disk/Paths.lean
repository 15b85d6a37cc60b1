import SchemaCompose.Disk.Path
import Mathlib.Tactic.SplitIfs

/-!
# Paths and their texts

A path is proper if every name of it is one and holds no slash, as in every path that
was read.  Followed from its start, the text of a proper path leads where its names
lead (`Path.IsProper.text_eq`).
-/

namespace SchemaCompose

/-- Every name of the path is one, and no slash stands in it. -/
def Path.IsProper (path : Path) : Prop :=
  ∀ part ∈ path.parts, isName part = true ∧ '/' ∉ part

namespace Text

theorem not_mem_of_mem_pieces {mark : Char} {text : Text} :
    ∀ piece ∈ pieces mark text, mark ∉ piece := by
  induction text with
  | nil => simp [pieces]
  | cons c text ih =>
      rw [pieces]
      split_ifs with same
      · simpa using ih
      · split
        · simpa using Ne.symm same
        · rename_i piece others rest
          rw [rest, List.forall_mem_cons] at ih
          rw [List.forall_mem_cons, List.mem_cons, not_or]
          exact ⟨⟨Ne.symm same, ih.1⟩, ih.2⟩

theorem pieces_of_not_mem {mark : Char} {text : Text} (plain : mark ∉ text) :
    pieces mark text = [text] := by
  induction text with
  | nil => rfl
  | cons c text ih =>
      rw [List.mem_cons, not_or] at plain
      rw [pieces, if_neg (Ne.symm plain.1), ih plain.2]

theorem pieces_ne_nil (mark : Char) (text : Text) : pieces mark text ≠ [] := by
  cases text with
  | nil => simp [pieces]
  | cons c text =>
      rw [pieces]
      split_ifs
      · simp
      · split <;> simp

theorem pieces_append_mark (mark : Char) (text rest : Text) :
    pieces mark (text ++ mark :: rest) = pieces mark text ++ pieces mark rest := by
  induction text with
  | nil => simp [pieces]
  | cons c text ih =>
      rw [List.cons_append, pieces, pieces, ih]
      split_ifs with same
      · rfl
      · cases none : pieces mark text with
        | nil => exact absurd none (pieces_ne_nil mark text)
        | cons piece others => rfl

/-- A character that does not cut stands in the text if it stands in a piece. -/
theorem exists_mem_pieces {mark c : Char} (different : c ≠ mark) {text : Text} :
    (∃ piece ∈ pieces mark text, c ∈ piece) ↔ c ∈ text := by
  induction text with
  | nil => simp [pieces]
  | cons first text ih =>
      rw [pieces, List.mem_cons, ← ih]
      split_ifs with cuts
      · simp [show c ≠ first from fun same => different (same.trans cuts)]
      · split
        · rename_i none
          simp [none]
        · rename_i piece others some
          simp [some, or_assoc]

/-- One more part is joined behind the others. -/
theorem join_concat {separator : Text} {parts : List Text} (filled : parts ≠ [])
    (last : Text) :
    join separator (parts ++ [last]) = join separator parts ++ separator ++ last := by
  induction parts with
  | nil => contradiction
  | cons part parts ih =>
      cases parts with
      | nil => rfl
      | cons next parts =>
          have rest := ih (List.cons_ne_nil next parts)
          simp only [List.cons_append, join] at rest ⊢
          rw [rest]
          simp only [List.append_assoc]

/-- Parts that are joined by a mark are the pieces again. -/
theorem pieces_join {mark : Char} {parts : List Text} (filled : parts ≠ [])
    (plain : ∀ part ∈ parts, mark ∉ part) :
    pieces mark (join [mark] parts) = parts := by
  induction parts with
  | nil => contradiction
  | cons part parts ih =>
      rw [List.forall_mem_cons] at plain
      cases parts with
      | nil => exact pieces_of_not_mem plain.1
      | cons next parts =>
          rw [join, List.append_assoc, List.singleton_append,
            pieces_append_mark, pieces_of_not_mem plain.1, ih (by simp) plain.2]
          rfl

end Text

namespace Path

theorem isProper_ofText (text : Text) : (ofText text).IsProper := by
  intro part member
  rw [ofText, List.mem_filter] at member
  exact ⟨member.2, Text.not_mem_of_mem_pieces part member.1⟩

theorem IsProper.append {base path : Path} (first : base.IsProper)
    (second : path.IsProper) : (base.append path).IsProper := by
  rw [Path.append]
  split_ifs
  · exact second
  · intro part member
    rcases List.mem_append.mp member with inBase | inPath
    · exact first part inBase
    · exact second part inPath

theorem IsProper.parent {path : Path} (proper : path.IsProper) :
    path.parent.IsProper := by
  intro part member
  exact proper part (List.dropLast_subset _ member)

/-- Names in a row start with something other than a slash. -/
theorem exists_join_cons {part : Text} (filled : part ≠ []) (plain : '/' ∉ part)
    (parts : List Text) :
    ∃ c rest, Text.join ['/'] (part :: parts) = c :: rest ∧ c ≠ '/' := by
  obtain ⟨c, others, rfl⟩ := List.exists_cons_of_ne_nil filled
  have slash : c ≠ '/' := by
    rintro rfl
    exact plain List.mem_cons_self
  cases parts with
  | nil => exact ⟨c, others, rfl, slash⟩
  | cons next parts => exact ⟨c, _, rfl, slash⟩

/-- The text of a path leads from its start through pieces that name nothing and then
through its names. -/
theorem IsProper.text_eq {path : Path} (proper : path.IsProper) :
    Anchor.ofText path.text = path.anchor ∧ path.text ≠ [] ∧
      ∃ lead, Text.pieces '/' path.text = lead ++ path.parts ∧
        (∀ piece ∈ lead, isName piece = false) ∧
        (path.anchor = .here → path.parts ≠ [] → lead = []) := by
  obtain ⟨anchor, parts⟩ := path
  have plain : ∀ part ∈ parts, '/' ∉ part := fun part member => (proper part member).2
  cases parts with
  | nil =>
      cases anchor with
      | here => exact ⟨rfl, by decide, [['.']], rfl, by decide, by simp⟩
      | root => exact ⟨rfl, by decide, [[], []], rfl, by decide, by simp⟩
      | doubleRoot => exact ⟨rfl, by decide, [[], [], []], rfl, by decide, by simp⟩
  | cons part parts =>
      have joined := Text.pieces_join (List.cons_ne_nil part parts) plain
      obtain ⟨isPart, own⟩ := proper part List.mem_cons_self
      have filled : part ≠ [] := by
        rintro rfl
        contradiction
      obtain ⟨c, rest, start, slash⟩ := exists_join_cons filled own parts
      cases anchor with
      | here =>
          have text : (Path.mk .here (part :: parts)).text =
              Text.join ['/'] (part :: parts) := rfl
          rw [text]
          refine ⟨?_, by simp [start], [], joined, by simp, by simp⟩
          rw [start]
          simp [Anchor.ofText, slash]
      | root =>
          have text : (Path.mk .root (part :: parts)).text =
              '/' :: Text.join ['/'] (part :: parts) := rfl
          rw [text]
          refine ⟨?_, by simp, [[]], ?_, by decide, by simp⟩
          · rw [start]
            simp [Anchor.ofText, slash]
          · rw [Text.pieces, if_pos rfl, joined]
            rfl
      | doubleRoot =>
          have text : (Path.mk .doubleRoot (part :: parts)).text =
              '/' :: '/' :: Text.join ['/'] (part :: parts) := rfl
          rw [text]
          refine ⟨?_, by simp, [[], []], ?_, by decide, by simp⟩
          · rw [start]
            simp [Anchor.ofText, slash]
          · rw [Text.pieces, if_pos rfl, Text.pieces, if_pos rfl, joined]
            rfl

end Path

end SchemaCompose
