import SchemaCompose.Mining.Pattern
import SchemaCompose.Proofs.Reading.Numbering

/-!
# A line more

A row that is put into a document, between two of its lines, moves the lines behind
it.  If the row is a comment, or is blank and stands inside a block, the document
declares the same as before, and is refused for the same reason as before at the
line that has moved (`Schema.parse_insert`).
-/

namespace SchemaCompose

/-! ## Rows put between lines -/

namespace Text

/-- A line may start behind the text. -/
def IsFed (text : Text) : Prop :=
  text = [] ∨ text.getLast? = some '\n'

instance : DecidablePred IsFed := fun text =>
  inferInstanceAs (Decidable (text = [] ∨ text.getLast? = some '\n'))

variable {before row after : Text}

theorem lines_append_of_isFed (fed : IsFed before) (after : Text) :
    lines (before ++ after) = lines before ++ lines after := by
  rcases fed with rfl | feed
  · rw [lines_nil]
    rfl
  · obtain ⟨rows, rfl⟩ := List.getLast?_eq_some_iff.mp feed
    rw [List.append_assoc]
    exact lines_append_break rows after

theorem lines_insert (fed : IsFed before) (single : IsLine row) (after : Text) :
    lines (before ++ row ++ '\n' :: after) = lines before ++ row :: lines after := by
  rw [List.append_assoc, lines_append_of_isFed fed, lines_append_feed single]

/-- The row is a comment that is neither documentation nor a stub directive. White
space may stand around it. -/
structure IsPlainComment (row : Text) : Prop where
  comment : startsWith "//" (trim row) = true
  undocumented : startsWith "///" (trim row) = false
  unmarked : Mining.isStubComment (trim row) = false

end Text

/-! ## Numbers of moved lines -/

/-- The number of a line when one more row stands behind the first `count` lines. -/
def shiftedBehind (count number : Nat) : Nat :=
  if number ≤ count then number else number + 1

namespace Line

variable {before row after : Text}

/-- The lines of a document in front of a place and behind it. -/
theorem ofText_append (fed : Text.IsFed before) (after : Text) :
    ofText (before ++ after) = ofText before ++
      numbered ((Text.lines before).length + 1) (Text.lines after) := by
  rw [ofText_eq, ofText_eq, Text.lines_append_of_isFed fed, numbered_append,
    Nat.add_comm]

theorem ofText_insert
    (fed : Text.IsFed before) (single : Text.IsLine row) (after : Text) :
    ofText (before ++ row ++ '\n' :: after) =
      (ofText before).map (moved (shiftedBehind (Text.lines before).length)) ++
        ⟨(Text.lines before).length + 1, Text.trim row⟩ ::
          (numbered ((Text.lines before).length + 1) (Text.lines after)).map
            (moved (shiftedBehind (Text.lines before).length)) := by
  have upper : (ofText before).map
      (moved (shiftedBehind (Text.lines before).length)) = ofText before := by
    rw [ofText_eq]
    apply map_moved_numbered 0
    intro number _ below
    exact if_pos (by omega)
  have lower : (numbered ((Text.lines before).length + 1) (Text.lines after)).map
      (moved (shiftedBehind (Text.lines before).length)) =
        numbered ((Text.lines before).length + 2) (Text.lines after) := by
    apply map_moved_numbered 1
    intro number above _
    exact if_neg (by omega)
  rw [upper, lower, ofText_eq, ofText_eq, Text.lines_insert fed single,
    numbered_append, Nat.add_comm 1]
  rfl

end Line

/-! ## Lines that are passed over -/

namespace Block

open Reading

/-- Readers at the same place of documents in which the blocks stand elsewhere. -/
inductive Position.Echoes (move : Nat → Nat) : Position → Position → Prop
  | between (documentation : List Text) :
      Echoes move (.between documentation) (.between documentation)
  | within {block echo : Block} (echoes : block.Echoes move echo) :
      Echoes move (.within block) (.within echo)

/-- The same of everything that was read. -/
structure Splitting.Echoes (move : Nat → Nat) (splitting echo : Splitting) :
    Prop where
  complete : List.Forall₂ (Block.Echoes move) splitting.complete echo.complete
  position : splitting.position.Echoes move echo.position

variable {move : Nat → Nat}

namespace Echoes

variable {block echo : Block}

/-- The line ends both blocks, as a line of both. -/
theorem append (echoes : block.Echoes move echo) (line : Line) :
    Echoes move { block with body := block.body ++ [line] }
      { echo with body := echo.body ++ [line.moved move] } := by
  have alike : (line.moved move).isIdle = line.isIdle := rfl
  refine ⟨echoes.kind, echoes.name, echoes.line, echoes.documentation, ?_⟩
  rw [List.filter_append, List.filter_append, List.map_append, echoes.body,
    List.filter_singleton, List.filter_singleton, alike]
  cases line.isIdle with
  | true => rfl
  | false => rfl

theorem append_idle (echoes : block.Echoes move echo) {line : Line}
    (idle : line.isIdle = true) :
    block.Echoes move { echo with body := echo.body ++ [line] } := by
  refine ⟨echoes.kind, echoes.name, echoes.line, echoes.documentation, ?_⟩
  rw [List.filter_append, List.filter_singleton, idle, ← echoes.body]
  exact List.append_nil _

end Echoes

namespace Splitting

variable {splitting echo : Splitting}

/-- One more line, and the same line elsewhere. -/
theorem Echoes.alike_step (echoes : splitting.Echoes move echo) (line : Line) :
    Alike (ParseError.moved move) (Echoes move) (step splitting line)
      (step echo (line.moved move)) := by
  obtain ⟨complete, position⟩ := splitting
  obtain ⟨completeEcho, positionEcho⟩ := echo
  obtain ⟨completes, positions⟩ := echoes
  cases positions with
  | within inside =>
      rw [step, step, Line.code_moved]
      dsimp only
      split_ifs
      · exact .ok ⟨List.rel_append completes (.cons inside .nil), .between []⟩
      · exact .ok ⟨completes, .within (inside.append line)⟩
  | between documentation =>
      rw [step, step, Line.code_moved, Line.documentation?_moved]
      cases line.documentation? with
      | some text => exact .ok ⟨completes, .between _⟩
      | none =>
          show Alike _ _ (if line.text.isEmpty then _ else _)
            (if line.text.isEmpty then _ else _)
          split_ifs
          · exact .ok ⟨completes, .between []⟩
          · exact .ok ⟨completes, .between documentation⟩
          · cases header? line.code with
            | none => exact .error (ParseError.mk _ line.number)
            | some header =>
                obtain ⟨keyword, name⟩ := header
                dsimp only
                cases BlockKind.ofKeyword? keyword with
                | none => exact .error (ParseError.mk _ line.number)
                | some kind =>
                    exact .ok ⟨completes, .within ⟨rfl, rfl, rfl, rfl, rfl⟩⟩

theorem Echoes.alike_foldlM (echoes : splitting.Echoes move echo)
    (lines : List Line) :
    Alike (ParseError.moved move) (Echoes move) (lines.foldlM step splitting)
      ((lines.map (Line.moved move)).foldlM step echo) := by
  refine Alike.foldlM (fun _ _ line _ same moved => ?_)
    (Line.forall₂_moved move lines) echoes
  rw [moved]
  exact same.alike_step line

theorem Echoes.alike_finish (echoes : splitting.Echoes move echo) :
    Alike (ParseError.moved move) (List.Forall₂ (Block.Echoes move)) splitting.finish
      echo.finish := by
  obtain ⟨complete, position⟩ := splitting
  obtain ⟨completeEcho, positionEcho⟩ := echo
  obtain ⟨completes, positions⟩ := echoes
  cases positions with
  | between documentation => exact .ok completes
  | within inside =>
      rw [finish, finish]
      dsimp only
      rw [inside.kind, inside.name, inside.line]
      exact .error (ParseError.mk _ _)

/-- A line that says nothing is passed over, unless it is blank and parts the
documentation from the header behind it. -/
theorem Echoes.step_idle (echoes : splitting.Echoes move echo) {line : Line}
    (idle : line.isIdle = true)
    (kept : line.text ≠ [] ∨ ∃ block, splitting.position = .within block) :
    ∃ next, step echo line = .ok next ∧ splitting.Echoes move next := by
  obtain ⟨complete, position⟩ := splitting
  obtain ⟨completeEcho, positionEcho⟩ := echo
  obtain ⟨completes, positions⟩ := echoes
  obtain ⟨undocumented, empty⟩ := Line.isIdle_iff.mp idle
  cases positions with
  | @within block echo inside =>
      refine ⟨⟨completeEcho, .within { echo with body := echo.body ++ [line] }⟩, ?_,
        completes, .within (inside.append_idle idle)⟩
      rw [step, empty]
      rfl
  | between documentation =>
      have filled : line.text.isEmpty = false := by
        rcases kept with filled | ⟨block, within⟩
        · rwa [List.isEmpty_eq_false_iff]
        · contradiction
      refine ⟨⟨completeEcho, .between documentation⟩, ?_, completes,
        .between documentation⟩
      rw [step, undocumented, filled, empty]
      rfl

end Splitting

/-- The lines end inside a block. -/
def IsOpenBehind (lines : List Line) : Prop :=
  ∃ complete block, lines.foldlM Splitting.step {} = .ok ⟨complete, .within block⟩

/-- A line that says nothing may be put between others, which are moved. A blank one
must stand inside a block. -/
theorem alike_split_insert
    {upper : List Line} (lower : List Line) {line : Line} (idle : line.isIdle = true)
    (kept : line.text ≠ [] ∨ IsOpenBehind upper) :
    Alike (ParseError.moved move) (List.Forall₂ (Echoes move))
      (split (upper ++ lower))
      (split (upper.map (Line.moved move) ++ line :: lower.map (Line.moved move))) := by
  have start : Splitting.Echoes move {} {} := ⟨.nil, .between []⟩
  have above := start.alike_foldlM upper
  have passed : ∀ splitting, upper.foldlM Splitting.step {} = .ok splitting →
      line.text ≠ [] ∨ ∃ block, splitting.position = .within block := by
    intro splitting read
    refine kept.imp_right fun ⟨complete, block, within⟩ => ?_
    obtain rfl := Except.ok.inj (within.symm.trans read)
    exact ⟨block, rfl⟩
  rw [split, split, List.foldlM_append, List.foldlM_append, bind_assoc, bind_assoc]
  generalize upper.foldlM Splitting.step {} = reading at above passed ⊢
  generalize (upper.map (Line.moved move)).foldlM Splitting.step {} = other at above ⊢
  cases above with
  | error fault => exact .error fault
  | @ok splitting echo echoes =>
      obtain ⟨next, stepped, echoes⟩ := echoes.step_idle idle (passed splitting rfl)
      rw [ok_bind, ok_bind, List.foldlM_cons, stepped, ok_bind]
      exact (echoes.alike_foldlM lower).bind fun _ _ => Splitting.Echoes.alike_finish

end Block

/-! ## Documents with a row more -/

/-- The row may be put behind the text: it is a comment, or blank inside a block. -/
inductive Text.IsIdleBehind (before row : Text) : Prop
  | comment (plain : IsPlainComment row)
  | blank (empty : trim row = [])
      (inside : Block.IsOpenBehind (Line.ofText before))

namespace Text

variable {before row : Text}

theorem IsPlainComment.exists_of_trim (plain : IsPlainComment row) :
    ∃ rest, trim row = '/' :: '/' :: rest := by
  obtain ⟨rest, found⟩ := Option.isSome_iff_exists.mp plain.comment
  exact ⟨rest, eq_append_of_after? found⟩

theorem IsIdleBehind.isIdle (idle : IsIdleBehind before row) (number : Nat) :
    (Line.mk number (trim row)).isIdle = true := by
  rw [Line.isIdle_iff, Line.documentation?, Line.code]
  cases idle with
  | comment plain =>
      have undocumented := plain.undocumented
      obtain ⟨rest, same⟩ := plain.exists_of_trim
      rw [startsWith, Option.isSome_eq_false_iff, Option.isNone_iff_eq_none]
        at undocumented
      exact ⟨by rw [undocumented]; rfl, by rw [same]; rfl⟩
  | blank empty _ =>
      rw [empty]
      exact ⟨rfl, rfl⟩

end Text

open Text in
/-- A row that says nothing moves the lines behind it, and changes nothing else in
what a document declares or is refused for. -/
theorem Schema.parse_insert
    {before row : Text} (fed : IsFed before) (single : IsLine row)
    (idle : IsIdleBehind before row) (after : Text) :
    parse (before ++ row ++ '\n' :: after) =
      (parse (before ++ after)).mapError
        (ParseError.moved (shiftedBehind (lines before).length)) := by
  have kept : trim row ≠ [] ∨ Block.IsOpenBehind (Line.ofText before) := by
    cases idle with
    | comment plain =>
        obtain ⟨rest, same⟩ := plain.exists_of_trim
        exact Or.inl (by simp [same])
    | blank _ inside => exact Or.inr inside
  rw [parse, parse, Line.ofText_append fed, Line.ofText_insert fed single]
  apply Reading.Alike.eq_mapError
  exact (Block.alike_split_insert _ (idle.isIdle _) kept).bind
    fun _ _ => alike_ofBlocks

end SchemaCompose
