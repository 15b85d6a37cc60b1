import SchemaCompose.Proofs.Reading.Success
import SchemaCompose.Proofs.Text.Rows
import SchemaCompose.Schema.Block

/-!
# The layout of an accepted document

The lines of a document that is cut into blocks are laid out block by block: lines
that say nothing, a header, the lines of the body, and the closing brace
(`laid_of_split`).  A block stands at the place that its line number says, and what
comes before it and behind it is laid out in the same way (`Laid.around`).
-/

namespace SchemaCompose

/-- The line is the header of the block. -/
structure Block.Opens (block : Block) (header : Line) : Prop where
  line : block.line = header.number
  named : ∃ keyword, Block.header? header.code = some (keyword, block.name) ∧
    BlockKind.ofKeyword? keyword = some block.kind

/-- How the lines of a document hold its blocks. -/
inductive Laid : List Line → List Block → Prop
  | nil : Laid [] []
  /-- A blank line, a comment or documentation. -/
  | gap {line : Line} {lines : List Line} {blocks : List Block}
      (empty : line.code = []) (further : Laid lines blocks) :
      Laid (line :: lines) blocks
  | block {header closing : Line} {block : Block} {lines : List Line}
      {blocks : List Block} (opens : block.Opens header)
      (inside : ∀ line ∈ block.body, line.code ≠ ['}'])
      (closes : closing.code = ['}']) (further : Laid lines blocks) :
      Laid (header :: (block.body ++ closing :: lines)) (block :: blocks)

namespace Block

open Splitting

variable {lines : List Line} {blocks complete : List Block}

/-! ## One line -/

theorem code_of_documentation?
    {line : Line} {text : Text} (documented : line.documentation? = some text) :
    line.code = [] := by
  obtain ⟨rest, behind, _⟩ := Option.map_eq_some_iff.mp documented
  rw [Line.code, Text.eq_append_of_after? behind]
  rfl

/-- What one more line does to a reader between blocks: it says nothing, or it opens
a block. -/
theorem step_between_cases
    {documentation : List Text} {line : Line} {next : Splitting}
    (read : step ⟨complete, .between documentation⟩ line = .ok next) :
    (line.code = [] ∧
        ∃ further, next = ⟨complete, .between further⟩) ∨
      ∃ block, block.Opens line ∧ block.body = [] ∧
        next = ⟨complete, .within block⟩ := by
  simp only [step] at read
  split at read
  · rename_i text documented
    cases read
    exact Or.inl ⟨code_of_documentation? documented, _, rfl⟩
  · split_ifs at read with blank silent
    · cases read
      rw [List.isEmpty_iff] at blank
      exact Or.inl ⟨by rw [Line.code, blank]; rfl, _, rfl⟩
    · cases read
      exact Or.inl ⟨List.isEmpty_iff.mp silent, _, rfl⟩
    · split at read
      · contradiction
      · rename_i keyword name header
        split at read
        · contradiction
        · rename_i kind known
          cases read
          exact Or.inr ⟨_, ⟨rfl, keyword, header, known⟩, rfl, rfl⟩

theorem step_blank
    {line : Line} (blank : line.text = []) (complete : List Block)
    (documentation : List Text) :
    step ⟨complete, .between documentation⟩ line = .ok ⟨complete, .between []⟩ := by
  have none : line.documentation? = none := by
    rw [Line.documentation?, blank]
    rfl
  simp only [step, none, blank, List.isEmpty_nil, if_true]

/-- A header opens its block, with the documentation in front of it. -/
theorem step_of_opens
    {block : Block} {header : Line} (opens : block.Opens header)
    {documentation : List Text}
    (own : block.documentation = joinDocumentation documentation)
    (complete : List Block) :
    step ⟨complete, .between documentation⟩ header =
      .ok ⟨complete, .within { block with body := [] }⟩ := by
  obtain ⟨keyword, named, known⟩ := opens.named
  have code : header.code ≠ [] := by
    intro empty
    rw [empty] at named
    contradiction
  have undocumented : header.documentation? = none := by
    rw [Option.eq_none_iff_forall_not_mem]
    exact fun text documented => code (code_of_documentation? documented)
  have filled : header.text ≠ [] := by
    intro empty
    rw [Line.code, empty] at code
    exact code rfl
  rw [← List.isEmpty_eq_false_iff] at code filled
  simp only [step, undocumented, filled, code, named, known, opens.line, own,
    Bool.false_eq_true, if_false]

/-! ## All lines -/

theorem foldlM_within
    {lines : List Line} (inside : ∀ line ∈ lines, line.code ≠ ['}'])
    (complete : List Block) (block : Block) :
    lines.foldlM step ⟨complete, .within block⟩ =
      .ok ⟨complete, .within { block with body := block.body ++ lines }⟩ := by
  induction lines generalizing block with
  | nil =>
      rw [List.append_nil]
      rfl
  | cons line others ih =>
      rw [List.forall_mem_cons] at inside
      have stepped : step ⟨complete, .within block⟩ line =
          .ok ⟨complete, .within { block with body := block.body ++ [line] }⟩ := by
        simp only [step, inside.1, if_false]
      rw [List.foldlM_cons, stepped, Reading.ok_bind, ih inside.2]
      simp

/-- What a reader at a position finds in the lines that are still to be read. -/
def Position.Reads (lines : List Line) (blocks : List Block) : Position → Prop
  | .between _ => Laid lines blocks
  | .within block =>
    ∃ body closing further others,
      lines = body ++ closing :: further ∧
      (∀ line ∈ body, line.code ≠ ['}']) ∧ closing.code = ['}'] ∧
      Laid further others ∧
      blocks = { block with body := block.body ++ body } :: others

theorem reads_of_foldlM
    {position : Position}
    (read : lines.foldlM step ⟨complete, position⟩ >>= finish = .ok blocks) :
    ∃ others, blocks = complete ++ others ∧ position.Reads lines others := by
  induction lines generalizing complete position with
  | nil =>
      cases position with
      | between documentation =>
          cases read
          exact ⟨[], (List.append_nil _).symm, .nil⟩
      | within block => contradiction
  | cons line lines ih =>
      rw [List.foldlM_cons, bind_assoc, Reading.bind_eq_ok] at read
      obtain ⟨next, stepped, read⟩ := read
      cases position with
      | between documentation =>
          rcases step_between_cases stepped with
            ⟨empty, further, rfl⟩ | ⟨block, opens, bare, rfl⟩
          · obtain ⟨others, same, laid⟩ := ih read
            exact ⟨others, same, .gap empty laid⟩
          · obtain ⟨_, same, body, closing, further, others, rfl, inside, closes,
              laid, rfl⟩ := ih read
            rw [bare, List.nil_append] at same
            refine ⟨_, same, ?_⟩
            have opened : Block.Opens { block with body } line :=
              ⟨opens.line, opens.named⟩
            exact .block opened inside closes laid
      | within block =>
          simp only [step] at stepped
          split_ifs at stepped with closes
          · cases stepped
            obtain ⟨others, same, laid⟩ := ih read
            refine ⟨block :: others, by simpa using same,
              [], line, lines, others, rfl, by simp, closes, laid, ?_⟩
            rw [List.append_nil]
          · cases stepped
            obtain ⟨_, same, body, closing, further, others, rfl, inside, closing,
              laid, rfl⟩ := ih read
            refine ⟨_, same, line :: body, _, further, others, rfl, ?_, closing,
              laid, ?_⟩
            · exact List.forall_mem_cons.mpr ⟨closes, inside⟩
            · rw [List.append_assoc]
              rfl

theorem laid_of_split (read : split lines = .ok blocks) : Laid lines blocks := by
  obtain ⟨others, rfl, laid⟩ := reads_of_foldlM read
  exact laid

end Block

/-! ## Around a block -/

namespace Laid

variable {lines : List Line} {before after : List Block} {block : Block}

/-- A block stands between what is laid out before it and behind it. -/
theorem around (laid : Laid lines (before ++ block :: after)) :
    ∃ upper header closing lower,
      lines = upper ++ header :: (block.body ++ closing :: lower) ∧
      block.Opens header ∧ (∀ line ∈ block.body, line.code ≠ ['}']) ∧
      closing.code = ['}'] ∧ Laid upper before ∧ Laid lower after := by
  generalize whole : before ++ block :: after = blocks at laid
  induction laid generalizing before with
  | nil => simp at whole
  | @gap line lines blocks empty further ih =>
      obtain ⟨upper, header, closing, lower, rfl, opens, inside, closes, above,
        below⟩ := ih whole
      exact ⟨line :: upper, header, closing, lower, rfl, opens, inside, closes,
        .gap empty above, below⟩
  | @block first last own lines blocks opens inside closes further ih =>
      cases before with
      | nil =>
          obtain ⟨rfl, rfl⟩ := List.cons.inj whole
          exact ⟨[], first, last, lines, rfl, opens, inside, closes, .nil, further⟩
      | cons other before =>
          obtain ⟨rfl, rest⟩ := List.cons.inj whole
          obtain ⟨upper, header, closing, lower, rfl, opensOwn, insideOwn,
            closesOwn, above, below⟩ := ih rest
          refine ⟨first :: (other.body ++ last :: upper), header, closing, lower,
            by simp, opensOwn, insideOwn, closesOwn, ?_, below⟩
          exact .block opens inside closes above

/-- Where no block is laid out, every line is empty. -/
theorem code_of_nil (laid : Laid lines []) : ∀ line ∈ lines, line.code = [] := by
  generalize none : ([] : List Block) = blocks at laid
  induction laid with
  | nil => simp
  | gap empty _ ih => exact List.forall_mem_cons.mpr ⟨empty, ih none⟩
  | block _ _ _ _ _ => contradiction

/-- What holds of every line between blocks, of every header, of every line of a
body and of every closing line holds of every line. -/
theorem forall_mem {blocks : List Block} (laid : Laid lines blocks)
    (Holds : Line → Prop) (gap : ∀ line, line.code = [] → Holds line)
    (header : ∀ block ∈ blocks, ∀ line, block.Opens line → Holds line)
    (body : ∀ block ∈ blocks, ∀ line ∈ block.body, Holds line)
    (closing : ∀ line, line.code = ['}'] → Holds line) :
    ∀ line ∈ lines, Holds line := by
  induction laid with
  | nil => simp
  | gap empty _ ih =>
      exact List.forall_mem_cons.mpr ⟨gap _ empty, ih header body⟩
  | @block first last own lines blocks opens _ closes _ ih =>
      rw [List.forall_mem_cons] at header body
      simp only [List.forall_mem_cons, List.forall_mem_append]
      exact ⟨header.1 first opens, body.1, closing last closes,
        ih header.2 body.2⟩

end Laid

/-! ## Line numbers -/

/-- Trimmed lines with their numbers. -/
def numbered (start : Nat) (rows : List Text) : List Line :=
  (rows.zipIdx start).map fun (row, number) => ⟨number, Text.trim row⟩

theorem map_text_numbered (start : Nat) (rows : List Text) :
    (numbered start rows).map (·.text) = rows.map Text.trim := by
  rw [numbered, List.map_map]
  show (rows.zipIdx start).map (Text.trim ∘ Prod.fst) = _
  rw [← List.map_map, List.zipIdx_map_fst]

theorem numbered_append (start : Nat) (rows others : List Text) :
    numbered start (rows ++ others) =
      numbered start rows ++ numbered (start + rows.length) others := by
  rw [numbered, List.zipIdx_append, List.map_append]
  rfl

namespace Line

theorem ofText_eq (text : Text) : ofText text = numbered 1 (Text.lines text) := rfl

theorem map_text_ofText (text : Text) :
    (ofText text).map (·.text) = (Text.lines text).map Text.trim :=
  map_text_numbered 1 (Text.lines text)

/-- The number of a line counts the lines before it. -/
theorem number_of_ofText
    {text : Text} {upper lower : List Line} {line : Line}
    (lines : ofText text = upper ++ line :: lower) :
    line.number = upper.length + 1 := by
  have here : (ofText text)[upper.length]? = some line := by
    rw [lines, List.getElem?_append_right (Nat.le_refl _)]
    simp
  rw [ofText_eq, numbered, List.getElem?_map, Option.map_eq_some_iff] at here
  obtain ⟨⟨row, number⟩, found, rfl⟩ := here
  rw [List.getElem?_zipIdx, Option.map_eq_some_iff] at found
  obtain ⟨_, _, same⟩ := found
  have count : 1 + upper.length = number := congrArg Prod.snd same
  show number = _
  omega

end Line

end SchemaCompose
