import SchemaCompose.Proofs.Reading.Layout
import SchemaCompose.Schema.Parse

/-!
# Where a document is refused

Every document has an outline, also one that is refused: which of its lines are out
of place, and which spans of lines are complete blocks.  A document with a line out
of place is refused at the first of them, whatever its blocks hold; any other is
refused at a line of one of its blocks (`Schema.refused_by_outline`).
-/

namespace SchemaCompose

/-- The line opens a block of a supported kind. -/
def Line.IsHeader (line : Line) : Prop :=
  ∃ keyword name kind, Block.header? line.code = some (keyword, name) ∧
    BlockKind.ofKeyword? keyword = some kind

/-- An outline of some lines: the lines that are out of place, and the complete
blocks, each with its header and the lines of its body. A block that is never closed
has its header out of place. -/
inductive Outlined : List Line → List Line → List (List Line) → Prop
  | nil : Outlined [] [] []
  /-- A blank line, a comment or documentation. -/
  | gap {line : Line} {lines misplaced : List Line} {spans : List (List Line)}
      (empty : line.code = []) (further : Outlined lines misplaced spans) :
      Outlined (line :: lines) misplaced spans
  | stray {line : Line} {lines misplaced : List Line} {spans : List (List Line)}
      (filled : line.code ≠ []) (unheaded : ¬ line.IsHeader)
      (further : Outlined lines misplaced spans) :
      Outlined (line :: lines) (line :: misplaced) spans
  | block {header closing : Line} {body lines misplaced : List Line}
      {spans : List (List Line)} (opens : header.IsHeader)
      (inside : ∀ line ∈ body, line.code ≠ ['}']) (closes : closing.code = ['}'])
      (further : Outlined lines misplaced spans) :
      Outlined (header :: (body ++ closing :: lines)) misplaced
        ((header :: body) :: spans)
  | unclosed {header : Line} {body : List Line} (opens : header.IsHeader)
      (inside : ∀ line ∈ body, line.code ≠ ['}']) :
      Outlined (header :: body) [header] []

namespace Line

variable {line : Line}

theorem IsHeader.filled (isHeader : line.IsHeader) : line.code ≠ [] := by
  obtain ⟨keyword, name, kind, named, -⟩ := isHeader
  intro empty
  rw [empty] at named
  contradiction

/-- A header opens a block with any documentation and any body. -/
theorem IsHeader.exists_opens
    (isHeader : line.IsHeader) (documentation : Option Text) (body : List Line) :
    ∃ block : Block, block.Opens line ∧ block.documentation = documentation ∧
      block.body = body := by
  obtain ⟨keyword, name, kind, named, known⟩ := isHeader
  exact ⟨⟨kind, name, line.number, documentation, body⟩, ⟨rfl, keyword, named, known⟩,
    rfl, rfl⟩

/-- A line with code is neither blank nor a comment. -/
theorem text_of_filled (filled : line.code ≠ []) :
    line.text ≠ [] ∧ Text.startsWith "//" line.text = false := by
  constructor
  · intro blank
    rw [code, blank] at filled
    exact filled rfl
  · rw [Bool.eq_false_iff]
    intro comment
    obtain ⟨rest, found⟩ := Option.isSome_iff_exists.mp comment
    rw [code, Text.eq_append_of_after? found] at filled
    exact filled rfl

/-- The number of a line of a document tells where it stands there. -/
theorem getElem?_of_mem_ofText
    {text : Text} (member : line ∈ ofText text) :
    1 ≤ line.number ∧ line.number ≤ (Text.lines text).length ∧
      ∃ row, (Text.lines text)[line.number - 1]? = some row ∧
        line.text = Text.trim row := by
  obtain ⟨⟨row, number⟩, inRows, rfl⟩ := List.mem_map.mp member
  rw [List.mem_iff_getElem?] at inRows
  obtain ⟨place, found⟩ := inRows
  rw [List.getElem?_zipIdx, Option.map_eq_some_iff] at found
  obtain ⟨_, here, same⟩ := found
  obtain ⟨rfl, rfl⟩ := Prod.mk.inj same
  obtain ⟨within, -⟩ := List.getElem?_eq_some_iff.mp here
  show 1 ≤ 1 + place ∧ 1 + place ≤ _ ∧ _
  exact ⟨by omega, by omega, _, by simpa using here, rfl⟩

end Line

namespace Outlined

variable {lines misplaced : List Line} {spans : List (List Line)}

/-- Every document has an outline. The second part is about a block that is open in
front of the lines. -/
theorem exists_outline (lines : List Line) :
    (∃ misplaced spans, Outlined lines misplaced spans) ∧
      ∀ header body, header.IsHeader → (∀ line ∈ body, line.code ≠ ['}']) →
        ∃ misplaced spans, Outlined (header :: (body ++ lines)) misplaced spans := by
  induction lines with
  | nil =>
      refine ⟨⟨[], [], .nil⟩, fun header body opens inside => ?_⟩
      rw [List.append_nil]
      exact ⟨[header], [], .unclosed opens inside⟩
  | cons line lines ih =>
      obtain ⟨⟨misplaced, spans, further⟩, within⟩ := ih
      constructor
      · by_cases empty : line.code = []
        · exact ⟨misplaced, spans, .gap empty further⟩
        · by_cases opens : line.IsHeader
          · exact within line [] opens (by simp)
          · exact ⟨line :: misplaced, spans, .stray empty opens further⟩
      · intro header body opens inside
        by_cases closes : line.code = ['}']
        · exact ⟨misplaced, _, .block opens inside closes further⟩
        · rw [List.append_cons]
          apply within header (body ++ [line]) opens
          exact List.forall_mem_append.mpr
            ⟨inside, List.forall_mem_singleton.mpr closes⟩

theorem of_mem_misplaced
    (outlined : Outlined lines misplaced spans) {line : Line}
    (member : line ∈ misplaced) : line ∈ lines ∧ line.code ≠ [] := by
  induction outlined with
  | nil => simp at member
  | gap _ _ ih => exact (ih member).imp_left (List.mem_cons_of_mem _)
  | stray filled _ _ ih =>
      rcases List.mem_cons.mp member with rfl | behind
      · exact ⟨List.mem_cons_self, filled⟩
      · exact (ih behind).imp_left (List.mem_cons_of_mem _)
  | block _ _ _ _ ih =>
      exact (ih member).imp_left fun further => by simp [further]
  | unclosed opens _ =>
      rw [List.mem_singleton] at member
      rw [member]
      exact ⟨List.mem_cons_self, opens.filled⟩

theorem mem_of_mem_span
    (outlined : Outlined lines misplaced spans) {span : List Line}
    (inSpans : span ∈ spans) {line : Line} (member : line ∈ span) : line ∈ lines := by
  induction outlined with
  | nil => simp at inSpans
  | gap _ _ ih => exact List.mem_cons_of_mem _ (ih inSpans)
  | stray _ _ _ ih => exact List.mem_cons_of_mem _ (ih inSpans)
  | @block header closing body lines _ _ _ _ _ _ ih =>
      rcases List.mem_cons.mp inSpans with rfl | behind
      · have sub : header :: body ⊆ header :: (body ++ closing :: lines) := by simp
        exact sub member
      · simp [ih behind]
  | unclosed _ _ => simp at inSpans

end Outlined

/-! ## Cutting -/

namespace Block

open Splitting

/-- The lines of the block: its header and those of its body. -/
def Covers (block : Block) (span : List Line) : Prop :=
  ∃ header, block.Opens header ∧ span = header :: block.body

variable {complete : List Block} {documentation : List Text} {line : Line}

theorem exists_step_of_gap
    (empty : line.code = []) (complete : List Block) (documentation : List Text) :
    ∃ further, step ⟨complete, .between documentation⟩ line =
      .ok ⟨complete, .between further⟩ := by
  simp only [step]
  cases line.documentation? with
  | some text => exact ⟨_, rfl⟩
  | none =>
      by_cases blank : line.text = []
      · exact ⟨[], by simp [blank]⟩
      · exact ⟨documentation, by simp [blank, empty]⟩

theorem exists_step_of_stray
    (filled : line.code ≠ []) (unheaded : ¬ line.IsHeader) (complete : List Block)
    (documentation : List Text) :
    ∃ fault, step ⟨complete, .between documentation⟩ line =
      .error ⟨fault, line.number⟩ := by
  have undocumented : line.documentation? = none := by
    rw [Option.eq_none_iff_forall_not_mem]
    exact fun text documented => filled (code_of_documentation? documented)
  simp only [step, undocumented, List.isEmpty_iff, (Line.text_of_filled filled).1, filled,
    if_false]
  cases found : header? line.code with
  | none => exact ⟨_, rfl⟩
  | some header =>
      obtain ⟨keyword, name⟩ := header
      cases known : BlockKind.ofKeyword? keyword with
      | none => exact ⟨.unsupportedBlock keyword, by simp only [known]⟩
      | some kind => exact absurd ⟨keyword, name, kind, found, known⟩ unheaded

/-- A block whose lines are all there is cut out of them. -/
theorem exists_foldlM_of_header
    {body : List Line} (opens : line.IsHeader)
    (inside : ∀ line ∈ body, line.code ≠ ['}']) (complete : List Block)
    (documentation : List Text) :
    ∃ block : Block, block.Opens line ∧ block.body = body ∧
      (line :: body).foldlM step ⟨complete, .between documentation⟩ =
        .ok ⟨complete, .within block⟩ := by
  obtain ⟨block, opened, own, rfl⟩ :=
    opens.exists_opens (joinDocumentation documentation) body
  refine ⟨block, opened, rfl, ?_⟩
  rw [List.foldlM_cons, step_of_opens opened own, Reading.ok_bind,
    foldlM_within inside]
  rfl

/-- How the cutting of outlined lines ends: at the first line out of place, or with
the blocks of the outline. -/
theorem split_of_outlined
    {lines misplaced : List Line} {spans : List (List Line)}
    (outlined : Outlined lines misplaced spans) (complete : List Block)
    (documentation : List Text) :
    (∀ first ∈ misplaced.head?, ∃ fault,
        lines.foldlM step ⟨complete, .between documentation⟩ >>= finish =
          .error ⟨fault, first.number⟩) ∧
      (misplaced = [] → ∃ blocks,
        lines.foldlM step ⟨complete, .between documentation⟩ >>= finish =
          .ok (complete ++ blocks) ∧ List.Forall₂ Covers blocks spans) := by
  induction outlined generalizing complete documentation with
  | nil => exact ⟨by simp, fun _ => ⟨[], by rw [List.append_nil]; rfl, .nil⟩⟩
  | gap empty _ ih =>
      obtain ⟨further, stepped⟩ := exists_step_of_gap empty complete documentation
      rw [List.foldlM_cons, stepped, Reading.ok_bind]
      exact ih complete further
  | stray filled unheaded _ _ =>
      obtain ⟨fault, stepped⟩ :=
        exists_step_of_stray filled unheaded complete documentation
      rw [List.foldlM_cons, stepped]
      refine ⟨?_, by simp⟩
      rintro _ ⟨⟩
      exact ⟨fault, rfl⟩
  | @block header closing body lines misplaced spans opens inside closes _ ih =>
      obtain ⟨block, opened, own, read⟩ :=
        exists_foldlM_of_header opens inside complete documentation
      have closed : step ⟨complete, .within block⟩ closing =
          .ok ⟨complete ++ [block], .between []⟩ := by
        simp only [step, closes, if_true]
      have whole : (header :: (body ++ closing :: lines)).foldlM step
          ⟨complete, .between documentation⟩ =
            lines.foldlM step ⟨complete ++ [block], .between []⟩ := by
        rw [← List.cons_append, List.foldlM_append, read, Reading.ok_bind,
          List.foldlM_cons, closed, Reading.ok_bind]
      rw [whole]
      obtain ⟨refused, cut⟩ := ih (complete ++ [block]) []
      refine ⟨refused, fun none => ?_⟩
      obtain ⟨blocks, read, covered⟩ := cut none
      rw [List.append_assoc] at read
      exact ⟨block :: blocks, read, .cons ⟨header, opened, by rw [own]⟩ covered⟩
  | unclosed opens inside =>
      obtain ⟨block, opened, own, read⟩ :=
        exists_foldlM_of_header opens inside complete documentation
      rw [read, Reading.ok_bind]
      refine ⟨?_, by simp⟩
      rintro _ ⟨⟩
      rw [← opened.line]
      exact ⟨_, rfl⟩

end Block

/-! ## Reading what was cut -/

/-- The error is found on a line that holds code. -/
def ParseError.IsOn (error : ParseError) (line : Line) : Prop :=
  line.code ≠ [] ∧ error.line = line.number

theorem line_of_atLine {α : Type} {line : Nat} {reading : Except Fault α}
    {error : ParseError} (failed : atLine line reading = .error error) :
    error.line = line := by
  cases reading with
  | ok value => cases failed
  | error fault =>
      cases failed
      rfl

variable {line : Line} {block : Block} {error : ParseError}

theorem Model.isOn_of_step
    {names : DeclaredNames} {reading : Model.Reading}
    (failed : Reading.step names reading line = .error error) : error.IsOn line := by
  simp only [Reading.step] at failed
  split at failed
  · cases failed
  · split_ifs at failed with silent marked
    · rw [List.isEmpty_iff] at silent
      exact ⟨silent, line_of_atLine failed⟩
    · rw [List.isEmpty_iff] at silent
      exact ⟨silent, line_of_atLine failed⟩

theorem SchemaEnum.isOn_of_step
    {enum : SchemaEnum} (failed : enum.step line = .error error) :
    error.IsOn line := by
  rw [step] at failed
  by_cases silent : line.code = []
  · rw [silent] at failed
    cases failed
  · rw [if_neg (by rwa [List.isEmpty_iff])] at failed
    exact ⟨silent, line_of_atLine failed⟩

theorem Properties.isOn_of_step
    {kind : BlockKind} {properties : Properties}
    (failed : step kind properties line = .error error) : error.IsOn line := by
  rw [step] at failed
  split_ifs at failed with silent
  rw [List.isEmpty_iff] at silent
  split at failed
  · cases failed
    exact ⟨silent, rfl⟩
  · cases failed

namespace Block

/-- The error is found on the header of the block or on a line of its body. -/
def Holds (block : Block) (error : ParseError) : Prop :=
  error.line = block.line ∨ ∃ line ∈ block.body, error.IsOn line

theorem holds_of_foldlM
    {σ : Type} {step : σ → Line → Except ParseError σ} {start : σ}
    (isOn : ∀ state line, step state line = .error error → error.IsOn line)
    (failed : block.body.foldlM step start = .error error) : block.Holds error := by
  obtain ⟨line, member, state, fails⟩ := Reading.exists_step_of_foldlM_eq_error failed
  exact Or.inr ⟨line, member, isOn state line fails⟩

end Block

theorem Model.holds_of_ofBlock
    {names : DeclaredNames} (failed : ofBlock names block = .error error) :
    block.Holds error := by
  rcases Reading.bind_eq_error.mp failed with inBody | ⟨_, _, none⟩
  · exact Block.holds_of_foldlM (fun _ _ => Model.isOn_of_step) inBody
  · cases none

theorem SchemaEnum.holds_of_ofBlock
    (failed : ofBlock block = .error error) : block.Holds error :=
  Block.holds_of_foldlM (fun _ _ => SchemaEnum.isOn_of_step) failed

theorem Properties.holds_of_ofBlock
    (failed : ofBlock block = .error error) : block.Holds error := by
  rcases Reading.bind_eq_error.mp failed with inBody | ⟨properties, _, further⟩
  · exact Block.holds_of_foldlM (fun _ _ => Properties.isOn_of_step) inBody
  · split at further
    · cases further
      exact Or.inl rfl
    · cases further

theorem Datasource.holds_of_ofBlock
    (failed : ofBlock block = .error error) : block.Holds error := by
  rcases Reading.bind_eq_error.mp failed with inBlock | ⟨_, _, none⟩
  · exact Properties.holds_of_ofBlock inBlock
  · cases none

theorem Generator.holds_of_ofBlock
    (failed : ofBlock block = .error error) : block.Holds error := by
  rcases Reading.bind_eq_error.mp failed with inBlock | ⟨_, _, none⟩
  · exact Properties.holds_of_ofBlock inBlock
  · cases none

theorem Declaration.holds_of_ofBlock
    {names : DeclaredNames} (failed : ofBlock names block = .error error) :
    block.Holds error := by
  unfold ofBlock at failed
  split at failed
  · exact Model.holds_of_ofBlock (Reading.map_eq_error.mp failed)
  · exact SchemaEnum.holds_of_ofBlock (Reading.map_eq_error.mp failed)
  · exact Datasource.holds_of_ofBlock (Reading.map_eq_error.mp failed)
  · exact Generator.holds_of_ofBlock (Reading.map_eq_error.mp failed)

theorem Block.holds_of_distinctFrom
    {blocks : List Block} {taken : List Text}
    (failed : distinctFrom taken blocks = .error error) :
    ∃ block ∈ blocks, block.Holds error := by
  induction blocks generalizing taken with
  | nil => cases failed
  | cons block rest ih =>
      rw [distinctFrom] at failed
      split at failed
      · cases failed
        exact ⟨block, List.mem_cons_self, Or.inl rfl⟩
      · obtain ⟨other, member, holds⟩ := ih failed
        exact ⟨other, List.mem_cons_of_mem block member, holds⟩

/-- Blocks that are refused hold the line at which they are. -/
theorem Schema.holds_of_ofBlocks
    {blocks : List Block} (failed : ofBlocks blocks = .error error) :
    ∃ block ∈ blocks, block.Holds error := by
  rcases Reading.bind_eq_error.mp failed with undeclared | ⟨_, _, further⟩
  · obtain ⟨block, member, fails⟩ := Reading.exists_mem_of_mapM_eq_error undeclared
    exact ⟨block, member, Declaration.holds_of_ofBlock fails⟩
  · rcases Reading.bind_eq_error.mp further with repeated | ⟨_, _, none⟩
    · obtain ⟨block, member, holds⟩ := Block.holds_of_distinctFrom repeated
      exact ⟨block, List.mem_of_mem_filter member, holds⟩
    · cases none

theorem Block.Covers.exists_isOn
    {span : List Line} (covers : block.Covers span) (holds : block.Holds error) :
    ∃ line ∈ span, error.IsOn line := by
  obtain ⟨header, opens, rfl⟩ := covers
  rcases holds with atHeader | ⟨line, member, isOn⟩
  · obtain ⟨keyword, named, known⟩ := opens.named
    have isHeader : header.IsHeader := ⟨keyword, block.name, block.kind, named, known⟩
    exact ⟨header, List.mem_cons_self, isHeader.filled, atHeader.trans opens.line⟩
  · exact ⟨line, List.mem_cons_of_mem header member, isOn⟩

namespace Schema

/-- A refused document is refused at the first line out of place, or else at a line
of a block. -/
theorem isOn_of_outlined
    {text : Text} (refused : parse text = .error error)
    {misplaced : List Line} {spans : List (List Line)}
    (outlined : Outlined (Line.ofText text) misplaced spans) :
    (∀ first ∈ misplaced.head?, error.IsOn first) ∧
      (misplaced = [] →
        (∃ blocks, Block.split (Line.ofText text) = .ok blocks ∧
          List.Forall₂ Block.Covers blocks spans) ∧
        ∃ span ∈ spans, ∃ line ∈ span, error.IsOn line) := by
  obtain ⟨uncut, cut⟩ := Block.split_of_outlined outlined [] []
  have refused : (Block.split (Line.ofText text) >>= ofBlocks) = .error error := refused
  constructor
  · intro first head
    obtain ⟨fault, failed⟩ := uncut first head
    have failed : Block.split (Line.ofText text) = .error ⟨fault, first.number⟩ := failed
    rw [failed] at refused
    cases refused
    exact ⟨(outlined.of_mem_misplaced (List.mem_of_mem_head? head)).2, rfl⟩
  · intro none
    obtain ⟨blocks, read, covered⟩ := cut none
    have read : Block.split (Line.ofText text) = .ok blocks := read
    rw [read, Reading.ok_bind] at refused
    obtain ⟨block, member, holds⟩ := holds_of_ofBlocks refused
    obtain ⟨span, inSpans, covers⟩ := Reading.exists_of_mem_row covered member
    exact ⟨⟨blocks, read, covered⟩, span, inSpans, covers.exists_isOn holds⟩

/--
A refused document is refused at a line of its own, which is neither blank nor a
comment, and the message ends with the number of it.  The document has an outline;
by every outline of it, the line is the first one out of place.  If there is none,
the document is cut into the blocks of the outline, and the line is one of a block,
from its header to the last line of its body.
-/
theorem refused_by_outline
    {text : Text} {error : ParseError} (refused : parse text = .error error) :
    (∃ reason, error.message = reason ++ " (line " ++ Text.ofNat error.line ++ ")") ∧
      (1 ≤ error.line ∧ error.line ≤ (Text.lines text).length ∧
        ∃ row, (Text.lines text)[error.line - 1]? = some row ∧
          Text.trim row ≠ [] ∧ Text.startsWith "//" (Text.trim row) = false) ∧
      (∃ misplaced spans, Outlined (Line.ofText text) misplaced spans) ∧
      ∀ misplaced spans, Outlined (Line.ofText text) misplaced spans →
        (∀ first ∈ misplaced.head?, error.line = first.number) ∧
          (misplaced = [] →
            (∃ blocks, Block.split (Line.ofText text) = .ok blocks ∧
              List.Forall₂ Block.Covers blocks spans) ∧
            ∃ span ∈ spans, ∃ line ∈ span, error.line = line.number) := by
  obtain ⟨misplaced, spans, outlined⟩ :=
    (Outlined.exists_outline (Line.ofText text)).1
  have found : ∃ line ∈ Line.ofText text, error.IsOn line := by
    obtain ⟨first, inBlock⟩ := isOn_of_outlined refused outlined
    cases misplaced with
    | cons line others =>
        exact ⟨line, (outlined.of_mem_misplaced List.mem_cons_self).1, first line rfl⟩
    | nil =>
        obtain ⟨-, span, inSpans, line, member, isOn⟩ := inBlock rfl
        exact ⟨line, outlined.mem_of_mem_span inSpans member, isOn⟩
  refine ⟨⟨error.fault.message, rfl⟩, ?_, ⟨misplaced, spans, outlined⟩, ?_⟩
  · obtain ⟨line, member, filled, number⟩ := found
    obtain ⟨lower, upper, row, here, same⟩ := Line.getElem?_of_mem_ofText member
    rw [number]
    exact ⟨lower, upper, row, here, same ▸ Line.text_of_filled filled⟩
  · intro misplaced spans outlined
    obtain ⟨first, inBlock⟩ := isOn_of_outlined refused outlined
    refine ⟨fun line head => (first line head).2, fun none => ?_⟩
    obtain ⟨cut, span, inSpans, line, member, isOn⟩ := inBlock none
    exact ⟨cut, span, inSpans, line, member, isOn.2⟩

/-- A line out of place comes before an error inside a block in front of it. -/
theorem refused_at_stray_line :
    let text : Text := "model A \x7b\n  b Foo\n\x7d\nstray\nmodel B \x7b"
    let error : ParseError := ⟨.outsideBlock "stray", 4⟩
    parse text = .error error ∧
      error.message = "Unexpected content outside of a block: stray (line 4)" ∧
      ∀ misplaced spans, Outlined (Line.ofText text) misplaced spans →
        ∀ first ∈ misplaced.head?, 4 = first.number := by
  intro text error
  have refused : parse text = .error error := by decide +kernel
  exact ⟨refused, by decide +kernel, fun misplaced spans outlined =>
    ((refused_by_outline refused).2.2.2 misplaced spans outlined).1⟩

end Schema

end SchemaCompose
