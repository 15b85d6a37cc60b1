import SchemaCompose.Proofs.Reading.Numbering
import SchemaCompose.Proofs.Reading.Resolution

/-!
# Blocks in any order

A document may be put together from segments, each a block with its documentation.
What a segment declares depends on the names that all segments declare, and not on
their order (`Segment.parse_document_eq_ok`), so that the same segments in another
order declare the same, listed in that order (`Segment.parse_document_perm`).
-/

namespace SchemaCompose

open Reading

/-! ## Blocks at their places -/

/-- The second block is the first one at some place. -/
def Block.Recurs (block echo : Block) : Prop :=
  ∃ move, block.Echoes move echo

variable {blocks echoes others : List Block}

theorem Declaration.forall₂_ofBlock_of_recurs
    (recur : List.Forall₂ Block.Recurs blocks echoes) (names : DeclaredNames)
    (declarations : List Declaration) :
    List.Forall₂ (fun echo declaration => ofBlock names echo = .ok declaration) echoes
        declarations ↔
      List.Forall₂ (fun block declaration => ofBlock names block = .ok declaration)
        blocks declarations := by
  induction recur generalizing declarations with
  | nil => simp
  | @cons block echo blocks echoes recurs _ ih =>
      obtain ⟨move, echoes⟩ := recurs
      have same (declaration : Declaration) :
          ofBlock names echo = .ok declaration ↔
            ofBlock names block = .ok declaration := by
        rw [(alike_ofBlock names echoes).eq_mapError]
        cases ofBlock names block with
        | error error => simp [Except.mapError]
        | ok own => simp [Except.mapError]
      simp only [List.forall₂_cons_left_iff, same, ih]

namespace Schema

/-- Blocks that stand elsewhere, each moved by itself, declare the same. -/
theorem ofBlocks_eq_ok_of_recurs
    (recur : List.Forall₂ Block.Recurs blocks echoes) {schema : Schema} :
    ofBlocks echoes = .ok schema ↔ ofBlocks blocks = .ok schema := by
  have headings : echoes.map Block.heading = blocks.map Block.heading :=
    Block.map_heading_of_forall₂ (fun _ _ ⟨_, echoes⟩ => echoes.heading) recur
  have named := Block.map_name_filter_of_heading headings
    fun kind => kind = .model || kind = .enum
  rw [ofBlocks_eq_ok, ofBlocks_eq_ok, DeclaredNames.ofBlocks_of_heading headings]
  refine exists_congr fun declarations => and_congr
    (Declaration.forall₂_ofBlock_of_recurs recur _ declarations) ?_
  exact and_congr_left' (Iff.of_eq (congrArg List.Nodup named))

end Schema

/-! ## Blocks in another order -/

/-- Names under which every type is resolved in the same way read the same fields. -/
theorem Field.read_of_kindOf? {names others : DeclaredNames}
    (same : names.kindOf? = others.kindOf?) : read names = read others := by
  funext documentation content
  rw [read, read, same]

theorem Declaration.ofBlock_of_kindOf? {names others : DeclaredNames}
    (same : names.kindOf? = others.kindOf?) : ofBlock names = ofBlock others := by
  have steps : Model.Reading.step names = Model.Reading.step others := by
    funext reading line
    rw [Model.Reading.step, Model.Reading.step, Field.read_of_kindOf? same]
  funext block
  rw [ofBlock, ofBlock, Model.ofBlock, Model.ofBlock, steps]

namespace DeclaredNames

/-- The order of blocks does not matter to the types that they name. -/
theorem kindOf?_of_perm (perm : blocks.Perm others) :
    (ofBlocks blocks).kindOf? = (ofBlocks others).kindOf? := by
  have members (isOf : Block → Bool) (type : Text) :
      ((blocks.filter isOf).map (·.name)).contains type =
        ((others.filter isOf).map (·.name)).contains type :=
    ((perm.filter isOf).map (·.name)).contains_eq
  funext type
  rw [kindOf?, kindOf?, ofBlocks, ofBlocks]
  dsimp only
  rw [members, members]

end DeclaredNames

namespace Schema

/-- A row of blocks is accepted exactly if each of them declares something under the
names that all of them declare, and no name is taken twice. -/
theorem ofBlocks_eq_ok_iff {schema : Schema} :
    ofBlocks blocks = .ok schema ↔
      ∃ declare : Block → Declaration,
        (∀ block ∈ blocks,
          Declaration.ofBlock (DeclaredNames.ofBlocks blocks) block =
            .ok (declare block)) ∧
        ((blocks.filter Block.isNamed).map (·.name)).Nodup ∧
        schema = ofDeclarations (blocks.map declare) := by
  have : Nonempty Declaration := ⟨.model default⟩
  rw [ofBlocks_eq_ok]
  simp only [forall₂_eq_ok_iff]
  constructor
  · rintro ⟨_, ⟨declare, declared, rfl⟩, distinct, rfl⟩
    exact ⟨declare, declared, distinct, rfl⟩
  · rintro ⟨declare, declared, distinct, rfl⟩
    exact ⟨_, ⟨declare, declared, rfl⟩, distinct, rfl⟩

/-- Blocks in another order declare the same, in that order. -/
theorem ofBlocks_of_perm
    (perm : blocks.Perm others) {schema : Schema}
    (accepted : ofBlocks blocks = .ok schema) :
    ∃ declare : Block → Declaration,
      (∀ block ∈ blocks,
        Declaration.ofBlock (DeclaredNames.ofBlocks blocks) block =
          .ok (declare block)) ∧
      ofBlocks blocks = .ok (ofDeclarations (blocks.map declare)) ∧
      ofBlocks others = .ok (ofDeclarations (others.map declare)) := by
  obtain ⟨declare, declared, distinct, rfl⟩ := ofBlocks_eq_ok_iff.mp accepted
  have named := (perm.filter Block.isNamed).map (·.name)
  refine ⟨declare, declared, accepted,
    ofBlocks_eq_ok_iff.mpr ⟨declare, ?_, named.nodup_iff.mp distinct, rfl⟩⟩
  intro block member
  rw [← declared block (perm.mem_iff.mpr member),
    Declaration.ofBlock_of_kindOf? (DeclaredNames.kindOf?_of_perm perm)]

end Schema

/-! ## Segments -/

namespace Block

/-- The lines are the documentation of the block, its header, its body and its
closing brace. -/
inductive Spans : Block → List Line → Prop
  | intro {block : Block} {documentation : List Line} {header closing : Line}
      (documented : ∀ line ∈ documentation, line.documentation?.isSome = true)
      (opens : block.Opens header)
      (own : block.documentation =
        joinDocumentation (documentation.filterMap Line.documentation?))
      (inside : ∀ line ∈ block.body, line.code ≠ ['}'])
      (closes : closing.code = ['}']) :
      Spans block (documentation ++ header :: (block.body ++ [closing]))

/-- The block with its lines under other numbers. -/
def moved (move : Nat → Nat) (block : Block) : Block :=
  { block with line := move block.line, body := block.body.map (Line.moved move) }

theorem echoes_moved (move : Nat → Nat) (block : Block) :
    block.Echoes move (block.moved move) := by
  refine ⟨rfl, rfl, rfl, rfl, ?_⟩
  rw [moved, List.filter_map]
  rfl

variable {block : Block} {lines : List Line}

theorem Spans.moved (spans : block.Spans lines) (move : Nat → Nat) :
    (block.moved move).Spans (lines.map (Line.moved move)) := by
  obtain ⟨documented, opens, own, inside, closes⟩ := spans
  rename_i documentation header closing
  have texts : (documentation.map (Line.moved move)).filterMap Line.documentation? =
      documentation.filterMap Line.documentation? := by
    rw [List.filterMap_map]
    rfl
  have spans := @Spans.intro (block.moved move) (documentation.map (Line.moved move))
    (header.moved move) (closing.moved move) (List.forall_mem_map.mpr documented)
    ⟨congrArg move opens.line, opens.named⟩ (texts ▸ own)
    (List.forall_mem_map.mpr inside) closes
  simpa [Block.moved] using spans

open Splitting

theorem foldlM_documented
    {documentation : List Line}
    (documented : ∀ line ∈ documentation, line.documentation?.isSome = true)
    (complete : List Block) (before : List Text) :
    documentation.foldlM step ⟨complete, .between before⟩ =
      .ok ⟨complete,
        .between (before ++ documentation.filterMap Line.documentation?)⟩ := by
  induction documentation generalizing before with
  | nil =>
      rw [List.filterMap_nil, List.append_nil]
      rfl
  | cons line others ih =>
      rw [List.forall_mem_cons] at documented
      obtain ⟨text, found⟩ := Option.isSome_iff_exists.mp documented.1
      have stepped : step ⟨complete, .between before⟩ line =
          .ok ⟨complete, .between (before ++ [text])⟩ := by
        simp only [step, found]
      rw [List.foldlM_cons, stepped, ok_bind, ih documented.2,
        List.filterMap_cons_some found, List.append_assoc]
      rfl

theorem foldlM_blank
    (blank : ∀ line ∈ lines, line.text = []) (complete : List Block) :
    lines.foldlM step ⟨complete, .between []⟩ = .ok ⟨complete, .between []⟩ := by
  induction lines with
  | nil => rfl
  | cons line others ih =>
      rw [List.forall_mem_cons] at blank
      rw [List.foldlM_cons, step_blank blank.1, ok_bind, ih blank.2]

/-- The lines of a block and its documentation give the block. -/
theorem Spans.foldlM (spans : block.Spans lines) (complete : List Block) :
    lines.foldlM step ⟨complete, .between []⟩ =
      .ok ⟨complete ++ [block], .between []⟩ := by
  obtain ⟨documented, opens, own, inside, closes⟩ := spans
  rename_i documentation header closing
  have closed : step ⟨complete, .within block⟩ closing =
      .ok ⟨complete ++ [block], .between []⟩ := by
    simp only [step, closes, if_true]
  rw [List.foldlM_append, foldlM_documented documented, ok_bind, List.nil_append,
    List.foldlM_cons, step_of_opens opens own, ok_bind, List.foldlM_append,
    foldlM_within inside, ok_bind, List.nil_append, List.foldlM_cons, closed]
  rfl

end Block

/-- A text that is one block with its documentation, and nothing else. -/
structure Segment where
  text : Text
  block : Block
  spans : block.Spans (Line.ofText text)

namespace Segment

variable {segments others : List Segment}

/-- The document of some segments, with a blank line between neighbours. -/
def document (segments : List Segment) : Text :=
  Text.join "\n\n" (segments.map (·.text))

/-- The names that some segments declare. -/
def names (segments : List Segment) : DeclaredNames :=
  DeclaredNames.ofBlocks (segments.map (·.block))

/-! ## Blocks of a document -/

/-- Behind its first segment a document has a blank line and the document of the
others. -/
theorem exists_lines_document (segment : Segment) (filled : others ≠ []) :
    ∃ gap, (∀ row ∈ gap, row = []) ∧
      Text.lines (document (segment :: others)) =
        Text.lines segment.text ++ gap ++ Text.lines (document others) := by
  obtain ⟨next, further, rfl⟩ := List.exists_cons_of_ne_nil filled
  obtain ⟨tail, whole, blank⟩ := Text.exists_lines_feed segment.text
  refine ⟨tail ++ [[]], ?_, ?_⟩
  · rcases blank with rfl | rfl
    · simp
    · simp
  · have parts : document (segment :: next :: further) =
        segment.text ++ '\n' :: '\n' :: document (next :: further) := by
      simp [document, Text.join]
    rw [parts, Text.lines_append_break, Text.lines_feed, whole]
    simp

/-- The document of some segments is cut into their blocks, each at its place. -/
theorem exists_foldlM_document
    (segments : List Segment) (distance : Nat) (complete : List Block) :
    ∃ echoes, List.Forall₂ Block.Recurs (segments.map (·.block)) echoes ∧
        (numbered (1 + distance) (Text.lines (document segments))).foldlM
            Block.Splitting.step ⟨complete, .between []⟩ =
          .ok ⟨complete ++ echoes, .between []⟩ := by
  induction segments generalizing distance complete with
  | nil =>
      refine ⟨[], .nil, ?_⟩
      rw [List.append_nil]
      rfl
  | cons segment others ih =>
      have own : (segment.block.moved (· + distance)).Spans
          (numbered (1 + distance) (Text.lines segment.text)) := by
        rw [← map_moved_numbered distance fun _ _ _ => rfl]
        exact segment.spans.moved (· + distance)
      have recurs : segment.block.Recurs (segment.block.moved (· + distance)) :=
        ⟨_, segment.block.echoes_moved _⟩
      cases others with
      | nil => exact ⟨_, .cons recurs .nil, own.foldlM complete⟩
      | cons next further =>
          obtain ⟨gap, blank, whole⟩ :=
            exists_lines_document segment (List.cons_ne_nil next further)
          obtain ⟨echoes, recur, folded⟩ :=
            ih (distance + (Text.lines segment.text ++ gap).length)
              (complete ++ [segment.block.moved (· + distance)])
          have silent : ∀ line ∈ numbered
              (1 + distance + (Text.lines segment.text).length) gap,
              line.text = [] := by
            intro line member
            have text := List.mem_map_of_mem (f := (·.text)) member
            rw [map_text_numbered] at text
            obtain ⟨row, inGap, same⟩ := List.mem_map.mp text
            rw [← same, blank row inGap]
            rfl
          refine ⟨_, .cons recurs recur, ?_⟩
          rw [whole, numbered_append, numbered_append, List.foldlM_append,
            List.foldlM_append, own.foldlM, ok_bind, Block.foldlM_blank silent,
            ok_bind, Nat.add_assoc 1, folded, List.append_assoc]
          rfl

/-! ## Declarations of a document -/

/-- What a document of segments declares is what their blocks declare. -/
theorem parse_document_eq_ok {schema : Schema} :
    Schema.parse (document segments) = .ok schema ↔
      Schema.ofBlocks (segments.map (·.block)) = .ok schema := by
  obtain ⟨echoes, recur, folded⟩ := exists_foldlM_document segments 0 []
  have split : Block.split (Line.ofText (document segments)) = .ok echoes := by
    rw [Block.split, Line.ofText_eq]
    exact congrArg (· >>= Block.Splitting.finish) folded
  rw [Schema.parse, split, ok_bind, Schema.ofBlocks_eq_ok_of_recurs recur]

/-- The same segments in two orders are accepted or refused together, and if they are
accepted each of them declares the same in both documents. -/
theorem parse_document_perm (perm : segments.Perm others) :
    (∃ declare : Segment → Declaration,
      (∀ segment ∈ segments, Declaration.ofBlock (names segments) segment.block =
        .ok (declare segment)) ∧
      Schema.parse (document segments) =
        .ok (Schema.ofDeclarations (segments.map declare)) ∧
      Schema.parse (document others) =
        .ok (Schema.ofDeclarations (others.map declare))) ∨
    ∃ error otherError, Schema.parse (document segments) = .error error ∧
      Schema.parse (document others) = .error otherError := by
  have blocks := perm.map (·.block)
  cases read : Schema.parse (document segments) with
  | ok schema =>
      obtain ⟨declare, declared, here, there⟩ :=
        Schema.ofBlocks_of_perm blocks (parse_document_eq_ok.mp read)
      rw [List.forall_mem_map] at declared
      rw [← parse_document_eq_ok, List.map_map] at here there
      exact Or.inl ⟨declare ∘ (·.block), declared, read ▸ here, there⟩
  | error error =>
      cases readOther : Schema.parse (document others) with
      | error otherError => exact Or.inr ⟨error, otherError, rfl, rfl⟩
      | ok schema =>
          obtain ⟨_, _, _, here⟩ :=
            Schema.ofBlocks_of_perm blocks.symm (parse_document_eq_ok.mp readOther)
          rw [← parse_document_eq_ok, read] at here
          contradiction

/-- A user with documentation and a role. -/
def user : Segment where
  text := "/// d\nmodel U \x7b\n  r R\n\x7d"
  block :=
    { kind := .model, name := "U", line := 2, documentation := "d"
      body := [⟨3, "r R"⟩] }
  spans := by
    have lines : Line.ofText "/// d\nmodel U \x7b\n  r R\n\x7d".toList =
        [⟨1, "/// d"⟩] ++ ⟨2, "model U \x7b"⟩ :: ([⟨3, "r R"⟩] ++ [⟨4, "\x7d"⟩]) := by
      decide +kernel
    rw [lines]
    exact .intro (by decide) ⟨rfl, "model", by decide, rfl⟩ rfl (by decide) rfl

/-- The roles of users. -/
def roles : Segment where
  text := "enum R \x7b\n  A\n\x7d"
  block :=
    { kind := .enum, name := "R", line := 1, documentation := none
      body := [⟨2, "A"⟩] }
  spans := by
    have lines : Line.ofText "enum R \x7b\n  A\n\x7d".toList =
        [] ++ ⟨1, "enum R \x7b"⟩ :: ([⟨2, "A"⟩] ++ [⟨3, "\x7d"⟩]) := by
      decide +kernel
    rw [lines]
    exact .intro (by decide) ⟨rfl, "enum", by decide, rfl⟩ rfl (by decide) rfl

/-- A user may stand in front of the roles or behind them. -/
theorem parse_document_perm_user :
    ∃ declare : Segment → Declaration,
      Schema.parse (document [user, roles]) =
        .ok (Schema.ofDeclarations [declare user, declare roles]) ∧
      Schema.parse (document [roles, user]) =
        .ok (Schema.ofDeclarations [declare roles, declare user]) := by
  have accepted : (Schema.parse (document [user, roles])).toOption.isSome = true := by
    decide +kernel
  rcases parse_document_perm (List.Perm.swap roles user []) with
    ⟨declare, _, here, there⟩ | ⟨error, _, refused, _⟩
  · exact ⟨declare, here, there⟩
  · rw [refused] at accepted
    contradiction

end Segment

end SchemaCompose
