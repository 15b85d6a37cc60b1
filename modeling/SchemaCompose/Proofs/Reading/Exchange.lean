import SchemaCompose.Proofs.Reading.AcceptedBodies
import SchemaCompose.Proofs.Reading.Numbering
import SchemaCompose.Proofs.Reading.Resolution

/-!
# One line for another

Two documents that differ in one line, which stands inside a block, are cut into the
same blocks but for that line.  Whether the second document is accepted and what it
declares is then decided by its one block, which is read under the names that the
first document declares (`Schema.parse_of_exchange`), and by the one line in it
(`Schema.exists_parse_exchange_model_iff`).
-/

namespace SchemaCompose

open Reading

/-! ## Cutting -/

namespace Block

open Splitting

variable {lines : List Line} {line fresh : Line} {blocks : List Block}

theorem Splitting.step_behind (earlier : List Block) (splitting : Splitting)
    (line : Line) :
    step { splitting with complete := earlier ++ splitting.complete } line =
      (step splitting line).map fun next =>
        { next with complete := earlier ++ next.complete } := by
  obtain ⟨complete, position⟩ := splitting
  cases position with
  | within block =>
      simp only [step]
      split_ifs
      · exact congrArg (fun row => Except.ok (Splitting.mk row (.between [])))
          (List.append_assoc earlier complete [block])
      · rfl
  | between documentation =>
      simp only [step]
      cases line.documentation? with
      | some text => rfl
      | none =>
          dsimp only
          split_ifs
          · rfl
          · rfl
          · cases header? line.code with
            | none => rfl
            | some header =>
                cases known : BlockKind.ofKeyword? header.1 with
                | none => simp only [known]; rfl
                | some kind => simp only [known]; rfl

/-- Blocks that are complete already stay in front, and nothing depends on them. -/
theorem read_behind (earlier complete : List Block) (position : Position)
    (lines : List Line) :
    lines.foldlM step ⟨earlier ++ complete, position⟩ >>= finish =
      (lines.foldlM step ⟨complete, position⟩ >>= finish).map (earlier ++ ·) := by
  induction lines generalizing complete position with
  | nil =>
      cases position with
      | between documentation => rfl
      | within block => rfl
  | cons line lines ih =>
      have here := step_behind earlier ⟨complete, position⟩ line
      dsimp only at here
      rw [List.foldlM_cons, List.foldlM_cons, here]
      cases step ⟨complete, position⟩ line with
      | error error => rfl
      | ok next => exact ih next.complete next.position

/-- The block with other lines in its body. -/
def withBody (block : Block) (body : List Line) : Block :=
  { block with body }

/-- An open block takes the lines up to the one that closes it; what stands behind is cut
by itself. -/
theorem split_of_open
    {upper : List Line} {closing : Line} {complete : List Block} {block : Block}
    (front : upper.foldlM step {} = .ok ⟨complete, .within block⟩)
    (inside : ∀ line ∈ lines, line.code ≠ ['}']) (closes : closing.code = ['}'])
    (further : List Line) :
    split (upper ++ (lines ++ closing :: further)) =
      (split further).map
        (complete ++ block.withBody (block.body ++ lines) :: ·) := by
  have closed : step ⟨complete, .within (block.withBody (block.body ++ lines))⟩ closing =
      .ok ⟨complete ++ [block.withBody (block.body ++ lines)], .between []⟩ := by
    simp only [step, closes, if_true]
  have behind := read_behind (complete ++ [block.withBody (block.body ++ lines)]) []
    (.between []) further
  rw [List.append_nil] at behind
  rw [split, List.foldlM_append, front, ok_bind, List.foldlM_append,
    foldlM_within inside, ok_bind, List.foldlM_cons]
  show (step ⟨complete, .within (block.withBody (block.body ++ lines))⟩ closing >>= _)
    >>= finish = _
  rw [closed, ok_bind, behind]
  simp only [List.append_assoc, List.singleton_append]
  rfl

/-- The lines of every block, and of the one that is open, are among the lines read. -/
structure Splitting.IsAmong (lines : List Line) (splitting : Splitting) : Prop where
  complete : ∀ block ∈ splitting.complete, block.body ⊆ lines
  within : ∀ block, splitting.position = .within block → block.body ⊆ lines

theorem Splitting.IsAmong.step
    {splitting next : Splitting} (among : splitting.IsAmong lines)
    (member : line ∈ lines) (read : splitting.step line = .ok next) :
    next.IsAmong lines := by
  obtain ⟨complete, position⟩ := splitting
  cases position with
  | within block =>
      have own := among.within block rfl
      simp only [Splitting.step] at read
      split_ifs at read with closes
      · cases read
        exact ⟨List.forall_mem_append.mpr
          ⟨among.complete, List.forall_mem_singleton.mpr own⟩, by simp⟩
      · cases read
        refine ⟨among.complete, ?_⟩
        rintro _ ⟨⟩
        exact List.append_subset.mpr ⟨own, by simpa using member⟩
  | between documentation =>
      rcases step_between_cases read with ⟨_, further, rfl⟩ | ⟨block, _, bare, rfl⟩
      · exact ⟨among.complete, by simp⟩
      · refine ⟨among.complete, ?_⟩
        rintro _ ⟨⟩
        rw [bare]
        exact List.nil_subset lines

theorem isAmong_of_foldlM
    {splitting : Splitting} (read : lines.foldlM step {} = .ok splitting) :
    splitting.IsAmong lines :=
  foldlM_keeps_of_mem (Splitting.IsAmong lines)
    (fun _ _ _ member among stepped => among.step member stepped)
    ⟨by simp, by simp⟩ read

/-- The body of a block stands behind its header. -/
theorem not_mem_of_laid
    (laid : Laid (line :: lines) blocks) (apart : line ∉ lines) :
    ∀ block ∈ blocks, line ∉ block.body := by
  intro block member inBody
  cases laid with
  | gap empty further => exact apart (further.mem_of_mem_body member inBody)
  | @block header closing first below others opens inside closes further =>
      rw [List.mem_append, List.mem_cons, not_or, not_or] at apart
      rcases List.mem_cons.mp member with rfl | behind
      · exact apart.1 inBody
      · exact apart.2.2 (further.mem_of_mem_body behind inBody)

end Block

/-- The documents have the same lines but for one.  In the first document it is a line of
the block. -/
structure Exchange (text other : Text) (block : Block) (line fresh : Line) : Prop where
  cut : ∃ blocks, Block.split (Line.ofText text) = .ok blocks ∧ block ∈ blocks
  member : line ∈ block.body
  lines : ∃ upper lower, Line.ofText text = upper ++ line :: lower ∧
    Line.ofText other = upper ++ fresh :: lower

namespace Exchange

variable {text other : Text} {block : Block} {line fresh : Line}

open Block Splitting

/-- In front of its line the block is open. -/
theorem exists_open (exchange : Exchange text other block line fresh) :
    ∃ upper complete above below closing further,
      Line.ofText text = upper ++ (line :: below ++ closing :: further) ∧
      Line.ofText other = upper ++ (fresh :: below ++ closing :: further) ∧
      upper.foldlM step {} = .ok ⟨complete, .within (block.withBody above)⟩ ∧
      block.body = above ++ line :: below ∧
      (∀ own ∈ line :: below, own.code ≠ ['}']) ∧ closing.code = ['}'] := by
  obtain ⟨⟨blocks, cut, inBlocks⟩, member, upper, lower, whole, fresh⟩ := exchange
  have read := cut
  rw [whole, split, List.foldlM_append, bind_assoc, bind_eq_ok] at read
  obtain ⟨⟨complete, position⟩, front, behind⟩ := read
  obtain ⟨others, rfl, reads⟩ := reads_of_foldlM behind
  -- The line stands once in the document, so it is in no other block.
  have distinct : (Line.ofText text).Nodup :=
    (Line.pairwise_number_ofText text).imp fun less same => by
      rw [same] at less
      exact Nat.lt_irrefl _ less
  rw [whole, List.nodup_append, List.nodup_cons] at distinct
  obtain ⟨_, ⟨notBelow, _⟩, apart⟩ := distinct
  have notAbove : line ∉ upper := fun inUpper =>
    apart line inUpper line List.mem_cons_self rfl
  have among := isAmong_of_foldlM front
  rcases List.mem_append.mp inBlocks with inComplete | inOthers
  · exact absurd (among.complete block inComplete member) notAbove
  · cases position with
    | between documentation =>
        exact absurd member (not_mem_of_laid reads notBelow block inOthers)
    | within opened =>
        obtain ⟨body, closing, further, others, same, inside, closes, laid, rfl⟩ := reads
        cases body with
        | nil =>
            obtain ⟨rfl, rfl⟩ := List.cons.inj same
            rcases List.mem_cons.mp inOthers with rfl | later
            · rw [List.append_nil] at member
              exact absurd (among.within opened rfl member) notAbove
            · exact absurd (laid.mem_of_mem_body later member) notBelow
        | cons first below =>
            obtain ⟨rfl, rfl⟩ := List.cons.inj same
            rcases List.mem_cons.mp inOthers with rfl | later
            · exact ⟨upper, complete, opened.body, below, closing, further, whole, fresh,
                front, rfl, inside, closes⟩
            · refine absurd ?_ notBelow
              simp [laid.mem_of_mem_body later member]

/-- The second document is cut into the blocks of the first, but for the one line. -/
theorem exists_split (exchange : Exchange text other block line fresh)
    (inside : fresh.code ≠ ['}']) :
    ∃ before after above below, block.body = above ++ line :: below ∧
      split (Line.ofText text) = .ok (before ++ block :: after) ∧
      split (Line.ofText other) =
        .ok (before ++ block.withBody (above ++ fresh :: below) :: after) := by
  obtain ⟨upper, complete, above, below, closing, further, whole, replaced, front, body,
    unclosed, closes⟩ := exchange.exists_open
  rw [List.forall_mem_cons] at unclosed
  have own := split_of_open front (List.forall_mem_cons.mpr unclosed) closes further
  have changed :=
    split_of_open front (List.forall_mem_cons.mpr ⟨inside, unclosed.2⟩) closes further
  rw [← whole] at own
  rw [← replaced] at changed
  obtain ⟨blocks, cut, _⟩ := exchange.cut
  obtain ⟨others, behind, _⟩ := map_eq_ok.mp (own.symm.trans cut)
  rw [behind] at own changed
  refine ⟨complete, others, above, below, body, ?_, changed⟩
  rw [own, withBody, withBody, ← body]
  rfl

end Exchange

/-! ## Declarations -/

theorem Reading.mapM_around {ε α β : Type} {read : α → Except ε β} {before after : List α}
    {item : α} {results : List β}
    (whole : (before ++ item :: after).mapM read = .ok results) :
    ∃ front result back, before.mapM read = .ok front ∧ read item = .ok result ∧
      after.mapM read = .ok back ∧ results = front ++ result :: back := by
  rw [List.mapM_append, bind_eq_ok] at whole
  obtain ⟨front, above, whole⟩ := whole
  obtain ⟨others, here, same⟩ := bind_eq_ok.mp whole
  rw [List.mapM_cons, bind_eq_ok] at here
  obtain ⟨result, own, here⟩ := here
  obtain ⟨back, below, others⟩ := bind_eq_ok.mp here
  obtain rfl := pure_eq_ok.mp others
  exact ⟨front, result, back, above, own, below, (pure_eq_ok.mp same).symm⟩

theorem Reading.exists_mem_of_forall₂ {α β : Type} {Relates : α → β → Prop}
    {items : List α} {results : List β} (each : List.Forall₂ Relates items results) {item : α}
    (member : item ∈ items) : ∃ result ∈ results, Relates item result := by
  induction each with
  | nil => contradiction
  | @cons first result others further relates _ ih =>
      rcases List.mem_cons.mp member with rfl | behind
      · exact ⟨result, List.mem_cons_self, relates⟩
      · obtain ⟨later, inFurther, own⟩ := ih behind
        exact ⟨later, List.mem_cons_of_mem _ inFurther, own⟩

/-- An item may stand in the place of one at which every step that succeeds does the same. -/
theorem Reading.foldlM_exchange {ε α σ : Type} {step : σ → α → Except ε σ}
    {before after : List α} {item other : α} {start final : σ}
    (same : ∀ state next, step state item = .ok next → step state other = .ok next)
    (read : (before ++ item :: after).foldlM step start = .ok final) :
    (before ++ other :: after).foldlM step start = .ok final := by
  rw [List.foldlM_append, bind_eq_ok] at read ⊢
  obtain ⟨state, front, read⟩ := read
  rw [List.foldlM_cons, bind_eq_ok] at read
  obtain ⟨next, stepped, behind⟩ := read
  refine ⟨state, front, ?_⟩
  rw [List.foldlM_cons, same state next stepped, ok_bind, behind]

namespace Model

variable {names : DeclaredNames} {line fresh : Line}

/-- A field line that declares what another one declares may stand in its place. -/
theorem Reading.step_of_same_field (isField : line.isField = true)
    (freshField : fresh.isField = true)
    (same : ∀ documentation field, Field.read names documentation line.code = .ok field →
      Field.read names documentation fresh.code = .ok field)
    {reading next : Model.Reading} (read : reading.step names line = .ok next) :
    reading.step names fresh = .ok next := by
  rw [step_of_isField reading isField, SchemaCompose.Reading.atLine_eq_ok] at read
  rw [step_of_isField reading freshField, SchemaCompose.Reading.atLine_eq_ok]
  obtain ⟨field, readField, behind⟩ := SchemaCompose.Reading.bind_eq_ok.mp read
  rw [same _ field readField, SchemaCompose.Reading.ok_bind]
  exact behind

end Model

namespace Schema

variable {text other : Text} {block : Block} {line fresh : Line} {schema : Schema}

/-- Blocks of which one is exchanged for a block of its heading are accepted if that one
is read, and declare the same but for it. -/
theorem ofBlocks_of_exchange
    {before after : List Block} {instead : Block}
    (heading : instead.heading = block.heading)
    (accepted : ofBlocks (before ++ block :: after) = .ok schema) :
    ∃ front declaration back, Declaration.ofBlock schema.names block = .ok declaration ∧
      schema = ofDeclarations (front ++ declaration :: back) ∧
      ofBlocks (before ++ instead :: after) =
        (Declaration.ofBlock schema.names instead).map fun declaration =>
          ofDeclarations (front ++ declaration :: back) := by
  obtain ⟨declarations, read, distinct, rfl⟩ := ofBlocks_eq_ok.mp accepted
  have headings : (before ++ instead :: after).map Block.heading =
      (before ++ block :: after).map Block.heading := by
    simp [heading]
  have named := Block.map_name_filter_of_heading headings
    fun kind => kind = .model || kind = .enum
  rw [names_ofDeclarations read]
  obtain ⟨front, declaration, back, above, own, below, rfl⟩ :=
    mapM_around (mapM_eq_ok.mpr read)
  refine ⟨front, declaration, back, own, rfl, ?_⟩
  have apart : Block.distinctFrom [] ((before ++ instead :: after).filter Block.isNamed) =
      .ok () := by
    refine Block.distinctFrom_eq_ok.mpr ⟨?_, by simp⟩
    exact (Iff.of_eq (congrArg List.Nodup named)).mpr distinct
  rw [ofBlocks, DeclaredNames.ofBlocks_of_heading headings, List.mapM_append, above, ok_bind,
    List.mapM_cons, below, apart]
  cases Declaration.ofBlock _ instead with
  | error error => rfl
  | ok result => rfl

/-- The second document declares what the first one does, except for what it declares with
the block in which the line is exchanged; it is refused exactly if that block is. -/
theorem parse_of_exchange
    (exchange : Exchange text other block line fresh) (inside : fresh.code ≠ ['}'])
    (accepted : parse text = .ok schema) :
    ∃ above below front declaration back, block.body = above ++ line :: below ∧
      Declaration.ofBlock schema.names block = .ok declaration ∧
      schema = ofDeclarations (front ++ declaration :: back) ∧
      parse other =
        (Declaration.ofBlock schema.names
          (block.withBody (above ++ fresh :: below))).map fun declaration =>
            ofDeclarations (front ++ declaration :: back) := by
  obtain ⟨before, after, above, below, body, cut, changed⟩ := exchange.exists_split inside
  rw [parse, cut, ok_bind] at accepted
  have heading : (block.withBody (above ++ fresh :: below)).heading = block.heading := rfl
  obtain ⟨front, declaration, back, own, whole, read⟩ :=
    ofBlocks_of_exchange heading accepted
  refine ⟨above, below, front, declaration, back, body, own, whole, ?_⟩
  rw [parse, changed, ok_bind, read]

theorem parse_of_exchange_model
    (exchange : Exchange text other block line fresh) (isModel : block.kind = .model)
    (inside : fresh.code ≠ ['}']) (accepted : parse text = .ok schema) :
    ∃ above below front model back, block.body = above ++ line :: below ∧
      Model.ofBlock schema.names block = .ok model ∧
      schema.models = front ++ model :: back ∧
      parse other =
        (Model.ofBlock schema.names
          (block.withBody (above ++ fresh :: below))).map fun model =>
            { schema with models := front ++ model :: back } := by
  obtain ⟨above, below, front, declaration, back, body, own, rfl, read⟩ :=
    parse_of_exchange exchange inside accepted
  rw [Declaration.ofBlock, isModel] at own
  obtain ⟨model, ofBlock, rfl⟩ := map_eq_ok.mp own
  refine ⟨above, below, (ofDeclarations front).models, model, (ofDeclarations back).models,
    body, ofBlock, by simp [ofDeclarations], ?_⟩
  have kind : (block.withBody (above ++ fresh :: below)).kind = .model := isModel
  rw [read, Declaration.ofBlock, kind]
  cases Model.ofBlock _ (block.withBody (above ++ fresh :: below)) with
  | error error => rfl
  | ok model => simp [Except.map, ofDeclarations]

theorem parse_of_exchange_enum
    (exchange : Exchange text other block line fresh) (isEnum : block.kind = .enum)
    (inside : fresh.code ≠ ['}']) (accepted : parse text = .ok schema) :
    ∃ above below front enum back, block.body = above ++ line :: below ∧
      SchemaEnum.ofBlock block = .ok enum ∧
      schema.enums = front ++ enum :: back ∧
      parse other =
        (SchemaEnum.ofBlock (block.withBody (above ++ fresh :: below))).map fun enum =>
          { schema with enums := front ++ enum :: back } := by
  obtain ⟨above, below, front, declaration, back, body, own, rfl, read⟩ :=
    parse_of_exchange exchange inside accepted
  rw [Declaration.ofBlock, isEnum] at own
  obtain ⟨enum, ofBlock, rfl⟩ := map_eq_ok.mp own
  refine ⟨above, below, (ofDeclarations front).enums, enum, (ofDeclarations back).enums,
    body, ofBlock, by simp [ofDeclarations], ?_⟩
  have kind : (block.withBody (above ++ fresh :: below)).kind = .enum := isEnum
  rw [read, Declaration.ofBlock, kind]
  cases SchemaEnum.ofBlock (block.withBody (above ++ fresh :: below)) with
  | error error => rfl
  | ok enum => simp [Except.map, ofDeclarations]

/-- A line that does in the model what another one does may stand in its place. -/
theorem parse_of_same_step_model
    (exchange : Exchange text other block line fresh) (isModel : block.kind = .model)
    (inside : fresh.code ≠ ['}']) (accepted : parse text = .ok schema)
    (same : ∀ reading next, Model.Reading.step schema.names reading line = .ok next →
      Model.Reading.step schema.names reading fresh = .ok next) :
    parse other = .ok schema := by
  obtain ⟨above, below, front, model, back, body, own, models, read⟩ :=
    parse_of_exchange_model exchange isModel inside accepted
  rw [Model.ofBlock, body] at own
  obtain ⟨final, folded, finished⟩ := bind_eq_ok.mp own
  have stays : Model.ofBlock schema.names (block.withBody (above ++ fresh :: below)) =
      .ok model :=
    bind_eq_ok.mpr ⟨final, foldlM_exchange same folded, finished⟩
  rw [read, stays]
  show Except.ok { schema with models := front ++ model :: back } = .ok schema
  rw [← models]

/-- A line that does in the enum what another one does may stand in its place. -/
theorem parse_of_same_step_enum
    (exchange : Exchange text other block line fresh) (isEnum : block.kind = .enum)
    (inside : fresh.code ≠ ['}']) (accepted : parse text = .ok schema)
    (same : ∀ enum next, SchemaEnum.step enum line = .ok next →
      SchemaEnum.step enum fresh = .ok next) :
    parse other = .ok schema := by
  obtain ⟨above, below, front, enum, back, body, own, enums, read⟩ :=
    parse_of_exchange_enum exchange isEnum inside accepted
  rw [SchemaEnum.ofBlock, body] at own
  have stays : SchemaEnum.ofBlock (block.withBody (above ++ fresh :: below)) = .ok enum :=
    foldlM_exchange same own
  rw [read, stays]
  show Except.ok { schema with enums := front ++ enum :: back } = .ok schema
  rw [← enums]

/-! ## Acceptance -/

/-- A line that names no other field than the one it stands for, or none, is accepted in
its place exactly if it is readable. -/
theorem exists_parse_exchange_model_iff
    (exchange : Exchange text other block line fresh) (isModel : block.kind = .model)
    (inside : fresh.code ≠ ['}'])
    (named : ∀ name ∈ fresh.fieldName?, line.fieldName? = some name)
    (accepted : parse text = .ok schema) :
    (∃ result, parse other = .ok result) ↔ Model.Accepts schema.names fresh := by
  obtain ⟨above, below, front, model, back, body, own, _, read⟩ :=
    parse_of_exchange_model exchange isModel inside accepted
  obtain ⟨readable, distinct⟩ := Model.exists_ofBlock_iff.mp ⟨model, own⟩
  rw [body, List.forall_mem_append, List.forall_mem_cons] at readable
  rw [body, List.filterMap_append] at distinct
  have still : ((above ++ fresh :: below).filterMap Line.fieldName?).Nodup := by
    rw [List.filterMap_append]
    cases given : fresh.fieldName? with
    | none =>
        rw [List.filterMap_cons_none given]
        refine distinct.sublist (List.Sublist.append_left ?_ _)
        exact (List.sublist_cons_self line below).filterMap Line.fieldName?
    | some name =>
        rwa [List.filterMap_cons_some given, ← List.filterMap_cons_some (named name given)]
  have whole : (∃ result, parse other = .ok result) ↔
      ∃ model, Model.ofBlock schema.names (block.withBody (above ++ fresh :: below)) =
        .ok model := by
    simp [read, map_eq_ok]
  rw [whole, Model.exists_ofBlock_iff]
  show (∀ line ∈ above ++ fresh :: below, _) ∧ _ ↔ _
  rw [List.forall_mem_append, List.forall_mem_cons]
  exact ⟨fun each => each.1.2.1, fun own => ⟨⟨readable.1, own, readable.2.2⟩, still⟩⟩

theorem exists_parse_exchange_enum_iff
    (exchange : Exchange text other block line fresh) (isEnum : block.kind = .enum)
    (inside : fresh.code ≠ ['}']) (accepted : parse text = .ok schema) :
    (∃ result, parse other = .ok result) ↔ SchemaEnum.Accepts fresh := by
  obtain ⟨above, below, front, enum, back, body, own, _, read⟩ :=
    parse_of_exchange_enum exchange isEnum inside accepted
  have readable := SchemaEnum.exists_ofBlock_iff.mp ⟨enum, own⟩
  rw [body, List.forall_mem_append, List.forall_mem_cons] at readable
  have whole : (∃ result, parse other = .ok result) ↔
      ∃ enum, SchemaEnum.ofBlock (block.withBody (above ++ fresh :: below)) =
        .ok enum := by
    simp [read, map_eq_ok]
  rw [whole, SchemaEnum.exists_ofBlock_iff]
  show (∀ line ∈ above ++ fresh :: below, _) ↔ _
  rw [List.forall_mem_append, List.forall_mem_cons]
  exact ⟨fun each => each.2.1, fun own => ⟨readable.1, own, readable.2.2⟩⟩

/-- A field line that is readable declares its field in the place of another line, which
named the same field. -/
theorem exists_field_of_exchange
    (exchange : Exchange text other block line fresh) (isModel : block.kind = .model)
    (inside : fresh.code ≠ ['}']) (named : fresh.fieldName? = line.fieldName?)
    (isField : fresh.isField = true) (accepted : parse text = .ok schema)
    (readable : ∃ field, Field.read schema.names none fresh.code = .ok field) :
    ∃ result model field documentation, parse other = .ok result ∧
      model ∈ result.models ∧ model.name = block.name ∧ field ∈ model.fields ∧
      Field.read schema.names documentation fresh.code = .ok field := by
  obtain ⟨above, below, front, _, back, _, _, _, read⟩ :=
    parse_of_exchange_model exchange isModel inside accepted
  have sameName : ∀ name ∈ fresh.fieldName?, line.fieldName? = some name :=
    fun name given => named.symm.trans given
  obtain ⟨result, parsed⟩ :=
    (exists_parse_exchange_model_iff exchange isModel inside sameName accepted).mpr
      ((Model.accepts_iff_of_isField isField).mpr readable)
  obtain ⟨model, ofBlock, rfl⟩ := map_eq_ok.mp (read.symm.trans parsed)
  have fields := Model.fields_of_ofBlock ofBlock
  have inBody : fresh ∈
      (block.withBody (above ++ fresh :: below)).body.filter Line.isField := by
    simp [Block.withBody, isField]
  obtain ⟨field, member, documentation, own⟩ := exists_mem_of_forall₂ fields inBody
  have name := Model.name_of_ofBlock ofBlock
  exact ⟨_, model, field, documentation, parsed, by simp, name, member, own⟩

/-- A line with block attributes in the place of a silent line adds the keys that it declares
to those of the lines above and below. -/
theorem hasKeys_of_exchange {sources : List Attribute}
    (exchange : Exchange text other block line fresh) (isModel : block.kind = .model)
    (accepted : parse text = .ok schema) (silent : line.isSilent = true)
    (marked : fresh.isMarked = true) (scanned : Attribute.scan fresh.code = .ok sources)
    (taken : ∀ source ∈ sources, Model.Takes source) :
    let keys (label : Text) (lines : List Line) := lines.flatMap (Line.keys label)
    ∃ above below front model changed back, block.body = above ++ line :: below ∧
      schema.models = front ++ model :: back ∧ model.name = block.name ∧
      parse other = .ok { schema with models := front ++ changed :: back } ∧
      changed.name = block.name ∧
      model.HasKeys (keys "@@unique" above ++ keys "@@unique" below)
        (keys "@@id" above ++ keys "@@id" below) ∧
      changed.HasKeys
        (keys "@@unique" above ++
          (sources.flatMap (·.keys "@@unique") ++ keys "@@unique" below))
        (keys "@@id" above ++ (sources.flatMap (·.keys "@@id") ++ keys "@@id" below)) := by
  intro keys
  have inside := Line.not_closing_of_isMarked marked
  have unnamed : ∀ name ∈ fresh.fieldName?, line.fieldName? = some name := by
    simp [Line.fieldName?, Line.isField_of_isMarked marked]
  obtain ⟨result, parsed⟩ :=
    (exists_parse_exchange_model_iff exchange isModel inside unnamed accepted).mpr
      ((Model.accepts_iff_of_isMarked marked scanned).mpr taken)
  obtain ⟨above, below, front, model, back, body, own, models, whole⟩ :=
    parse_of_exchange_model exchange isModel inside accepted
  obtain ⟨changed, ofBlock, rfl⟩ := map_eq_ok.mp (whole.symm.trans parsed)
  have before := Model.hasKeys_of_ofBlock own
  rw [body] at before
  simp only [List.flatMap_append, List.flatMap_cons, Line.keys_of_isSilent silent,
    List.nil_append] at before
  have after := Model.hasKeys_of_ofBlock ofBlock
  rw [show (block.withBody (above ++ fresh :: below)).body = above ++ fresh :: below from rfl]
    at after
  simp only [List.flatMap_append, List.flatMap_cons,
    Line.keys_of_isMarked marked scanned] at after
  have changedName := Model.name_of_ofBlock ofBlock
  exact ⟨above, below, front, model, changed, back, body, models,
    Model.name_of_ofBlock own, parsed, changedName, before, after⟩

/-- The lines of the blocks of an accepted document are readable. -/
theorem accepts_of_exchange_model
    (exchange : Exchange text other block line fresh) (isModel : block.kind = .model)
    (accepted : parse text = .ok schema) : Model.Accepts schema.names line := by
  obtain ⟨_, _, _, _, _, _, _, _, _, _, unclosed, _⟩ := exchange.exists_open
  have same : Exchange text text block line line := by
    obtain ⟨upper, lower, whole, _⟩ := exchange.lines
    exact ⟨exchange.cut, exchange.member, upper, lower, whole, whole⟩
  exact (exists_parse_exchange_model_iff same isModel (unclosed line List.mem_cons_self)
    (fun _ => id) accepted).mp ⟨schema, accepted⟩

end Schema

end SchemaCompose
