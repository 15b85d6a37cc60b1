import Mathlib.Data.List.DropRight
import SchemaCompose.Proofs.Reading.Resolution
import SchemaCompose.Proofs.Reading.Layout

/-!
# Whose documentation it is

Documentation belongs to the line that it stands above.  For a header the lines above
count as far as they are comments and documentation; for the line of a field blank
lines are passed over too.  An accepted document gives each model, enum and field the
documentation that is found in this way, and no line is found for two of them
(`Schema.documentation_of_parse`).
-/

namespace SchemaCompose

/-! ## Lines above a line -/

namespace Line

/-- The line holds no code: it is blank, a comment or documentation. -/
def isSilent (line : Line) : Bool :=
  line.code.isEmpty

/-- The line is a comment or documentation. -/
def isRemark (line : Line) : Bool :=
  line.isSilent && !line.text.isEmpty

/-- In the body of a block, the line holds attributes of the block. -/
def isMarked (line : Line) : Bool :=
  Text.startsWith "@@" line.code

/-- In the body of a model, the line is that of a field. -/
def isField (line : Line) : Bool :=
  !line.isSilent && !line.isMarked

/-- The longest run of lines of a sort that ends right above the line of the given
number. -/
def runAbove (sort : Line → Bool) (lines : List Line) (number : Nat) : List Line :=
  (lines.take (number - 1)).rtakeWhile sort

/-- What stands above the run. -/
def beyondRun (sort : Line → Bool) (lines : List Line) (number : Nat) : List Line :=
  (lines.take (number - 1)).rdropWhile sort

variable {line : Line} {text : Text} {upper lower : List Line}

theorem isSilent_iff : line.isSilent = true ↔ line.code = [] := List.isEmpty_iff

theorem isRemark_iff : line.isRemark = true ↔ line.code = [] ∧ line.text ≠ [] := by
  simp [isRemark, isSilent]

theorem isSilent_of_isRemark (isRemark : line.isRemark = true) : line.isSilent = true :=
  isSilent_iff.mpr (isRemark_iff.mp isRemark).1

theorem isSilent_of_isMarked (isMarked : line.isMarked = true) : line.isSilent = false := by
  rw [← Bool.not_eq_true, isSilent_iff]
  intro empty
  rw [Line.isMarked, empty] at isMarked
  contradiction

theorem isField_iff :
    line.isField = true ↔ line.isSilent = false ∧ line.isMarked = false := by
  rw [isField, Bool.and_eq_true, Bool.not_eq_true', Bool.not_eq_true']

theorem isField_of_isSilent (silent : line.isSilent = true) : line.isField = false := by
  rw [isField, silent]
  rfl

theorem isField_of_isMarked (marked : line.isMarked = true) : line.isField = false := by
  rw [isField, marked, Bool.and_comm]
  rfl

/-- The lines above a line of a document are those in front of it. -/
theorem take_number (lines : ofText text = upper ++ line :: lower) :
    (ofText text).take (line.number - 1) = upper := by
  rw [number_of_ofText lines, lines, Nat.add_sub_cancel, List.take_left]

/-- The documentation in the longest run of lines of a sort that a row ends with. -/
def trailingTexts (sort : Line → Bool) (lines : List Line) : List Text :=
  (lines.rtakeWhile sort).filterMap documentation?

theorem trailingTexts_concat {sort : Line → Bool} (passes : sort line = true)
    (lines : List Line) :
    trailingTexts sort (lines ++ [line]) =
      trailingTexts sort lines ++ line.documentation?.toList := by
  rw [trailingTexts, List.rtakeWhile_concat_pos _ _ _ passes, List.filterMap_append]
  cases documented : line.documentation? with
  | none => rw [List.filterMap_cons_none documented]; rfl
  | some text => rw [List.filterMap_cons_some documented]; rfl

theorem trailingTexts_concat_of_stop {sort : Line → Bool} (stops : ¬ sort line = true)
    (lines : List Line) : trailingTexts sort (lines ++ [line]) = [] := by
  rw [trailingTexts, List.rtakeWhile_concat_neg _ _ _ stops]
  rfl

/-- The documentation in the run of lines of a sort above a line, as one text. -/
def documentationAbove (sort : Line → Bool) (lines : List Line) (number : Nat) :
    Option Text :=
  joinDocumentation ((runAbove sort lines number).filterMap documentation?)

end Line

namespace Reading

variable {ε α σ : Type}

/-- What holds at the start and is kept by every step holds at the end, where what
holds may depend on the items that are read so far. -/
theorem foldlM_keeps_along
    (Holds : List α → σ → Prop) {step : σ → α → Except ε σ} {row : List α}
    (keeps : ∀ seen item behind state next, row = seen ++ item :: behind →
      Holds seen state → step state item = .ok next → Holds (seen ++ [item]) next)
    {start final : σ} (holds : Holds [] start)
    (read : row.foldlM step start = .ok final) : Holds row final := by
  have further : ∀ behind seen state, row = seen ++ behind → Holds seen state →
      behind.foldlM step state = .ok final → Holds row final := by
    intro behind
    induction behind with
    | nil =>
        intro seen state whole holds read
        rw [List.foldlM_nil, pure_eq_ok] at read
        rw [List.append_nil] at whole
        exact whole ▸ read ▸ holds
    | cons item behind ih =>
        intro seen state whole holds read
        rw [List.foldlM_cons, bind_eq_ok] at read
        obtain ⟨next, stepped, read⟩ := read
        exact ih (seen ++ [item]) next (by simpa using whole)
          (keeps seen item behind state next whole holds stepped) read
  exact further row [] start rfl holds read

end Reading

/-! ## Headers -/

namespace Block

variable {lines seen : List Line} {text : Text}

/-- The documentation of the block is what stands above its header. -/
def IsAttributed (lines : List Line) (block : Block) : Prop :=
  block.documentation = Line.documentationAbove Line.isRemark lines block.line

/-- Between blocks the documentation collected is what stands above the next line. -/
def Position.IsAttributed (lines seen : List Line) : Position → Prop
  | .between documentation => documentation = Line.trailingTexts Line.isRemark seen
  | .within block => block.IsAttributed lines

/-- Every block that was cut, and the one that is open, has the documentation above
its header. -/
structure Splitting.IsAttributed (lines seen : List Line) (splitting : Splitting) :
    Prop where
  complete : ∀ block ∈ splitting.complete, block.IsAttributed lines
  position : splitting.position.IsAttributed lines seen

theorem Splitting.IsAttributed.step
    {splitting next : Splitting} {line : Line}
    (above : lines.take (line.number - 1) = seen)
    (attributed : splitting.IsAttributed lines seen)
    (read : splitting.step line = .ok next) :
    next.IsAttributed lines (seen ++ [line]) := by
  obtain ⟨complete, position⟩ := splitting
  obtain ⟨completed, here⟩ := attributed
  cases position with
  | within block =>
      simp only [Splitting.step] at read
      split_ifs at read with closes
      · cases read
        have stops : ¬ line.isRemark = true := by simp [Line.isRemark_iff, closes]
        exact ⟨List.forall_mem_append.mpr
          ⟨completed, List.forall_mem_singleton.mpr here⟩,
          (Line.trailingTexts_concat_of_stop stops seen).symm⟩
      · cases read
        exact ⟨completed, here⟩
  | between documentation =>
      obtain rfl : documentation = _ := here
      simp only [Splitting.step] at read
      split at read
      · rename_i text documented
        cases read
        have passes : line.isRemark = true := by
          refine Line.isRemark_iff.mpr ⟨code_of_documentation? documented, ?_⟩
          intro blank
          rw [Line.documentation?, blank] at documented
          contradiction
        refine ⟨completed, ?_⟩
        rw [Position.IsAttributed, Line.trailingTexts_concat passes, documented]
        rfl
      · rename_i undocumented
        split_ifs at read with blank silent
        · cases read
          rw [List.isEmpty_iff] at blank
          have stops : ¬ line.isRemark = true := by simp [Line.isRemark_iff, blank]
          exact ⟨completed, (Line.trailingTexts_concat_of_stop stops seen).symm⟩
        · cases read
          rw [List.isEmpty_iff] at blank silent
          refine ⟨completed, ?_⟩
          rw [Position.IsAttributed,
            Line.trailingTexts_concat (Line.isRemark_iff.mpr ⟨silent, blank⟩),
            undocumented]
          exact (List.append_nil _).symm
        · split at read
          · contradiction
          · split at read
            · contradiction
            · cases read
              refine ⟨completed, ?_⟩
              rw [Position.IsAttributed, Block.IsAttributed, Line.documentationAbove,
                Line.runAbove, above]
              rfl

/-- Every block of a document has the documentation above its header. -/
theorem isAttributed_of_split
    {blocks : List Block} (read : split (Line.ofText text) = .ok blocks) :
    ∀ block ∈ blocks, block.IsAttributed (Line.ofText text) := by
  obtain ⟨splitting, folded, finished⟩ := Reading.bind_eq_ok.mp read
  have attributed : splitting.IsAttributed (Line.ofText text) (Line.ofText text) := by
    apply Reading.foldlM_keeps_along (Splitting.IsAttributed (Line.ofText text)) ?_ ?_
      folded
    · intro seen line behind state next whole holds stepped
      exact holds.step (Line.take_number whole) stepped
    · exact ⟨by simp, rfl⟩
  rw [Splitting.finish] at finished
  split at finished
  · cases finished
    exact attributed.complete
  · contradiction

end Block

/-! ## Fields -/

/-- The line declares the field, whose documentation is what stands above the line. -/
structure Field.IsAttributed (lines : List Line) (line : Line) (field : Field) : Prop where
  declared : (FieldLine.ofText? line.code).map (·.name) = some field.name
  documentation :
    field.documentation = Line.documentationAbove Line.isSilent lines line.number

theorem Field.documentation_of_read
    {names : DeclaredNames} {documentation : Option Text} {content : Text} {field : Field}
    (read : Field.read names documentation content = .ok field) :
    (FieldLine.ofText? content).map (·.name) = some field.name ∧
      field.documentation = documentation := by
  obtain ⟨line, kind, sources, parts, _, _, folded⟩ := exists_of_read read
  have kept := bare_of_foldlM_withAttribute folded
  have name : field.name = line.name := congrArg Field.name kept
  exact ⟨by rw [parts, name]; rfl, congrArg Field.documentation kept⟩

namespace Model

variable {names : DeclaredNames} {lines above seen : List Line}

/-- Of the lines of a body that are read, each that is a field's has given its field;
what waits for the next one is the documentation above the next line. -/
structure Reading.IsAttributed (lines above seen : List Line) (reading : Model.Reading) :
    Prop where
  waiting : reading.documentation = Line.trailingTexts Line.isSilent (above ++ seen)
  fields : List.Forall₂ (Field.IsAttributed lines) (seen.filter Line.isField)
    reading.model.fields

/-- A line that holds code is not documentation. -/
theorem documentation?_of_not_isSilent {line : Line} (filled : line.isSilent = false) :
    line.documentation? = none := by
  rw [Option.eq_none_iff_forall_not_mem]
  intro text documented
  rw [Line.isSilent_iff.mpr (Block.code_of_documentation? documented)] at filled
  contradiction

namespace Reading

variable {reading next : Model.Reading} {line : Line}

theorem step_of_isSilent (reading : Model.Reading) (silent : line.isSilent = true) :
    reading.step names line = .ok { reading with
      documentation := reading.documentation ++ line.documentation?.toList } := by
  rw [step]
  cases line.documentation? with
  | some text => rfl
  | none =>
      dsimp only
      rw [show line.code.isEmpty = true from silent, if_pos rfl, Option.toList_none,
        List.append_nil]

theorem step_of_isMarked (reading : Model.Reading) (marked : line.isMarked = true) :
    reading.step names line = atLine line.number do
      let attributes ← Attribute.scan line.code
      let model ← attributes.foldlM withAttribute reading.model
      return { model, documentation := [] } := by
  have filled := Line.isSilent_of_isMarked marked
  rw [step, documentation?_of_not_isSilent filled]
  dsimp only
  rw [show line.code.isEmpty = false from filled, if_neg Bool.false_ne_true,
    show Text.startsWith "@@" line.code = true from marked, if_pos rfl]

theorem step_of_isField (reading : Model.Reading) (isField : line.isField = true) :
    reading.step names line = atLine line.number do
      let field ← Field.read names (joinDocumentation reading.documentation) line.code
      if reading.model.fields.any (·.name = field.name) then
        .error (.repeatedField field.name reading.model.name)
      else
        return { model := { reading.model with fields := reading.model.fields ++ [field] } } := by
  obtain ⟨filled, unmarked⟩ := Line.isField_iff.mp isField
  rw [step, documentation?_of_not_isSilent filled]
  dsimp only
  rw [show line.code.isEmpty = false from filled, if_neg Bool.false_ne_true,
    show Text.startsWith "@@" line.code = false from unmarked, if_neg Bool.false_ne_true]

/-- What one line of each sort does to a model that is being read. -/
theorem step_cases_of_sort (read : reading.step names line = .ok next) :
    (line.isSilent = true ∧ next = { reading with
        documentation := reading.documentation ++ line.documentation?.toList }) ∨
      (line.isMarked = true ∧ ∃ sources model, Attribute.scan line.code = .ok sources ∧
        sources.foldlM withAttribute reading.model = .ok model ∧ next = { model }) ∨
      (line.isField = true ∧ ∃ field,
        Field.read names (joinDocumentation reading.documentation) line.code =
          .ok field ∧
        field.name ∉ reading.model.fields.map (·.name) ∧
        next = { model :=
          { reading.model with fields := reading.model.fields ++ [field] } }) := by
  by_cases silent : line.isSilent = true
  · rw [step_of_isSilent reading silent] at read
    exact Or.inl ⟨silent, (Except.ok.inj read).symm⟩
  · by_cases marked : line.isMarked = true
    · rw [step_of_isMarked reading marked] at read
      obtain ⟨sources, scanned, further⟩ :=
        SchemaCompose.Reading.bind_eq_ok.mp (SchemaCompose.Reading.atLine_eq_ok.mp read)
      obtain ⟨model, folded, same⟩ := SchemaCompose.Reading.bind_eq_ok.mp further
      exact Or.inr (Or.inl ⟨marked, sources, model, scanned, folded,
        (SchemaCompose.Reading.pure_eq_ok.mp same).symm⟩)
    · rw [Bool.not_eq_true] at silent marked
      have isField := Line.isField_iff.mpr ⟨silent, marked⟩
      rw [step_of_isField reading isField] at read
      obtain ⟨field, readField, further⟩ :=
        SchemaCompose.Reading.bind_eq_ok.mp (SchemaCompose.Reading.atLine_eq_ok.mp read)
      split_ifs at further with repeated
      exact Or.inr (Or.inr ⟨isField, field, readField, by simpa using repeated,
        (SchemaCompose.Reading.pure_eq_ok.mp further).symm⟩)

end Reading

/-- The attributes of a model change neither its fields nor its documentation. -/
theorem kept_of_foldlM_withAttribute
    {model final : Model} {sources : List Attribute}
    (read : sources.foldlM withAttribute model = .ok final) :
    final.fields = model.fields ∧ final.documentation = model.documentation := by
  apply SchemaCompose.Reading.foldlM_keeps (fun state : Model =>
    state.fields = model.fields ∧ state.documentation = model.documentation)
    ?_ ⟨rfl, rfl⟩ read
  intro state source next holds stepped
  rcases withAttribute_cases stepped with ⟨_, _, rfl⟩ | ⟨_, _, rfl⟩ | ⟨_, _, rfl⟩ | rfl
  · exact holds
  · exact holds
  · exact holds
  · exact holds

theorem Reading.IsAttributed.step
    {reading next : Model.Reading} {line : Line}
    (here : lines.take (line.number - 1) = above ++ seen)
    (attributed : reading.IsAttributed lines above seen)
    (read : reading.step names line = .ok next) :
    next.IsAttributed lines above (seen ++ [line]) := by
  obtain ⟨waiting, fields⟩ := attributed
  have row : (seen ++ [line]).filter Line.isField =
      seen.filter Line.isField ++ bif line.isField then [line] else [] := by
    rw [List.filter_append, List.filter_singleton]
  rcases Reading.step_cases_of_sort read with
    ⟨silent, rfl⟩ | ⟨marked, _, model, _, folded, rfl⟩ | ⟨isField, field, readField, _, rfl⟩
  · have none := Line.isField_of_isSilent silent
    refine ⟨?_, ?_⟩
    · rw [← List.append_assoc, Line.trailingTexts_concat silent, waiting]
    · rw [row, none]
      simpa using fields
  · have stops : ¬ line.isSilent = true := by rw [Line.isSilent_of_isMarked marked]; simp
    have none := Line.isField_of_isMarked marked
    refine ⟨?_, ?_⟩
    · rw [← List.append_assoc, Line.trailingTexts_concat_of_stop stops]
    · rw [row, none, (kept_of_foldlM_withAttribute folded).1]
      simpa using fields
  · obtain ⟨declared, documented⟩ := Field.documentation_of_read readField
    have stops : ¬ line.isSilent = true := by simp [(Line.isField_iff.mp isField).1]
    refine ⟨?_, ?_⟩
    · rw [← List.append_assoc, Line.trailingTexts_concat_of_stop stops]
    · rw [row, isField]
      refine List.rel_append fields (.cons ⟨declared, ?_⟩ .nil)
      rw [documented, waiting, Line.documentationAbove, Line.runAbove, here]
      rfl

theorem documentation_of_step
    {reading next : Model.Reading} {line : Line}
    (read : reading.step names line = .ok next) :
    next.model.documentation = reading.model.documentation := by
  rcases Reading.step_cases_of_sort read with
    ⟨_, rfl⟩ | ⟨_, _, model, _, folded, rfl⟩ | ⟨_, field, _, _, rfl⟩
  · rfl
  · exact (kept_of_foldlM_withAttribute folded).2
  · rfl

/-- The documentation of the model stands above its header, and that of each of its
fields above the line of the field. -/
structure IsAttributed (lines : List Line) (block : Block) (model : Model) : Prop where
  name : model.name = block.name
  documentation :
    model.documentation = Line.documentationAbove Line.isRemark lines block.line
  fields : List.Forall₂ (Field.IsAttributed lines) (block.body.filter Line.isField)
    model.fields

end Model

theorem Block.Opens.not_isSilent {block : Block} {header : Line}
    (opens : block.Opens header) : ¬ header.isSilent = true := by
  obtain ⟨keyword, named, _⟩ := opens.named
  rw [Line.isSilent_iff]
  intro empty
  rw [empty] at named
  contradiction

theorem Model.isAttributed_of_ofBlock
    {names : DeclaredNames} {text : Text} {upper lower : List Line} {header : Line}
    {block : Block} {model : Model}
    (lines : Line.ofText text = upper ++ header :: (block.body ++ lower))
    (opens : block.Opens header) (attributed : block.IsAttributed (Line.ofText text))
    (read : Model.ofBlock names block = .ok model) :
    model.IsAttributed (Line.ofText text) block := by
  obtain ⟨reading, folded, same⟩ := Reading.bind_eq_ok.mp read
  obtain rfl := Reading.pure_eq_ok.mp same
  have whole : Reading.IsAttributed (Line.ofText text) (upper ++ [header]) block.body
      reading := by
    apply Reading.foldlM_keeps_along
      (Reading.IsAttributed (Line.ofText text) (upper ++ [header])) ?_ ?_ folded
    · intro seen line behind state next body holds stepped
      have here : Line.ofText text =
          upper ++ [header] ++ seen ++ line :: (behind ++ lower) := by
        rw [lines, body]
        simp
      exact holds.step (Line.take_number here) stepped
    · refine ⟨?_, .nil⟩
      rw [List.append_nil, Line.trailingTexts_concat_of_stop opens.not_isSilent]
  have documentation : reading.model.documentation = block.documentation := by
    apply Reading.foldlM_keeps
      (fun state : Model.Reading => state.model.documentation = block.documentation)
      ?_ rfl folded
    intro state line next holds stepped
    exact (documentation_of_step stepped).trans holds
  exact ⟨name_of_ofBlock read, documentation.trans attributed, whole.fields⟩

/-! ## Enums -/

/-- The documentation of the enum stands above its header. -/
structure SchemaEnum.IsAttributed (lines : List Line) (block : Block)
    (enum : SchemaEnum) : Prop where
  name : enum.name = block.name
  documentation :
    enum.documentation = Line.documentationAbove Line.isRemark lines block.line

theorem SchemaEnum.isAttributed_of_ofBlock
    {lines : List Line} {block : Block} {enum : SchemaEnum}
    (attributed : block.IsAttributed lines) (read : SchemaEnum.ofBlock block = .ok enum) :
    enum.IsAttributed lines block := by
  refine ⟨name_of_ofBlock read, Eq.trans ?_ attributed⟩
  apply Reading.foldlM_keeps
    (fun state : SchemaEnum => state.documentation = block.documentation) ?_ rfl read
  intro state line next holds stepped
  exact (frame_of_step stepped).2.trans holds

/-! ## Owners -/

namespace Line

variable {lines : List Line} {text : Text} {line owner other : Line} {number : Nat}

theorem pairwise_number_ofText (text : Text) :
    (ofText text).Pairwise fun line other => line.number < other.number := by
  rw [ofText_eq, numbered, List.pairwise_map]
  show ((Text.lines text).zipIdx 1).Pairwise fun row other => row.2 < other.2
  rw [← List.pairwise_map (f := Prod.snd), List.zipIdx_map_snd]
  exact List.pairwise_lt_range' 1

/-- A line above a line of a document has a smaller number. -/
theorem number_lt_of_mem_runAbove
    (inText : owner ∈ ofText text) {sort : Line → Bool}
    (above : line ∈ runAbove sort (ofText text) owner.number) :
    line.number < owner.number := by
  obtain ⟨upper, lower, whole⟩ := List.append_of_mem inText
  have inUpper := (List.rtakeWhile_suffix sort _).subset above
  rw [take_number whole] at inUpper
  have sorted := pairwise_number_ofText text
  rw [whole, List.pairwise_append] at sorted
  exact sorted.2.2 line inUpper owner List.mem_cons_self

theorem eq_of_number_eq (inText : owner ∈ ofText text) (otherInText : other ∈ ofText text)
    (same : owner.number = other.number) : owner = other := by
  have distinct : ((ofText text).map (·.number)).Nodup :=
    List.pairwise_map.mpr ((pairwise_number_ofText text).imp Nat.ne_of_lt)
  exact List.inj_on_of_nodup_map distinct inText otherInText same

/-- A run of silent lines does not reach beyond a line that holds code. -/
theorem not_between
    {sort : Line → Bool} (silent : ∀ line, sort line = true → line.isSilent = true)
    (inText : owner ∈ ofText text) (stops : ¬ owner.isSilent = true)
    (otherInText : other ∈ ofText text)
    (above : line ∈ runAbove sort (ofText text) other.number)
    (below : line.number < owner.number) : ¬ owner.number < other.number := by
  intro between
  obtain ⟨upper, lower, whole⟩ := List.append_of_mem otherInText
  have sorted := pairwise_number_ofText text
  rw [whole, List.pairwise_append] at sorted
  obtain ⟨sortedUpper, sortedLower, _⟩ := sorted
  -- The owner is in front of the other line, and so in the run or beyond it.
  have inUpper : owner ∈ upper := by
    rw [whole, List.mem_append, List.mem_cons] at inText
    rcases inText with front | rfl | behind
    · exact front
    · exact absurd between (Nat.lt_irrefl _)
    · have after := (List.pairwise_cons.mp sortedLower).1 owner behind
      omega
  rw [runAbove, take_number whole] at above
  have parts : upper.rdropWhile sort ++ upper.rtakeWhile sort = upper :=
    List.rdropWhile_append_rtakeWhile
  rw [← parts, List.mem_append] at inUpper
  rw [← parts, List.pairwise_append] at sortedUpper
  rcases inUpper with beyond | inRun
  · have before := sortedUpper.2.2 owner beyond line above
    omega
  · exact stops (silent owner (List.mem_rtakeWhile_imp inRun))

/-- Of the lines of a document, the line stands in the run that documents the owner: the
header of a block, or the line of a field. -/
inductive Documents (lines : List Line) (blocks : List Block) (line owner : Line) : Prop
  | header {block : Block} (member : block ∈ blocks) (inText : owner ∈ lines)
      (opens : block.Opens owner) (above : line ∈ runAbove isRemark lines owner.number)
  | field {block : Block} (member : block ∈ blocks) (isModel : block.kind = .model)
      (inBody : owner ∈ block.body) (isField : owner.isField = true)
      (above : line ∈ runAbove isSilent lines owner.number)

end Line

namespace Laid

variable {lines : List Line} {blocks : List Block} {line : Line} {block : Block}

theorem mem_of_mem_body (laid : Laid lines blocks) (member : block ∈ blocks)
    (inBody : line ∈ block.body) : line ∈ lines := by
  obtain ⟨before, after, rfl⟩ := List.append_of_mem member
  obtain ⟨upper, header, closing, lower, rfl, _⟩ := laid.around
  simp [inBody]

/-- The last line of a layout says nothing, or it closes a block. -/
theorem concat_cases (laid : Laid (lines ++ [line]) blocks) :
    line.code = [] ∧ Laid lines blocks ∨ line.code = ['}'] := by
  generalize whole : lines ++ [line] = rows at laid
  induction laid generalizing lines with
  | nil => simp at whole
  | gap empty further ih =>
      cases lines with
      | nil =>
          obtain ⟨rfl, rfl⟩ := List.cons.inj whole
          exact Or.inl ⟨empty, further⟩
      | cons first lines =>
          obtain ⟨rfl, rest⟩ := List.cons.inj whole
          exact (ih rest).imp_left fun ⟨silent, laid⟩ => ⟨silent, .gap empty laid⟩
  | @block header closing own below blocks opens inside closes further ih =>
      rcases below.eq_nil_or_concat with rfl | ⟨init, last, rfl⟩
      · have same : lines ++ [line] = (header :: own.body) ++ [closing] := whole
        obtain rfl := List.singleton_inj.mp (List.append_inj' same rfl).2
        exact Or.inr closes
      · have same : lines ++ [line] =
            (header :: (own.body ++ closing :: init)) ++ [last] := by
          rw [whole]
          simp
        obtain ⟨rfl, tail⟩ := List.append_inj' same rfl
        obtain rfl := List.singleton_inj.mp tail
        refine (ih (List.concat_eq_append ..).symm).imp_left fun ⟨silent, laid⟩ => ?_
        exact ⟨silent, .block opens inside closes laid⟩

/-- Without the silent lines that it ends with, a layout ends with a blank line or the
end of a block. -/
theorem rdropWhile_isRemark (laid : Laid lines blocks) :
    Laid (lines.rdropWhile Line.isRemark) blocks ∧
      ∀ last ∈ (lines.rdropWhile Line.isRemark).getLast?,
        last.text = [] ∨ last.code = ['}'] := by
  induction lines using List.reverseRecOn with
  | nil => exact ⟨laid, by simp⟩
  | append_singleton lines line ih =>
      rw [List.rdropWhile_concat]
      split_ifs with passes
      · rcases laid.concat_cases with ⟨_, further⟩ | closes
        · exact ih further
        · rw [(Line.isRemark_iff.mp passes).1] at closes
          contradiction
      · refine ⟨laid, ?_⟩
        rw [List.getLast?_concat]
        rintro _ ⟨⟩
        rcases laid.concat_cases with ⟨silent, _⟩ | closes
        · rw [Line.isRemark_iff] at passes
          exact Or.inl (by_contra fun filled => passes ⟨silent, filled⟩)
        · exact Or.inr closes

end Laid

namespace Block

/-- Where the runs above the lines of a block begin: above the header, behind a blank
line between blocks, the end of a block or the start of the document; above a line of
the body, behind a line of the body that holds code or the header. -/
structure IsBounded (lines : List Line) (block : Block) : Prop where
  header : ∃ before, Laid (Line.beyondRun Line.isRemark lines block.line) before ∧
    ∀ last ∈ (Line.beyondRun Line.isRemark lines block.line).getLast?,
      last.text = [] ∨ last.code = ['}']
  body : ∀ line ∈ block.body,
    ∃ last ∈ (Line.beyondRun Line.isSilent lines line.number).getLast?,
      block.Opens last ∨ last ∈ block.body ∧ last.code ≠ []

theorem exists_last_beyond {sort : Line → Bool} {header : Line}
    (stops : ¬ sort header = true) (upper above : List Line) :
    ∃ last ∈ ((upper ++ header :: above).rdropWhile sort).getLast?,
      last = header ∨ last ∈ above ∧ ¬ sort last = true := by
  induction above using List.reverseRecOn with
  | nil =>
      rw [List.rdropWhile_concat_neg _ _ _ stops, List.getLast?_concat]
      exact ⟨header, rfl, Or.inl rfl⟩
  | append_singleton above line ih =>
      rw [← List.cons_append, ← List.append_assoc, List.rdropWhile_concat]
      split_ifs with passes
      · obtain ⟨last, found, isHeader | ⟨inAbove, stopsLast⟩⟩ := ih
        · exact ⟨last, found, Or.inl isHeader⟩
        · exact ⟨last, found, Or.inr ⟨List.mem_append_left _ inAbove, stopsLast⟩⟩
      · rw [List.getLast?_concat]
        exact ⟨line, rfl, Or.inr ⟨by simp, passes⟩⟩

theorem isBounded_of_laid
    {text : Text} {blocks : List Block} (laid : Laid (Line.ofText text) blocks) :
    ∀ block ∈ blocks, block.IsBounded (Line.ofText text) := by
  intro block member
  obtain ⟨before, after, rfl⟩ := List.append_of_mem member
  obtain ⟨upper, header, closing, lower, whole, opens, inside, closes, above, _⟩ :=
    laid.around
  constructor
  · refine ⟨before, ?_⟩
    rw [Line.beyondRun, opens.line, Line.take_number whole]
    exact above.rdropWhile_isRemark
  · intro line inBody
    obtain ⟨front, behind, own⟩ := List.append_of_mem inBody
    have place : Line.ofText text =
        (upper ++ header :: front) ++ line :: (behind ++ closing :: lower) := by
      rw [whole, own]
      simp
    obtain ⟨last, found, isHeader | ⟨inFront, stops⟩⟩ :=
      exists_last_beyond opens.not_isSilent upper front
    · exact ⟨last, by rwa [Line.beyondRun, Line.take_number place],
        Or.inl (isHeader ▸ opens)⟩
    · refine ⟨last, by rwa [Line.beyondRun, Line.take_number place], Or.inr ⟨?_, ?_⟩⟩
      · rw [own]
        exact List.mem_append_left _ inFront
      · rwa [Line.isSilent_iff] at stops

end Block

/-! ## Documents -/

namespace Line

variable {text : Text} {blocks : List Block} {line owner other : Line}

theorem Documents.owner_mem (laid : Laid (ofText text) blocks)
    (documents : line.Documents (ofText text) blocks owner) :
    owner ∈ ofText text ∧ ¬ owner.isSilent = true ∧ line.number < owner.number := by
  cases documents with
  | header member inText opens above =>
      exact ⟨inText, opens.not_isSilent, number_lt_of_mem_runAbove inText above⟩
  | field member isModel inBody isField above =>
      have inText := laid.mem_of_mem_body member inBody
      exact ⟨inText, by simp [(isField_iff.mp isField).1],
        number_lt_of_mem_runAbove inText above⟩

/-- No line documents anything beyond its owner. -/
theorem Documents.not_lt (laid : Laid (ofText text) blocks)
    (documents : line.Documents (ofText text) blocks owner)
    (further : line.Documents (ofText text) blocks other) :
    ¬ owner.number < other.number := by
  obtain ⟨inText, stops, below⟩ := documents.owner_mem laid
  obtain ⟨otherInText, _⟩ := further.owner_mem laid
  cases further with
  | header _ _ _ above =>
      exact not_between (fun _ => isSilent_of_isRemark) inText stops otherInText above below
  | field _ _ _ _ above =>
      exact not_between (fun _ => id) inText stops otherInText above below

/-- A line that documents one line documents no other. -/
theorem Documents.unique (laid : Laid (ofText text) blocks)
    (documents : line.Documents (ofText text) blocks owner)
    (further : line.Documents (ofText text) blocks other) : owner = other := by
  have notBefore := documents.not_lt laid further
  have notBehind := further.not_lt laid documents
  exact eq_of_number_eq (documents.owner_mem laid).1 (further.owner_mem laid).1 (by omega)

end Line

namespace Schema

/-- The models and the enums of a document are those of its blocks, in their order. -/
theorem forall₂_of_declarations
    {names : DeclaredNames} {blocks : List Block} {declarations : List Declaration}
    (read : List.Forall₂
      (fun block declaration => Declaration.ofBlock names block = .ok declaration)
      blocks declarations) :
    List.Forall₂ (fun block model => Model.ofBlock names block = .ok model)
        (blocks.filter (·.kind = .model)) (ofDeclarations declarations).models ∧
      List.Forall₂ (fun block enum => SchemaEnum.ofBlock block = .ok enum)
        (blocks.filter (·.kind = .enum)) (ofDeclarations declarations).enums := by
  induction read with
  | nil => exact ⟨.nil, .nil⟩
  | @cons block declaration blocks declarations here _ ih =>
      simp only [ofDeclarations] at ih ⊢
      unfold Declaration.ofBlock at here
      cases kind : block.kind with
      | model =>
          rw [kind] at here
          obtain ⟨model, readModel, rfl⟩ := Reading.map_eq_ok.mp here
          simpa [kind, readModel] using ih
      | enum =>
          rw [kind] at here
          obtain ⟨enum, readEnum, rfl⟩ := Reading.map_eq_ok.mp here
          simpa [kind, readEnum] using ih
      | datasource =>
          rw [kind] at here
          obtain ⟨datasource, _, rfl⟩ := Reading.map_eq_ok.mp here
          simpa [kind] using ih
      | generator =>
          rw [kind] at here
          obtain ⟨generator, _, rfl⟩ := Reading.map_eq_ok.mp here
          simpa [kind] using ih

/--
The blocks of an accepted document, as they are laid out in its lines, give its models
and enums in order.  The documentation of a model or an enum is what stands in the run
of comments and documentation right above its header; that of a field is what stands in
the run of silent lines right above the line of the field.  The runs begin where the
blocks say.  No line documents two of them.
-/
theorem documentation_of_parse
    {text : Text} {schema : Schema} (accepted : parse text = .ok schema) :
    ∃ blocks, Laid (Line.ofText text) blocks ∧
      List.Forall₂ (Model.IsAttributed (Line.ofText text))
        (blocks.filter (·.kind = .model)) schema.models ∧
      List.Forall₂ (SchemaEnum.IsAttributed (Line.ofText text))
        (blocks.filter (·.kind = .enum)) schema.enums ∧
      (∀ block ∈ blocks, block.IsBounded (Line.ofText text)) ∧
      ∀ line owner other : Line, line.Documents (Line.ofText text) blocks owner →
        line.Documents (Line.ofText text) blocks other → owner = other := by
  obtain ⟨blocks, declarations, split, read, _, rfl⟩ := exists_of_parse accepted
  have laid := Block.laid_of_split split
  have attributed := Block.isAttributed_of_split split
  obtain ⟨models, enums⟩ := forall₂_of_declarations read
  have own : ∀ kind, ∀ block ∈ blocks.filter (·.kind = kind),
      block.IsAttributed (Line.ofText text) ∧ block ∈ blocks := by
    intro kind block member
    have inBlocks := List.mem_of_mem_filter member
    exact ⟨attributed block inBlocks, inBlocks⟩
  refine ⟨blocks, laid, ?_, ?_, Block.isBounded_of_laid laid,
    fun _ _ _ documents further => documents.unique laid further⟩
  · refine (List.forall₂_and_left _ _ |>.mpr ⟨own .model, models⟩).imp ?_
    rintro block model ⟨⟨documented, member⟩, readModel⟩
    obtain ⟨before, after, rfl⟩ := List.append_of_mem member
    obtain ⟨upper, header, closing, lower, whole, opens, _⟩ := laid.around
    exact Model.isAttributed_of_ofBlock whole opens documented readModel
  · refine (List.forall₂_and_left _ _ |>.mpr ⟨own .enum, enums⟩).imp ?_
    rintro block enum ⟨⟨documented, _⟩, readEnum⟩
    exact SchemaEnum.isAttributed_of_ofBlock documented readEnum

/-- A blank line parts documentation from a header and not from a field; a comment parts
it from neither. -/
theorem documentation_of_parse_user :
    let text : Text :=
      "/// lost\n\n/// A user.\n// note\n///  Second.\nmodel User \x7b\n" ++
        "  /// Key\n\n  // note\n  id Int @id\n  /// lost\n  @@map(\"u\")\n  name String\n\x7d\n" ++
        "///\nenum Role \x7b\n  A\n\x7d\n"
    let id : Field :=
      { name := "id", type := "Int", isId := true, documentation := "Key" }
    let user : Model := {
      name := "User", fields := [id, { name := "name", type := "String" }]
      tableName := "u", documentation := "A user.\nSecond." }
    let schema : Schema := {
      models := [user], enums := [{ name := "Role", values := [{ name := "A" }] }] }
    parse text = .ok schema ∧
      ∃ blocks, Laid (Line.ofText text) blocks ∧
        List.Forall₂ (Model.IsAttributed (Line.ofText text))
          (blocks.filter (·.kind = .model)) schema.models := by
  intro text id user schema
  have accepted : parse text = .ok schema := by decide +kernel
  obtain ⟨blocks, laid, attributed, _⟩ := documentation_of_parse accepted
  exact ⟨accepted, blocks, laid, attributed⟩

end Schema

end SchemaCompose
