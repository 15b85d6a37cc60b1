import SchemaCompose.Proofs.Reading.Layout
import SchemaCompose.Schema.Parse

/-!
# Moved lines

The number of a line is carried into the errors that are found on it, and nothing
else is taken from it; a line that holds neither documentation nor code is passed
over.  So a block whose lines stand elsewhere in the document, with other such lines
between them, declares the same (`Declaration.alike_ofBlock`), and a row of blocks
is refused for the same reason at the line that has moved (`Schema.alike_ofBlocks`).
-/

namespace SchemaCompose

/-! ## Readings that end alike -/

namespace Reading

variable {ε α β γ δ σ τ : Type}

/-- Two readings that give related results, or of which the second gives the fault
of the first after a move. -/
inductive Alike (move : ε → ε) (Related : α → β → Prop) :
    Except ε α → Except ε β → Prop
  | ok {first : α} {second : β} (related : Related first second) :
      Alike move Related (.ok first) (.ok second)
  | error (fault : ε) : Alike move Related (.error fault) (.error (move fault))

namespace Alike

variable {move : ε → ε} {Related : α → β → Prop}
  {first : Except ε α} {second : Except ε β}

/-- Readings that give the same results differ in the place of a fault only. -/
theorem eq_mapError {other : Except ε α} (alike : Alike move Eq first other) :
    other = first.mapError move := by
  cases alike with
  | ok same =>
      rw [same]
      rfl
  | error fault => rfl

theorem bind {Other : γ → δ → Prop} {further : α → Except ε γ} {next : β → Except ε δ}
    (alike : Alike move Related first second)
    (behind : ∀ value result, Related value result →
      Alike move Other (further value) (next result)) :
    Alike move Other (first >>= further) (second >>= next) := by
  cases alike with
  | ok related => exact behind _ _ related
  | error fault => exact .error fault

theorem map {Other : γ → δ → Prop} {write : α → γ} {print : β → δ}
    (alike : Alike move Related first second)
    (behind : ∀ value result, Related value result →
      Other (write value) (print result)) :
    Alike move Other (first.map write) (second.map print) := by
  cases alike with
  | ok related => exact .ok (behind _ _ related)
  | error fault => exact .error fault

/-- Steps that end alike make runs that end alike. -/
theorem foldlM {States : σ → τ → Prop} {step : σ → α → Except ε σ}
    {stride : τ → β → Except ε τ} {row : List α} {others : List β}
    (steps : ∀ state other item further, States state other → Related item further →
      Alike move States (step state item) (stride other further))
    (rows : List.Forall₂ Related row others) {start : σ} {place : τ}
    (starts : States start place) :
    Alike move States (row.foldlM step start) (others.foldlM stride place) := by
  induction rows generalizing start place with
  | nil => exact .ok starts
  | cons here _ ih =>
      rw [List.foldlM_cons, List.foldlM_cons]
      exact (steps _ _ _ _ starts here).bind fun _ _ => ih

/-- Rows whose members are read alike are read alike. -/
theorem mapM {Results : γ → δ → Prop} {read : α → Except ε γ} {scan : β → Except ε δ}
    {row : List α} {others : List β}
    (reads : ∀ item further, Related item further →
      Alike move Results (read item) (scan further))
    (rows : List.Forall₂ Related row others) :
    Alike move (List.Forall₂ Results) (row.mapM read) (others.mapM scan) := by
  induction rows with
  | nil => exact .ok .nil
  | cons here _ ih =>
      rw [List.mapM_cons, List.mapM_cons]
      refine (reads _ _ here).bind fun _ _ result => ih.bind fun _ _ results => ?_
      exact .ok (.cons result results)

end Alike

end Reading

open Reading

/-- The error at the line that its line has become. -/
def ParseError.moved (move : Nat → Nat) (error : ParseError) : ParseError :=
  { error with line := move error.line }

theorem alike_atLine {α : Type} (move : Nat → Nat) (line : Nat)
    (reading : Except Fault α) :
    Alike (ParseError.moved move) Eq (atLine line reading)
      (atLine (move line) reading) := by
  cases reading with
  | error fault => exact .error (ParseError.mk fault line)
  | ok value => exact .ok rfl

/-! ## Lines -/

namespace Line

/-- The line under another number. -/
def moved (move : Nat → Nat) (line : Line) : Line :=
  { line with number := move line.number }

@[simp]
theorem documentation?_moved (move : Nat → Nat) (line : Line) :
    (line.moved move).documentation? = line.documentation? := rfl

@[simp]
theorem code_moved (move : Nat → Nat) (line : Line) :
    (line.moved move).code = line.code := rfl

theorem forall₂_moved (move : Nat → Nat) (lines : List Line) :
    List.Forall₂ (fun line other => other = line.moved move) lines
      (lines.map (moved move)) := by
  rw [List.forall₂_map_right_iff, List.forall₂_same]
  exact fun _ _ => rfl

end Line

/-- Lines are counted on from another number by moving each of them. -/
theorem map_moved_numbered
    {move : Nat → Nat} {start : Nat} {rows : List Text} (distance : Nat)
    (moves : ∀ number, start ≤ number → number < start + rows.length →
      move number = number + distance) :
    (numbered start rows).map (Line.moved move) =
      numbered (start + distance) rows := by
  induction rows generalizing start with
  | nil => rfl
  | cons row rows ih =>
      have first : move start = start + distance :=
        moves start (Nat.le_refl _) (by simp)
      have others : (numbered (start + 1) rows).map (Line.moved move) =
          numbered (start + 1 + distance) rows := by
        apply ih
        intro number lower upper
        apply moves number (by omega)
        rw [List.length_cons]
        omega
      have next : start + 1 + distance = start + distance + 1 := by omega
      rw [next] at others
      show Line.moved move ⟨start, Text.trim row⟩ :: _ =
        ⟨start + distance, Text.trim row⟩ :: numbered (start + distance + 1) rows
      rw [← others, Line.moved, first]
      rfl

namespace Line

/-- The line holds neither documentation nor code. -/
def isIdle (line : Line) : Bool :=
  line.documentation?.isNone && line.code.isEmpty

theorem isIdle_iff {line : Line} :
    line.isIdle = true ↔ line.documentation? = none ∧ line.code = [] := by
  simp [isIdle]

end Line

/-! ## Blocks -/

namespace Block

/-- The second block is the first one at another place: its lines are moved, and
other lines that say nothing may stand between them. -/
structure Echoes (move : Nat → Nat) (block echo : Block) : Prop where
  kind : echo.kind = block.kind
  name : echo.name = block.name
  line : echo.line = move block.line
  documentation : echo.documentation = block.documentation
  body : echo.body.filter (!·.isIdle) =
    (block.body.filter (!·.isIdle)).map (Line.moved move)

/-- What the header of a block says. -/
def heading (block : Block) : BlockKind × Text :=
  (block.kind, block.name)

/-- The names of some kinds of blocks are read off the headers. -/
theorem map_name_filter_of_heading
    {blocks others : List Block} (headings : others.map heading = blocks.map heading)
    (isOf : BlockKind → Bool) :
    (others.filter fun block => isOf block.kind).map (·.name) =
      (blocks.filter fun block => isOf block.kind).map (·.name) := by
  have readOff (row : List Block) :
      (row.filter fun block => isOf block.kind).map (·.name) =
        ((row.map heading).filter fun header => isOf header.1).map Prod.snd := by
    rw [List.filter_map, List.map_map]
    rfl
  rw [readOff, readOff, headings]

theorem Echoes.heading {move : Nat → Nat} {block echo : Block}
    (echoes : block.Echoes move echo) : echo.heading = block.heading := by
  rw [Block.heading, Block.heading, echoes.kind, echoes.name]

end Block

theorem foldlM_filter_idle {σ : Type} {step : σ → Line → Except ParseError σ}
    (passes : ∀ state line, line.isIdle = true → step state line = .ok state)
    (body : List Line) (start : σ) :
    body.foldlM step start = (body.filter (!·.isIdle)).foldlM step start := by
  induction body generalizing start with
  | nil => rfl
  | cons line body ih =>
      rw [List.filter_cons]
      by_cases idle : line.isIdle = true
      · rw [List.foldlM_cons, passes start line idle, ok_bind, ih, idle]
        rfl
      · rw [Bool.not_eq_true] at idle
        rw [idle, Bool.not_false, if_pos rfl, List.foldlM_cons, List.foldlM_cons]
        exact congrArg (step start line >>= ·) (funext ih)

namespace Block

variable {move : Nat → Nat} {block echo : Block}

/-- A reader that passes over lines that say nothing, and takes from the others no
more than where their faults are, reads both blocks alike. -/
theorem Echoes.alike_foldlM
    (echoes : block.Echoes move echo) {σ : Type}
    {step : σ → Line → Except ParseError σ}
    (passes : ∀ state line, line.isIdle = true → step state line = .ok state)
    (moves : ∀ state line, Alike (ParseError.moved move) Eq (step state line)
      (step state (line.moved move)))
    (start : σ) :
    Alike (ParseError.moved move) Eq (block.body.foldlM step start)
      (echo.body.foldlM step start) := by
  have rows := Line.forall₂_moved move (block.body.filter (!·.isIdle))
  rw [foldlM_filter_idle passes, foldlM_filter_idle passes echo.body, echoes.body]
  refine Alike.foldlM (fun state _ line _ same moved => ?_) rows rfl
  rw [← same, moved]
  exact moves state line

end Block

/-! ## Declarations -/

variable {move : Nat → Nat} {block echo : Block}

namespace Model

theorem step_of_isIdle (names : DeclaredNames) (reading : Reading) {line : Line}
    (idle : line.isIdle = true) : Reading.step names reading line = .ok reading := by
  obtain ⟨undocumented, empty⟩ := Line.isIdle_iff.mp idle
  rw [Reading.step, undocumented, empty]
  rfl

theorem alike_step (names : DeclaredNames) (reading : Reading) (line : Line) :
    Alike (ParseError.moved move) Eq (Reading.step names reading line)
      (Reading.step names reading (line.moved move)) := by
  simp only [Reading.step, Line.documentation?_moved, Line.code_moved]
  cases line.documentation? with
  | some text => exact .ok rfl
  | none =>
      dsimp only
      split_ifs with silent marked
      · exact .ok rfl
      · exact alike_atLine move line.number _
      · exact alike_atLine move line.number _

theorem alike_ofBlock (names : DeclaredNames) (echoes : block.Echoes move echo) :
    Alike (ParseError.moved move) Eq (ofBlock names block) (ofBlock names echo) := by
  rw [ofBlock, ofBlock, echoes.name, echoes.documentation]
  refine (echoes.alike_foldlM (fun reading _ => step_of_isIdle names reading)
    (alike_step names) _).bind fun reading result same => ?_
  rw [same]
  exact .ok rfl

end Model

namespace SchemaEnum

theorem step_of_isIdle (enum : SchemaEnum) {line : Line} (idle : line.isIdle = true) :
    step enum line = .ok enum := by
  rw [step, (Line.isIdle_iff.mp idle).2]
  rfl

theorem alike_step (enum : SchemaEnum) (line : Line) :
    Alike (ParseError.moved move) Eq (step enum line)
      (step enum (line.moved move)) := by
  rw [step, step, Line.code_moved]
  split_ifs with silent marked
  · exact .ok rfl
  · exact alike_atLine move line.number _
  · exact alike_atLine move line.number _

theorem alike_ofBlock (echoes : block.Echoes move echo) :
    Alike (ParseError.moved move) Eq (ofBlock block) (ofBlock echo) := by
  rw [ofBlock, ofBlock, echoes.name, echoes.documentation]
  exact echoes.alike_foldlM (fun enum _ => step_of_isIdle enum) alike_step _

end SchemaEnum

namespace Properties

theorem step_of_isIdle (kind : BlockKind) (properties : Properties) {line : Line}
    (idle : line.isIdle = true) : step kind properties line = .ok properties := by
  rw [step, (Line.isIdle_iff.mp idle).2]
  rfl

theorem alike_step (kind : BlockKind) (properties : Properties) (line : Line) :
    Alike (ParseError.moved move) Eq (step kind properties line)
      (step kind properties (line.moved move)) := by
  rw [step, step, Line.code_moved]
  split_ifs with silent
  · exact .ok rfl
  · cases line? line.code with
    | none => exact .error (ParseError.mk _ line.number)
    | some pair => exact .ok rfl

theorem alike_ofBlock (echoes : block.Echoes move echo) :
    Alike (ParseError.moved move) Eq (ofBlock block) (ofBlock echo) := by
  rw [ofBlock, ofBlock, echoes.kind, echoes.name, echoes.line]
  refine (echoes.alike_foldlM (fun properties _ => step_of_isIdle block.kind properties)
    (alike_step block.kind) _).bind fun properties result same => ?_
  rw [← same]
  cases properties.find? ("provider" : Text) with
  | none => exact .error (ParseError.mk _ block.line)
  | some provider => exact .ok rfl

end Properties

namespace Declaration

/-- A block declares the same wherever it stands. -/
theorem alike_ofBlock (names : DeclaredNames) (echoes : block.Echoes move echo) :
    Alike (ParseError.moved move) Eq (ofBlock names block) (ofBlock names echo) := by
  rw [ofBlock, ofBlock, echoes.kind]
  cases block.kind with
  | model => exact (Model.alike_ofBlock names echoes).map fun _ _ => congrArg model
  | enum => exact (SchemaEnum.alike_ofBlock echoes).map fun _ _ => congrArg enum
  | datasource =>
      refine Alike.map ?_ fun _ _ => congrArg datasource
      rw [Datasource.ofBlock, Datasource.ofBlock, echoes.name]
      refine (Properties.alike_ofBlock echoes).bind fun _ _ same => ?_
      rw [same]
      exact .ok rfl
  | generator =>
      refine Alike.map ?_ fun _ _ => congrArg generator
      rw [Generator.ofBlock, Generator.ofBlock, echoes.name]
      refine (Properties.alike_ofBlock echoes).bind fun _ _ same => ?_
      rw [same]
      exact .ok rfl

end Declaration

/-! ## Rows of blocks -/

variable {blocks echoes : List Block}

/-- The names of a document are read off the headers of its blocks. -/
theorem DeclaredNames.ofBlocks_of_heading
    (headings : echoes.map Block.heading = blocks.map Block.heading) :
    ofBlocks echoes = ofBlocks blocks := by
  have named := Block.map_name_filter_of_heading headings
  exact congrArg₂ mk (named fun kind => kind = .model) (named fun kind => kind = .enum)

namespace Block

theorem map_heading_of_forall₂ {Related : Block → Block → Prop}
    (same : ∀ block echo, Related block echo → echo.heading = block.heading)
    (each : List.Forall₂ Related blocks echoes) :
    echoes.map heading = blocks.map heading := by
  induction each with
  | nil => rfl
  | cons here _ ih => rw [List.map_cons, List.map_cons, same _ _ here, ih]

theorem forall₂_filter_isNamed
    (each : List.Forall₂ (Echoes move) blocks echoes) :
    List.Forall₂ (Echoes move) (blocks.filter isNamed) (echoes.filter isNamed) := by
  induction each with
  | nil => exact .nil
  | @cons block echo _ _ here _ ih =>
      have named : echo.isNamed = block.isNamed := by
        rw [isNamed, isNamed, here.kind]
      rw [List.filter_cons, List.filter_cons, named]
      split_ifs
      · exact .cons here ih
      · exact ih

theorem alike_distinctFrom
    (each : List.Forall₂ (Echoes move) blocks echoes) (taken : List Text) :
    Alike (ParseError.moved move) Eq (distinctFrom taken blocks)
      (distinctFrom taken echoes) := by
  induction each generalizing taken with
  | nil => exact .ok rfl
  | @cons block echo _ _ here _ ih =>
      rw [distinctFrom, distinctFrom, here.name, here.kind, here.line]
      split_ifs
      · exact .error (ParseError.mk _ block.line)
      · exact ih _

end Block

namespace Schema

/-- A row of blocks declares the same wherever its blocks stand, and is refused for
the same reason. -/
theorem alike_ofBlocks (each : List.Forall₂ (Block.Echoes move) blocks echoes) :
    Alike (ParseError.moved move) Eq (ofBlocks blocks) (ofBlocks echoes) := by
  have headings := Block.map_heading_of_forall₂ (fun _ _ => Block.Echoes.heading) each
  rw [ofBlocks, ofBlocks, DeclaredNames.ofBlocks_of_heading headings]
  have declared := Alike.mapM
    (fun block echo (here : Block.Echoes move block echo) =>
      Declaration.alike_ofBlock (DeclaredNames.ofBlocks blocks) here) each
  refine declared.bind fun declarations results same => ?_
  rw [List.forall₂_eq_eq_eq] at same
  refine (Block.alike_distinctFrom (Block.forall₂_filter_isNamed each) []).bind
    fun _ _ _ => ?_
  rw [same]
  exact .ok rfl

end Schema

end SchemaCompose
