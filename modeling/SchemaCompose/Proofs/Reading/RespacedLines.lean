import SchemaCompose.Proofs.Reading.Exchange
import SchemaCompose.Proofs.Reading.Places
import SchemaCompose.Proofs.Reading.Respacing

/-!
# Lines with other white space

A place in the arguments of an attribute is given by what stands around it on its line
(`Attribute.Place`).  White space between marks changes neither where the comment of the line begins
nor which attributes are scanned, and where the place is idle the line declares what it
declared (`Schema.parse_respaced`).
-/

namespace SchemaCompose

open Text Attribute

/-! ## Attributes that say the same -/

section SaysSame

variable {source other : Attribute}

/-- The attributes with arguments that are told apart. -/
def Attribute.spacedNames : List Text :=
  ["@@map", "@@id", "@@unique", "@relation"]

/-- What is made of the stored name in the first attribute is made of it in the second
one. -/
theorem Attribute.SaysSame.map_positional {α : Type} (same : SaysSame source other)
    (isMap : source.name = "@@map") (make : Text → α) {result : α}
    (read : source.positional.map (fun value => make (unquote value)) = .ok result) :
    other.positional.map (fun value => make (unquote value)) = .ok result := by
  obtain ⟨value, found, rfl⟩ := Reading.map_eq_ok.mp read
  have stored := same.stored isMap (unquote value) (by rw [found]; rfl)
  obtain ⟨again, found', unquoted⟩ := Reading.map_eq_ok.mp stored
  exact Reading.map_eq_ok.mpr ⟨again, found', by rw [unquoted]⟩

theorem Field.withAttribute_of_saysSame (labelled : source.name ∈ spacedNames)
    (same : SaysSame source other) {field next : Field}
    (read : field.withAttribute source = .ok next) : field.withAttribute other = .ok next := by
  unfold withAttribute at read ⊢
  rw [same.name]
  split_ifs at read ⊢ with id unique updatedAt default relates
  · exact read
  · exact read
  · exact read
  · rw [default] at labelled
    exact absurd labelled (by decide)
  · obtain ⟨relation, found, rfl⟩ := Reading.map_eq_ok.mp read
    exact Reading.map_eq_ok.mpr ⟨relation, same.relation relates relation found, rfl⟩
  · exact read

theorem Model.withAttribute_of_saysSame (same : SaysSame source other) {model next : Model}
    (read : model.withAttribute source = .ok next) : model.withAttribute other = .ok next := by
  have keyed : IsKey source.name → ∀ make : CompoundKey → Model,
      source.compoundKey.map make = .ok next → other.compoundKey.map make = .ok next := by
    intro isKey make read
    obtain ⟨key, found, rfl⟩ := Reading.map_eq_ok.mp read
    exact Reading.map_eq_ok.mpr ⟨key, same.key isKey key found, rfl⟩
  unfold withAttribute at read ⊢
  rw [same.name]
  split_ifs at read ⊢ with stored id unique
  · exact same.map_positional stored (fun value => { model with tableName := some value }) read
  · exact keyed (Or.inl id) _ read
  · exact keyed (Or.inr unique) _ read
  · exact read

theorem SchemaEnum.storedNameFrom_of_saysSame {label : Text}
    (labelled : source.name ∈ spacedNames) (same : SaysSame source other)
    (apart : label = "@@map" ∨ label ∉ spacedNames) {before next : Option Text}
    (read : storedNameFrom label before source = .ok next) :
    storedNameFrom label before other = .ok next := by
  unfold storedNameFrom at read ⊢
  rw [same.name]
  split_ifs at read ⊢ with own
  · rcases apart with rfl | other
    · exact same.map_positional own some read
    · exact absurd (own ▸ labelled) other
  · exact read

end SaysSame

/-! ## Places on a line -/

/-- A place in the arguments of an attribute, and what stands around it on its line. -/
structure Attribute.Place where
  /-- What stands in front of the attributes of the line. -/
  head : Text
  /-- The attributes in front. -/
  lead : Text
  name : Text
  /-- The arguments in front of the place and behind it. -/
  left : Text
  right : Text
  /-- The rest of the line, with its comment. -/
  behind : Text

namespace Attribute.Place

/-- The arguments of the attribute with something at the place. -/
def arguments (place : Place) (gap : Text) : Text :=
  place.left ++ gap ++ place.right

/-- The attributes of the line and its comment. -/
def attributes (place : Place) (gap : Text) : Text :=
  place.lead ++ (call place.name (place.arguments gap)).write ++ place.behind

/-- The attributes of the line without its comment. -/
def attributesCode (place : Place) (gap : Text) : Text :=
  place.lead ++ (call place.name (place.arguments gap)).write ++ Text.code place.behind

/-- The line with something at the place. -/
def row (place : Place) (gap : Text) : Text :=
  place.head ++ place.attributes gap

/-- The line begins like one of a block of the kind: with block attributes, with a field of a
model, or with a value of an enum that does not look like a header. -/
inductive IsStart (kind : BlockKind) (place : Place) : Prop
  | block (bare : place.head = []) (known : kind = .model ∨ kind = .enum)
      (marked : startsWith "@@" (place.lead ++ place.name) = true)
  | field {parts : FieldLine} (isHead : FieldLine.IsHead place.head parts)
      (isModel : kind = .model) (closed : LiteralState.run .outside place.head = .outside)
  | value (isName : Text.IsName place.head) (isEnum : kind = .enum)
      (apart : place.head ≠ "model")

/-- The characters that white space may stand beside. -/
def IsBeside (left right : Text) : Prop :=
  (∀ c ∈ left.getLast?, c ∈ [':', ',', '(', '[']) ∨
    ∀ c ∈ right.head?, c ∈ [':', ',', ')', ']']

instance (left right : Text) : Decidable (IsBeside left right) :=
  inferInstanceAs (Decidable (_ ∨ _))

/-- The place is one in the arguments of an attribute of the line, beside a mark and outside
of literals. -/
structure IsPlaced (kind : BlockKind) (place : Place) (gap : Text)
    (leading trailing : List Attribute) : Prop where
  start : place.IsStart kind
  labelled : place.name ∈ spacedNames
  surrounds : Surrounds place.lead place.behind leading trailing
  balanced : Balanced (place.arguments gap)
  outside : LiteralState.run .outside place.left = .outside
  beside : IsBeside place.left place.right

end Attribute.Place

/-! ## White space in arguments -/

section Gap

variable {left right gap fresh : Text}

/-- Beside a mark, white space neither parts two slashes nor joins them. -/
theorem Attribute.Place.IsBeside.apart (beside : Place.IsBeside left right) (blank : IsGap gap) :
    left.getLast? ≠ some '/' ∨ (gap ++ right).head? ≠ some '/' := by
  rcases beside with before | behind
  · exact Or.inl fun slash => absurd (before '/' slash) (by decide)
  · refine Or.inr fun slash => ?_
    cases gap with
    | nil => exact absurd (behind '/' slash) (by decide)
    | cons c gap =>
        obtain rfl : c = '/' := Option.some.inj slash
        exact blank.not_mem (by decide) List.mem_cons_self

theorem Balanced.respaced (balanced : Balanced (left ++ gap ++ right))
    (outside : LiteralState.run .outside left = .outside)
    (beside : Place.IsBeside left right) (blank : IsGap gap) (blank' : IsGap fresh) :
    Balanced (left ++ fresh ++ right) := by
  rw [List.append_assoc] at balanced ⊢
  constructor
  · have nested := balanced.nested
    rw [nesting_append] at nested ⊢
    cases front : nesting 0 .outside left with
    | none =>
        rw [front] at nested
        contradiction
    | some reached =>
        obtain ⟨depth, state⟩ := reached
        obtain rfl : state = .outside := (run_of_nesting front).symm.trans outside
        rw [front] at nested
        simp only [Option.bind_some, nesting_append, nesting_of_blank blank,
          nesting_of_blank blank'] at nested ⊢
        exact nested
  · obtain ⟨silent, further⟩ := Text.beforeComment_of_append balanced.silent
    rw [outside] at further
    have behind := (Text.beforeComment_of_append further).2
    rw [(balanced_of_blank blank).run_eq] at behind
    have noSlash : fresh.getLast? ≠ some '/' := fun slash =>
      blank'.not_mem (by decide) (List.mem_of_getLast? slash)
    rw [Text.beforeComment_append silent (beside.apart blank'), outside,
      (balanced_of_blank blank').beforeComment_append (Or.inl noSlash), behind]

end Gap

/-! ## The attributes of the line -/

namespace Attribute.Place

variable {place : Place} {kind : BlockKind} {gap fresh : Text}
  {leading trailing : List Attribute}

theorem isName_of_labelled {name : Text} (labelled : name ∈ spacedNames) :
    Attribute.IsName name := by
  have each : ∀ name ∈ spacedNames, Attribute.IsName name := by decide
  exact each name labelled

theorem IsStart.silent (start : place.IsStart kind) :
    beforeComment .outside place.head = place.head ∧
      LiteralState.run .outside place.head = .outside := by
  cases start with
  | block bare => rw [bare]; exact ⟨rfl, rfl⟩
  | field isHead _ closed => exact ⟨isHead.silent, closed⟩
  | value isName =>
      exact ⟨beforeComment_of_no_slash (isName.not_mem (by decide)),
        LiteralState.run_outside_of_no_quote (isName.not_mem (by decide))⟩

theorem IsPlaced.respaced (placed : place.IsPlaced kind gap leading trailing)
    (blank : IsGap gap) (blank' : IsGap fresh) :
    place.IsPlaced kind fresh leading trailing :=
  { placed with
    balanced := placed.balanced.respaced placed.outside placed.beside blank blank' }

variable (placed : place.IsPlaced kind gap leading trailing)

include placed

theorem IsPlaced.code_row :
    Text.code (place.row gap) = place.head ++ place.attributesCode gap := by
  obtain ⟨silent, closed⟩ := placed.start.silent
  exact placed.surrounds.code_eq silent closed (isName_of_labelled placed.labelled)
    placed.balanced

theorem IsPlaced.scan_eq : scan (place.attributesCode gap) =
    .ok (leading ++ call place.name (trim (place.arguments gap)) :: trailing) :=
  placed.surrounds.scan_eq (isName_of_labelled placed.labelled) placed.balanced

/-- The attributes of the line begin with white space or with an attribute. -/
theorem IsPlaced.head_cases :
    ∀ c ∈ (place.attributesCode gap).head?, isBlank c = true ∨ c = '@' :=
  head_cases_call placed.surrounds.leads (isName_of_labelled placed.labelled)
    (place.arguments gap) (Text.code place.behind)

end Attribute.Place

theorem Text.startsWith_append {lead text : Text} (starts : startsWith lead text = true)
    (rest : Text) : startsWith lead (text ++ rest) = true := by
  obtain ⟨behind, found⟩ := Option.isSome_iff_exists.mp starts
  rw [eq_append_of_after? found, List.append_assoc, startsWith, after?_append]
  rfl

/-! ## Lines of an enum -/

namespace SchemaEnum

variable {line : Line}

theorem step_of_isMarked (enum : SchemaEnum) (marked : line.isMarked = true) :
    enum.step line = atLine line.number do
      let attributes ← Attribute.scan line.code
      let storedName ← attributes.foldlM (storedNameFrom "@@map") enum.storedName
      return { enum with storedName } := by
  have filled := Line.isSilent_of_isMarked marked
  simp only [step, show line.code.isEmpty = false from filled, Bool.false_eq_true, if_false,
    show Text.startsWith "@@" line.code = true from marked, if_true]

theorem step_of_identifier? (enum : SchemaEnum) (unmarked : line.isMarked = false)
    {name behind : Text} (identifier : Text.identifier? line.code = some (name, behind)) :
    enum.step line = atLine line.number do
      let attributes ← Attribute.scan behind
      let storedName ← attributes.foldlM (storedNameFrom "@map") none
      return { enum with values := enum.values ++ [{ name, storedName }] } := by
  have filled : line.code.isEmpty = false := by
    cases code : line.code with
    | nil =>
        rw [code] at identifier
        contradiction
    | cons c rest => rfl
  simp only [step, filled, Bool.false_eq_true, if_false,
    show Text.startsWith "@@" line.code = false from unmarked, identifier]

end SchemaEnum

/-! ## What the line declares -/

namespace Attribute.Place

variable {place : Place} {kind : BlockKind} {gap fresh : Text}
  {leading trailing : List Attribute} {line other : Line}

/-- Two lines that differ in the white space at a place, where the attribute says the same. -/
structure IsRespaced (place : Place) (kind : BlockKind) (gap fresh : Text)
    (leading trailing : List Attribute) (line other : Line) : Prop where
  placed : place.IsPlaced kind gap leading trailing
  blank : IsGap gap
  blank' : IsGap fresh
  same : SaysSame (call place.name (trim (place.arguments gap)))
    (call place.name (trim (place.arguments fresh)))
  text : line.text = place.row gap
  text' : other.text = place.row fresh

variable (respaced : place.IsRespaced kind gap fresh leading trailing line other)

include respaced

theorem IsRespaced.placed' : place.IsPlaced kind fresh leading trailing :=
  respaced.placed.respaced respaced.blank respaced.blank'

theorem IsRespaced.code_line : line.code = place.head ++ place.attributesCode gap := by
  rw [Line.code, respaced.text, respaced.placed.code_row]

theorem IsRespaced.code_other : other.code = place.head ++ place.attributesCode fresh := by
  rw [Line.code, respaced.text', respaced.placed'.code_row]

/-- A line of block attributes stays one. -/
theorem IsRespaced.marked_scans (bare : place.head = [])
    (marked : startsWith "@@" (place.lead ++ place.name) = true) :
    (line.isMarked = true ∧ scan line.code =
      .ok (leading ++ call place.name (trim (place.arguments gap)) :: trailing)) ∧
    other.isMarked = true ∧ scan other.code =
      .ok (leading ++ call place.name (trim (place.arguments fresh)) :: trailing) := by
  have starts : ∀ gap, startsWith "@@" (place.attributesCode gap) = true := by
    intro gap
    have parted : place.attributesCode gap = place.lead ++ place.name ++
        ('(' :: place.arguments gap ++ ')' :: Text.code place.behind) := by
      simp [attributesCode, write]
    rw [parted]
    exact startsWith_append marked _
  rw [Line.isMarked, Line.isMarked, respaced.code_line, respaced.code_other, bare,
    List.nil_append, List.nil_append]
  exact ⟨⟨starts gap, respaced.placed.scan_eq⟩, starts fresh, respaced.placed'.scan_eq⟩

/-- A line of a model still does in it what it did. -/
theorem IsRespaced.step_model (isModel : kind = .model) (names : DeclaredNames)
    {reading next : Model.Reading} (read : reading.step names line = .ok next) :
    reading.step names other = .ok next := by
  have placed' := respaced.placed'
  have code := respaced.code_line
  have code' := respaced.code_other
  have labelled : (call place.name (trim (place.arguments gap))).name ∈ spacedNames :=
    respaced.placed.labelled
  cases respaced.placed.start with
  | block bare _ marked =>
      obtain ⟨⟨isMarked, scanned⟩, isMarked', scanned'⟩ := respaced.marked_scans bare marked
      rw [Model.Reading.step_of_isMarked reading isMarked, Reading.atLine_eq_ok, scanned,
        Reading.ok_bind] at read
      rw [Model.Reading.step_of_isMarked reading isMarked', Reading.atLine_eq_ok, scanned',
        Reading.ok_bind]
      obtain ⟨model, folded, finished⟩ := Reading.bind_eq_ok.mp read
      exact Reading.bind_eq_ok.mpr ⟨model, Reading.foldlM_exchange
        (fun _ _ => Model.withAttribute_of_saysSame respaced.same) folded, finished⟩
  | @field parts isHead _ closed =>
      obtain ⟨declares, isField, _⟩ :=
        isHead.declares_append respaced.placed.head_cases code
      obtain ⟨declares', isField', _⟩ :=
        isHead.declares_append placed'.head_cases code'
      refine Model.Reading.step_of_same_field isField isField' ?_ read
      intro documentation field readField
      obtain ⟨parts', fieldKind, sources, own, known, scanned, folded⟩ :=
        Field.exists_of_read readField
      obtain rfl := Option.some.inj (own.symm.trans declares)
      obtain rfl := Except.ok.inj (scanned.symm.trans respaced.placed.scan_eq)
      have known' : names.kindOf? parts.type = some fieldKind := known
      simp only [Field.read, declares', known', placed'.scan_eq, Reading.ok_bind]
      exact Reading.foldlM_exchange
        (fun _ _ => Field.withAttribute_of_saysSame labelled respaced.same) folded
  | value _ isEnum _ =>
      rw [isModel] at isEnum
      contradiction

/-- A line of an enum still does in it what it did. -/
theorem IsRespaced.step_enum (isEnum : kind = .enum) {enum next : SchemaEnum}
    (read : enum.step line = .ok next) : enum.step other = .ok next := by
  have placed' := respaced.placed'
  have code := respaced.code_line
  have code' := respaced.code_other
  have labelled : (call place.name (trim (place.arguments gap))).name ∈ spacedNames :=
    respaced.placed.labelled
  cases respaced.placed.start with
  | block bare _ marked =>
      obtain ⟨⟨isMarked, scanned⟩, isMarked', scanned'⟩ := respaced.marked_scans bare marked
      rw [SchemaEnum.step_of_isMarked enum isMarked, Reading.atLine_eq_ok, scanned,
        Reading.ok_bind] at read
      rw [SchemaEnum.step_of_isMarked enum isMarked', Reading.atLine_eq_ok, scanned',
        Reading.ok_bind]
      obtain ⟨storedName, folded, finished⟩ := Reading.bind_eq_ok.mp read
      exact Reading.bind_eq_ok.mpr ⟨storedName, Reading.foldlM_exchange
        (fun _ _ => SchemaEnum.storedNameFrom_of_saysSame labelled respaced.same (Or.inl rfl))
        folded, finished⟩
  | field _ isModel _ =>
      rw [isEnum] at isModel
      contradiction
  | value isName _ _ =>
      have valued : ∀ {gap : Text} {line : Line}, place.IsPlaced kind gap leading trailing →
          line.code = place.head ++ place.attributesCode gap →
          line.isMarked = false ∧
            identifier? line.code = some (place.head, place.attributesCode gap) := by
        intro gap line placed code
        rw [Line.isMarked, code]
        refine ⟨startsWith_of_head? rfl (isName.head?_ne (by decide) _), ?_⟩
        apply isName.identifier?_append
        rw [atWordEnd_iff]
        intro c first
        rcases placed.head_cases c first with blank | rfl
        · exact not_isWord_of_isBlank blank
        · decide
      obtain ⟨unmarked, identifier⟩ := valued respaced.placed code
      obtain ⟨unmarked', identifier'⟩ := valued placed' code'
      rw [SchemaEnum.step_of_identifier? enum unmarked identifier, Reading.atLine_eq_ok,
        respaced.placed.scan_eq, Reading.ok_bind] at read
      rw [SchemaEnum.step_of_identifier? enum unmarked' identifier', Reading.atLine_eq_ok,
        placed'.scan_eq, Reading.ok_bind]
      obtain ⟨storedName, folded, finished⟩ := Reading.bind_eq_ok.mp read
      exact Reading.bind_eq_ok.mpr ⟨storedName, Reading.foldlM_exchange
        (fun _ _ => SchemaEnum.storedNameFrom_of_saysSame labelled respaced.same
          (Or.inr (by decide))) folded, finished⟩

/-- The line closes no block. -/
theorem IsRespaced.inside : other.code ≠ ['}'] := by
  intro closes
  have member : '(' ∈ other.code := by
    rw [respaced.code_other]
    simp [attributesCode, write]
  rw [closes] at member
  exact absurd member (by decide)

end Attribute.Place

namespace Schema

/-- White space at a place where it is idle does not matter for what a document declares. -/
theorem parse_respaced {place : Place} {gap fresh text text' : Text} {block : Block}
    {line other : Line} {leading trailing : List Attribute} {schema : Schema}
    (respaced : place.IsRespaced block.kind gap fresh leading trailing line other)
    (exchange : Exchange text text' block line other) (accepted : parse text = .ok schema) :
    parse text' = .ok schema := by
  have known : block.kind = .model ∨ block.kind = .enum := by
    cases respaced.placed.start with
    | block _ known _ => exact known
    | field _ isModel _ => exact Or.inl isModel
    | value _ isEnum _ => exact Or.inr isEnum
  rcases known with isModel | isEnum
  · exact parse_of_same_step_model exchange isModel respaced.inside accepted fun _ _ =>
      respaced.step_model isModel schema.names
  · exact parse_of_same_step_enum exchange isEnum respaced.inside accepted fun _ _ =>
      respaced.step_enum isEnum

end Schema

end SchemaCompose
