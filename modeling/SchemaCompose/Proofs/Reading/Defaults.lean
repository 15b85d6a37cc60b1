import SchemaCompose.Proofs.Reading.Accepted
import SchemaCompose.Proofs.Reading.AttributeOrder
import SchemaCompose.Proofs.Reading.Expression
import SchemaCompose.Proofs.Reading.FieldChanges
import SchemaCompose.Proofs.Reading.Margins

/-!
# Defaults

A default may stand among the attributes of a field that could be declared without any
(`DefaultPlace`).  The scanner of attributes and the search for a comment go over an
expression in step, so the line declares what it declares with an empty default, but with
the trimmed expression for it.  Anything else is refused or read as something else, and
whatever default a field with a named type is read with is an expression
(`Schema.keeps_default_iff`).
-/

namespace SchemaCompose

open Text Attribute

/-! ## Attributes of a field -/

namespace Field

variable {leading trailing : List Attribute} {source : Attribute} {value : Text}

theorem bare_change (field : Field) (source : Attribute) :
    (field.change source).bare = field.bare := by
  rcases change_cases source with
    own | ⟨_, own⟩ | ⟨_, own⟩ | ⟨_, own⟩ | ⟨_, own⟩ | ⟨_, _, own⟩ <;> rw [own] <;> rfl

theorem bare_foldl_change (sources : List Attribute) (field : Field) :
    (sources.foldl change field).bare = field.bare := by
  induction sources generalizing field with
  | nil => rfl
  | cons source sources ih => rw [List.foldl_cons, ih, bare_change]

/-- An attribute may be read behind others that have another name. -/
theorem foldl_change_comm (others : ∀ other ∈ trailing, other.name ≠ source.name)
    (field : Field) :
    trailing.foldl change (field.change source) = (trailing.foldl change field).change source := by
  induction trailing generalizing field with
  | nil => rfl
  | cons other trailing ih =>
      rw [List.forall_mem_cons] at others
      rw [List.foldl_cons, List.foldl_cons, ← change_comm others.1, ih others.2]

/-- The field with what other attributes say about it and with a default. -/
def withDefault (sources : List Attribute) (value : Text) (field : Field) : Field :=
  { sources.foldl change field with default := some value }

theorem kept_withDefault (sources : List Attribute) (value : Text) (field : Field) :
    (field.withDefault sources value).name = field.name ∧
      (field.withDefault sources value).type = field.type := by
  have kept := bare_foldl_change sources field
  exact ⟨(congrArg Field.name kept :), (congrArg Field.type kept :)⟩

/-- Wherever the default stands among the attributes, they say the same. -/
theorem foldl_change_default (others : ∀ source ∈ trailing, source.name ≠ "@default")
    (field : Field) :
    (leading ++ call "@default" value :: trailing).foldl change field =
      field.withDefault (leading ++ trailing) value := by
  rw [List.foldl_append, List.foldl_cons, foldl_change_comm others, withDefault,
    List.foldl_append]
  rfl

end Field

/-! ## Places -/

/-- A place for the default of a field: what stands around it on its line. -/
structure DefaultPlace where
  name : Text
  /-- What stands between the name and the type. -/
  gap : Text
  type : Text
  isList : Bool
  isOptional : Bool
  /-- The attributes in front of the default. -/
  lead : Text
  /-- The rest of the line, with its comment. -/
  behind : Text

namespace DefaultPlace

/-- The marks behind the type. -/
def marks (place : DefaultPlace) : Text :=
  (if place.isList then ['[', ']'] else []) ++ if place.isOptional then ['?'] else []

/-- The line without attributes. -/
def head (place : DefaultPlace) : Text :=
  place.name ++ (place.gap ++ (place.type ++ place.marks))

/-- The line with a default. -/
def row (place : DefaultPlace) (value : Text) : Text :=
  place.head ++ (place.lead ++ (call "@default" value).write ++ place.behind)

/-- What the line declares without attributes. -/
def parts (place : DefaultPlace) : FieldLine :=
  ⟨place.name, place.type, place.isList, place.isOptional, []⟩

/-- The name and the type of the field are names, and around the default stand attributes
that a field takes, none of which is a default. -/
structure IsPlaced (place : DefaultPlace) (leading trailing : List Attribute) : Prop where
  name : Text.IsName place.name
  blank : IsGap place.gap
  parted : place.gap ≠ []
  type : Text.IsName place.type
  surrounds : Surrounds place.lead place.behind leading trailing
  taken : ∀ source ∈ leading ++ trailing, Field.Takes source
  others : ∀ source ∈ leading ++ trailing, source.name ≠ "@default"

variable {place : DefaultPlace} {leading trailing : List Attribute} {value : Text}

namespace IsPlaced

variable (placed : place.IsPlaced leading trailing)

include placed

theorem isHead : FieldLine.IsHead place.head place.parts := by
  have named : Text.IsName place.parts.name := placed.name
  exact FieldLine.isHead_of_isName named placed.type placed.blank placed.parted

theorem code_head : Text.code place.head = place.head := by
  obtain ⟨-, ends⟩ := placed.isHead.plain placed.type
  rw [Text.code, placed.isHead.silent, trimEnd_of_last fun c last => (ends c last).1]

theorem code_row (balanced : Balanced value) :
    Text.code (place.row value) =
      place.head ++ (place.lead ++ (call "@default" value).write ++ Text.code place.behind) := by
  obtain ⟨plain, -⟩ := placed.isHead.plain placed.type
  exact placed.surrounds.code_eq placed.isHead.silent
    (LiteralState.run_outside_of_no_quote plain) (by decide) balanced

variable {names : DeclaredNames} {kind : FieldKind}

theorem read_head (known : names.kindOf? place.type = some kind) (documentation : Option Text) :
    Field.read names documentation (Text.code place.head) =
      .ok (place.parts.field kind documentation) := by
  have bare : scan [] = .ok [] := by simp [scan]
  have read := placed.isHead.read_append known (by simp) bare documentation
  rwa [List.append_nil, ← placed.code_head] at read

/-- A field is read with the default, and its other attributes as without it. -/
theorem read_row (known : names.kindOf? place.type = some kind) (balanced : Balanced value)
    (documentation : Option Text) :
    Field.read names documentation (Text.code (place.row value)) =
      .ok ((place.parts.field kind documentation).withDefault (leading ++ trailing)
        (trim value)) := by
  have isDefault : Attribute.IsName "@default" := by decide
  obtain ⟨taken, takenBehind⟩ := List.forall_mem_append.mp placed.taken
  have own : Field.Takes (call "@default" (trim value)) := fun relates =>
    absurd (show ("@default" : Text) = "@relation" from relates) (by decide)
  have all : ∀ source ∈ leading ++ call "@default" (trim value) :: trailing,
      Field.Takes source :=
    List.forall_mem_append.mpr ⟨taken, List.forall_mem_cons.mpr ⟨own, takenBehind⟩⟩
  have others := (List.forall_mem_append.mp placed.others).2
  rw [placed.code_row balanced, placed.isHead.read_append known
    (head_cases_call placed.surrounds.leads isDefault _ _)
    (placed.surrounds.scan_eq isDefault balanced),
    Field.foldlM_withAttribute_eq_change all, Field.foldl_change_default others]

end IsPlaced

/-! ## Documents -/

/-- The line in front of the default. -/
def front (place : DefaultPlace) : Text :=
  place.head ++ (place.lead ++ "@default(")

theorem row_eq (place : DefaultPlace) (value : Text) :
    place.row value = place.front ++ (value ++ ')' :: place.behind) := by
  simp [row, front, write]

/-- The line is one of a model, where the document is accepted if the field is declared there
without attributes: its type is known, and its name is new. -/
structure IsIn (place : DefaultPlace) (margins : Margins) (block : Block) : Prop where
  laid : margins.IsLaid
  content : IsContent (place.row [])
  cut : ∃ blocks, Block.split (Line.ofText (margins.fill place.head)) = .ok blocks ∧
    block ∈ blocks
  isModel : block.kind = .model
  member : margins.line place.head ∈ block.body
  accepted : ∃ schema, Schema.parse (margins.fill place.head) = .ok schema

/-- A default on one line leaves the line what it is. -/
theorem isContent_row (content : IsContent (place.row [])) (single : IsLine value) :
    IsContent (place.row value) := by
  rw [row_eq] at content ⊢
  exact content.between (by simp [front]) (List.cons_ne_nil _ _) single

namespace IsPlaced

variable (placed : place.IsPlaced leading trailing)

include placed

theorem isContent_head (content : IsContent (place.row [])) : IsContent place.head := by
  obtain ⟨-, ends⟩ := placed.isHead.plain placed.type
  refine ⟨by simp [head, placed.name.ne_nil], (isLine_append.mp content.single).1, ?_⟩
  apply isTrimmed_of_edges
  · intro c first
    exact not_isBlank_of_isWord (placed.name.head?_append _ c first)
  · exact fun c last => (ends c last).1

theorem exchange {margins : Margins} {block : Block} (isIn : place.IsIn margins block)
    (single : IsLine value) :
    Exchange (margins.fill place.head) (margins.fill (place.row value)) block
      (margins.line place.head) (margins.line (place.row value)) := by
  obtain ⟨lower, lines⟩ := Margins.exists_lines isIn.laid
  exact ⟨isIn.cut, isIn.member, _, lower, lines _ (placed.isContent_head isIn.content),
    lines _ (isContent_row isIn.content single)⟩

theorem exists_of_read {names : DeclaredNames} {documentation : Option Text} {field : Field}
    (read : Field.read names documentation (Text.code place.head) = .ok field) :
    ∃ kind, names.kindOf? place.type = some kind ∧
      field = place.parts.field kind documentation := by
  obtain ⟨parts, kind, -, declares, known, -⟩ := Field.exists_of_read read
  rw [placed.code_head, placed.isHead.declares] at declares
  obtain rfl := Option.some.inj declares
  exact ⟨kind, known, Except.ok.inj (read.symm.trans (placed.read_head known documentation))⟩

theorem isField_head (margins : Margins) :
    (margins.line place.head).isField = true ∧
      (margins.line place.head).fieldName? = some place.name := by
  have code : (margins.line place.head).code = place.head ++ [] := by
    rw [List.append_nil]
    exact placed.code_head
  exact (placed.isHead.declares_append (by simp) code).2

theorem isField_row (margins : Margins) (balanced : Balanced value) :
    (margins.line (place.row value)).isField = true ∧
      (margins.line (place.row value)).fieldName? = some place.name ∧
      (margins.line (place.row value)).code ≠ ['}'] := by
  have isDefault : Attribute.IsName "@default" := by decide
  have code : (margins.line (place.row value)).code = _ := placed.code_row balanced
  obtain ⟨declares, isField, named⟩ :=
    placed.isHead.declares_append (head_cases_call placed.surrounds.leads isDefault _ _) code
  exact ⟨isField, named, Line.not_closing_of_ofText? declares⟩

/-- The line with a default declares what the line without attributes declares, changed. -/
theorem isChange (margins : Margins) (names : DeclaredNames) (balanced : Balanced value) :
    Model.IsChange names place.name (Field.withDefault (leading ++ trailing) (trim value))
      (margins.line place.head) (margins.line (place.row value)) where
  isField := (placed.isField_head margins).1
  freshField := (placed.isField_row margins balanced).1
  named := (placed.isField_head margins).2
  keeps field := (Field.kept_withDefault _ _ field).1
  changed documentation field read := by
    obtain ⟨kind, known, rfl⟩ := placed.exists_of_read read
    exact placed.read_row known balanced documentation

variable {margins : Margins} {block : Block} {schema : Schema}

/-- The document with the default declares the field with it, and all else as without it. -/
theorem parse_row (isIn : place.IsIn margins block)
    (accepted : Schema.parse (margins.fill place.head) = .ok schema)
    (expression : IsExpression value) :
    Schema.parse (margins.fill (place.row value)) =
      .ok (schema.modifyField block.name place.name
        (Field.withDefault (leading ++ trailing) (trim value))) := by
  obtain ⟨single, balanced⟩ := isExpression_iff.mp expression
  exact Schema.parse_modifyField (placed.exchange isIn single) isIn.isModel
    (placed.isField_row margins balanced).2.2 accepted
    (placed.isChange margins schema.names balanced)

end IsPlaced

end DefaultPlace

namespace Schema

/-- A model of the schema has a field of that name and type with that default. -/
def HasDefault (schema : Schema) (model name type value : Text) : Prop :=
  ∃ declared ∈ schema.models, declared.name = model ∧
    ∃ field ∈ declared.fields, field.name = name ∧ field.type = type ∧
      field.default = some value

variable {place : DefaultPlace} {leading trailing : List Attribute} {value : Text}
  {margins : Margins} {block : Block}

/-- The field of the line is declared with the default. -/
theorem hasDefault_of_isExpression (placed : place.IsPlaced leading trailing)
    (isIn : place.IsIn margins block) (expression : IsExpression value) :
    ∃ result, parse (margins.fill (place.row value)) = .ok result ∧
      result.HasDefault block.name place.name place.type (trim value) := by
  obtain ⟨single, balanced⟩ := isExpression_iff.mp expression
  obtain ⟨schema, accepted⟩ := isIn.accepted
  have exchange := placed.exchange isIn single
  obtain ⟨isHead, named⟩ := placed.isField_head margins
  obtain ⟨isField, freshName, inside⟩ := placed.isField_row margins balanced
  obtain ⟨bare, read⟩ := (Model.accepts_iff_of_isField isHead).mp
    (accepts_of_exchange_model exchange isIn.isModel accepted)
  have isChange := placed.isChange margins schema.names balanced
  obtain ⟨result, model, field, documentation, parsed, inResult, sameModel, inModel, own⟩ :=
    exists_field_of_exchange exchange isIn.isModel inside (freshName.trans named.symm) isField
      accepted ⟨_, isChange.changed none bare read⟩
  obtain ⟨declared, before⟩ := Field.exists_read_of_read read documentation
  obtain ⟨kind, -, rfl⟩ := placed.exists_of_read before
  obtain rfl := Except.ok.inj (own.symm.trans (isChange.changed documentation _ before))
  obtain ⟨name, type⟩ := Field.kept_withDefault (leading ++ trailing) (trim value)
    (place.parts.field kind documentation)
  exact ⟨result, parsed, model, inResult, sameModel, _, inModel, name, type, rfl⟩

/-- The default of a field with a named type is an expression. -/
theorem isExpression_of_parse {text : Text} {schema : Schema}
    (accepted : parse text = .ok schema) {model : Model} (inSchema : model ∈ schema.models)
    {field : Field} (inModel : field ∈ model.fields) (isName : Text.IsName field.type) :
    ∀ value ∈ field.default, IsExpression value := by
  intro value given
  have isRead := ((isRead_of_parse accepted).models model inSchema).fields field inModel
  have plain : '"' ∉ field.type := isName.not_mem (by decide)
  exact isExpression_iff.mpr ⟨(isRead.default value given).2,
    isRead.enclosed (LiteralState.run_outside_of_no_quote plain) value given⟩

/-- A default is kept as it is written exactly if it is an expression, wherever it stands
among the attributes of a field whose name is new and whose type is known: the document
declares what it declares with an empty default, but for the trimmed expression.  Nothing but
expressions is read as the default of a field with a named type. -/
theorem keeps_default_iff :
    (∀ {place : DefaultPlace} {leading trailing : List Attribute} {margins : Margins}
        {block : Block}, place.IsPlaced leading trailing → place.IsIn margins block →
      (∃ blank, parse (margins.fill (place.row [])) = .ok blank ∧
        ∀ value, IsExpression value → parse (margins.fill (place.row value)) =
          .ok (blank.modifyField block.name place.name
            fun field => { field with default := some (trim value) })) ∧
      ∀ value, Text.IsLine value →
        ((∃ result, parse (margins.fill (place.row value)) = .ok result ∧
            result.HasDefault block.name place.name place.type (trim value)) ↔
          IsExpression value)) ∧
    ∀ {text : Text} {schema : Schema}, parse text = .ok schema →
      ∀ model ∈ schema.models, ∀ field ∈ model.fields, Text.IsName field.type →
        ∀ value ∈ field.default, IsExpression value := by
  refine ⟨fun {place leading trailing margins block} placed isIn => ⟨?_, fun value single => ?_⟩,
    fun accepted model inSchema field inModel isName =>
      isExpression_of_parse accepted inSchema inModel isName⟩
  · obtain ⟨schema, accepted⟩ := isIn.accepted
    have isBlank : IsExpression [] := by decide
    refine ⟨_, placed.parse_row isIn accepted isBlank, fun value expression => ?_⟩
    rw [placed.parse_row isIn accepted expression,
      modifyField_modifyField fun field => (Field.kept_withDefault _ _ field).1]
    rfl
  · refine ⟨?_, hasDefault_of_isExpression placed isIn⟩
    rintro ⟨result, parsed, model, inResult, _, field, inModel, _, type, given⟩
    have isName : Text.IsName field.type := type ▸ placed.type
    exact (isExpression_trim_iff single).mp
      (isExpression_of_parse parsed inResult inModel isName _ given)

end Schema

/-- The key of a model, and the place between its two attributes. -/
def keyPlace : DefaultPlace where
  name := "id"
  gap := " "
  type := "String"
  isList := false
  isOptional := false
  lead := " @id"
  behind := "@db.Text // key"

/-- The document around the key. -/
def keyMargins : Margins where
  above := "model A \x7b\n"
  indent := "  "
  trail := []
  below := "\n\x7d\n"

/-- The block that holds the key, without attributes. -/
def keyBlock : Block where
  kind := .model
  name := "A"
  line := 1
  documentation := none
  body := [keyMargins.line keyPlace.head]

/-- What the document declares with a default of the key. -/
def keySchema (value : Text) : Schema where
  models :=
    [{ name := "A"
       fields := [{ name := "id", type := "String", isId := true, default := some value }] }]

theorem isPlaced_keyPlace : keyPlace.IsPlaced [⟨"@id", none⟩] [⟨"@db.Text", none⟩] where
  name := by decide
  blank := by decide
  parted := by decide
  type := by decide
  surrounds := by decide +kernel
  taken source member relates := by
    have unrelated : ∀ source ∈ [(⟨"@id", none⟩ : Attribute), ⟨"@db.Text", none⟩],
        source.name ≠ "@relation" := by decide
    exact absurd relates (unrelated source member)
  others := by decide

theorem isIn_keyPlace : keyPlace.IsIn keyMargins keyBlock where
  laid := ⟨by decide, by decide, by decide, by decide⟩
  content := by decide +kernel
  cut := ⟨[keyBlock], by decide +kernel, List.mem_singleton_self _⟩
  isModel := rfl
  member := List.mem_singleton_self _
  accepted := by
    let bare : Field := { name := "id", type := "String" }
    have read : Schema.parse (keyMargins.fill keyPlace.head) =
        .ok { models := [{ name := "A", fields := [bare] }] } := by decide +kernel
    exact ⟨_, read⟩

/-- Brackets, slashes and a quote in a literal belong to the default.  A bracket that was not
opened ends it: what follows is another attribute. -/
theorem Schema.keeps_default_of_key :
    let literal : Text := "f(\"]) // \\\"\", [1])"
    let cut : Text := "a) @map(\"b\""
    parse (keyMargins.fill (keyPlace.row literal)) = .ok (keySchema literal) ∧
      parse (keyMargins.fill (keyPlace.row cut)) = .ok (keySchema "a") ∧
      (¬ ∃ result, parse (keyMargins.fill (keyPlace.row cut)) = .ok result ∧
        result.HasDefault "A" "id" "String" (trim cut)) ∧
      IsExpression "a" := by
  intro literal cut
  obtain ⟨each, found⟩ := keeps_default_iff
  obtain ⟨⟨blank, accepted, keeps⟩, exactly⟩ := each isPlaced_keyPlace isIn_keyPlace
  have empty : parse (keyMargins.fill (keyPlace.row [])) = .ok (keySchema []) := by
    decide +kernel
  obtain rfl := Except.ok.inj (accepted.symm.trans empty)
  have read : parse (keyMargins.fill (keyPlace.row cut)) = .ok (keySchema "a") := by
    decide +kernel
  refine ⟨keeps literal (by decide +kernel), read, fun kept => ?_, ?_⟩
  · have expression := (exactly cut (by decide)).mp kept
    exact absurd expression (by decide +kernel)
  · exact found read _ (List.mem_singleton_self _) _ (List.mem_singleton_self _) (by decide)
      "a" rfl

end SchemaCompose
