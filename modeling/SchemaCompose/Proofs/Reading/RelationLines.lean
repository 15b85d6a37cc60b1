import SchemaCompose.Proofs.Reading.Exchange
import SchemaCompose.Proofs.Reading.Places

/-!
# Relations of field lines

A relation attribute names its relation in front or under a key, and what stands under
keys may come in any order.  All of it is read, whatever the name holds, but for a name in
front that holds a colon: such a first argument is taken for one with a key, and the
relation stays without a name (`Schema.relation_of_spelling`).
-/

namespace SchemaCompose

open Arguments

/-- What the arguments of a relation say: the name in front and the settings with keys. -/
structure RelationSpelling where
  first : Option Text := none
  name : Option Text := none
  fields : Option (List Text) := none
  references : Option (List Text) := none
  onDelete : Option Text := none
deriving DecidableEq, Repr

namespace RelationSpelling

/-- The settings with keys. -/
def settings (spelling : RelationSpelling) : List (Text × Option Text) :=
  [("name", spelling.name.map inQuotes), ("fields", spelling.fields.map bracketed),
    ("references", spelling.references.map bracketed), ("onDelete", spelling.onDelete)]

/-- The arguments, with the settings in some order. -/
def arguments (spelling : RelationSpelling) (order : List (Text × Option Text)) :
    List Text :=
  spelling.first.toList.map inQuotes ++ keyedRow order

/-- The relation that is read.  A name in front that holds a colon is not. -/
def relation (spelling : RelationSpelling) : Relation where
  name := (spelling.first.filter fun name => !name.contains ':').or spelling.name
  fields := spelling.fields.getD []
  references := spelling.references.getD []
  onDelete := spelling.onDelete

/-- The names can stand in quotes, and everything else is made of identifiers. -/
structure IsReadable (spelling : RelationSpelling) : Prop where
  first : ∀ name ∈ spelling.first, Quotable name
  name : ∀ name ∈ spelling.name, Quotable name
  fields : ∀ names ∈ spelling.fields, ∀ name ∈ names, Text.IsName name
  references : ∀ names ∈ spelling.references, ∀ name ∈ names, Text.IsName name
  onDelete : ∀ action ∈ spelling.onDelete, Text.IsName action

variable {spelling : RelationSpelling} {order : List (Text × Option Text)}

theorem forall_mem_arguments {Holds : Text → Prop} (perm : order.Perm spelling.settings)
    (first : ∀ name ∈ spelling.first, Holds (inQuotes name))
    (name : ∀ name ∈ spelling.name, Holds (keyed "name" (inQuotes name)))
    (fields : ∀ names ∈ spelling.fields, Holds (keyed "fields" (bracketed names)))
    (references : ∀ names ∈ spelling.references,
      Holds (keyed "references" (bracketed names)))
    (onDelete : ∀ action ∈ spelling.onDelete, Holds (keyed "onDelete" action)) :
    ∀ argument ∈ spelling.arguments order, Holds argument := by
  rw [arguments, List.forall_mem_append]
  constructor
  · simpa using first
  · apply forall_mem_keyedRow
    intro setting member
    rw [perm.mem_iff] at member
    simp only [settings, List.mem_cons, List.not_mem_nil, or_false] at member
    rcases member with rfl | rfl | rfl | rfl
    · simpa using name
    · simpa using fields
    · simpa using references
    · exact onDelete

theorem IsReadable.isArgument (readable : spelling.IsReadable)
    (perm : order.Perm spelling.settings) :
    ∀ argument ∈ spelling.arguments order, IsArgument argument := by
  have list : ∀ names : List Text, (∀ name ∈ names, Text.IsName name) →
      IsArgument (bracketed names) := fun names each =>
    isArgument_bracketed_of_passes fun name member =>
      (isArgument_of_isName (each name member)).passes
  refine forall_mem_arguments perm ?_ ?_ ?_ ?_ ?_
  · intro name member
    exact isArgument_inQuotes (readable.first name member).isContained
  · intro name member
    exact isArgument_keyed (by decide)
      (isArgument_inQuotes (readable.name name member).isContained)
  · intro names member
    exact isArgument_keyed (by decide) (list names (readable.fields names member))
  · intro names member
    exact isArgument_keyed (by decide) (list names (readable.references names member))
  · intro action member
    exact isArgument_keyed (by decide)
      (isArgument_of_isName (readable.onDelete action member))

theorem IsReadable.balanced (readable : spelling.IsReadable)
    (perm : order.Perm spelling.settings) :
    Balanced (commaRow (spelling.arguments order)) := by
  have name : ∀ {name : Text}, Text.IsName name → Balanced name := fun isName =>
    balanced_of_plain (isName.apart (by decide))
  have list : ∀ names : List Text, (∀ name ∈ names, Text.IsName name) →
      Balanced (bracketed names) := fun names each =>
    balanced_bracketed_of_balanced fun item member => name (each item member)
  apply balanced_commaRow
  refine forall_mem_arguments perm ?_ ?_ ?_ ?_ ?_
  · intro name member
    exact balanced_inQuotes (readable.first name member).isContained.isDelimited
  · intro name member
    exact balanced_keyed (by decide)
      (balanced_inQuotes (readable.name name member).isContained.isDelimited)
  · intro names member
    exact balanced_keyed (by decide) (list names (readable.fields names member))
  · intro names member
    exact balanced_keyed (by decide) (list names (readable.references names member))
  · intro action member
    exact balanced_keyed (by decide) (name (readable.onDelete action member))

/-- Each setting is found under its key. -/
theorem named?_arguments (perm : order.Perm spelling.settings) (key : Text)
    (value : Option Text) (member : (key, value) ∈ spelling.settings) :
    named? key (spelling.arguments order) = value.map Text.unquote := by
  have names : ∀ key ∈ spelling.settings.map Prod.fst, Text.IsName key :=
    show ∀ key ∈ (["name", "fields", "references", "onDelete"] : List Text), _ by decide
  have plain : key.head? ≠ some '"' := by
    have isName := names key (List.mem_map.mpr ⟨_, member, rfl⟩)
    simpa using isName.head?_ne (show Text.isWord '"' = false by decide) []
  have first : named? key (spelling.first.toList.map inQuotes) = none := by
    cases spelling.first with
    | none => rfl
    | some name => exact named?_inQuotes plain name
  have distinct : (spelling.settings.map Prod.fst).Nodup :=
    show (["name", "fields", "references", "onDelete"] : List Text).Nodup by decide
  rw [arguments, named?_append, first, Option.none_or,
    named?_keyedRow perm names distinct member]

theorem IsReadable.split_arguments (readable : spelling.IsReadable)
    (perm : order.Perm spelling.settings) (label : Text) :
    (Attribute.call label (commaRow (spelling.arguments order))).split =
      .ok (spelling.arguments order) :=
  split_commaRow (readable.isArgument perm)

/-- A list under a key is read; one that is left out is empty. -/
theorem IsReadable.listNamed_arguments (readable : spelling.IsReadable)
    (perm : order.Perm spelling.settings) (label key : Text) {names : Option (List Text)}
    (member : (key, names.map bracketed) ∈ spelling.settings)
    (each : ∀ row ∈ names, ∀ name ∈ row, Text.IsName name) :
    (Attribute.call label (commaRow (spelling.arguments order))).listNamed key =
      .ok (names.getD []) := by
  rw [Attribute.listNamed, Attribute.named?, readable.split_arguments perm, Except.map,
    named?_arguments perm key _ member]
  cases names with
  | none => rfl
  | some row =>
      rw [Option.map_some, Option.map_some, ← unquote_cons_space, unquote_bracketed]
      exact listOf_bracketed_of_isName (each row rfl)

/-- The arguments are read, whatever their order is. -/
theorem relation_of_arguments (readable : spelling.IsReadable)
    (perm : order.Perm spelling.settings) :
    (Attribute.call "@relation" (commaRow (spelling.arguments order))).relation =
      .ok spelling.relation := by
  have name : Arguments.named? "name" (spelling.arguments order) = spelling.name := by
    rw [named?_arguments perm _ (spelling.name.map inQuotes) (by simp [settings]),
      map_unquote_inQuotes readable.name]
  have onDelete : Arguments.named? "onDelete" (spelling.arguments order) =
      spelling.onDelete := by
    rw [named?_arguments perm _ spelling.onDelete (by simp [settings])]
    cases given : spelling.onDelete with
    | none => rfl
    | some action => exact congrArg some (unquote_of_isName (readable.onDelete action given))
  have fields := readable.listNamed_arguments perm "@relation" "fields"
    (by simp [settings]) readable.fields
  have references := readable.listNamed_arguments perm "@relation" "references"
    (by simp [settings]) readable.references
  rw [Attribute.relation, readable.split_arguments perm, Reading.ok_bind, name, onDelete,
    fields, Reading.ok_bind, references, Reading.ok_bind]
  -- What is left is the name, which only the first argument decides.
  refine congrArg Except.ok ?_
  cases first : spelling.first with
  | none =>
      have keys : ∀ argument ∈ keyedRow order, ':' ∈ argument :=
        forall_mem_keyedRow fun setting _ value _ => by simp [keyed]
      have row : spelling.arguments order = keyedRow order := by simp [arguments, first]
      rw [row, relation, first]
      cases given : keyedRow order with
      | nil => rfl
      | cons argument others =>
          have colon := keys argument (by simp [given])
          simp [colon]
  | some text =>
      have row : spelling.arguments order = inQuotes text :: keyedRow order := by
        simp [arguments, first]
      have holds : (inQuotes text).contains ':' = text.contains ':' := by
        simp [inQuotes]
      have plain := (readable.first text first).isContained.plain
      rw [row, relation, first]
      simp only [holds, unquote_inQuotes plain, Option.filter_some]
      cases text.contains ':' with
      | true => rfl
      | false => rfl

end RelationSpelling

/-! ## Fields -/

section Fields

open Attribute

variable {head lead behind inner name : Text} {parts : FieldLine}
  {leading trailing : List Attribute} {names : DeclaredNames} {documentation : Option Text}

/-- The relation of a field is the one of its last relation attribute. -/
theorem Field.relation_of_foldlM {bare field : Field} {source : Attribute}
    {relation : Relation} (labelled : source.name = "@relation")
    (read : source.relation = .ok relation)
    (last : ∀ other ∈ trailing, other.name ≠ "@relation")
    (folded : (leading ++ source :: trailing).foldlM withAttribute bare = .ok field) :
    field.relation = some relation := by
  rw [List.foldlM_append, Reading.bind_eq_ok] at folded
  obtain ⟨before, _, folded⟩ := folded
  rw [List.foldlM_cons, Reading.bind_eq_ok] at folded
  obtain ⟨next, own, further⟩ := folded
  have related : next.relation = some relation := by
    simp only [withAttribute, labelled, read] at own
    obtain rfl := Except.ok.inj own
    rfl
  refine Reading.foldlM_keeps_of_mem (fun state : Field => state.relation = some relation)
    ?_ related further
  intro state other next member holds stepped
  have unrelated := last other member
  unfold withAttribute at stepped
  split_ifs at stepped
  all_goals
    obtain rfl := Except.ok.inj stepped
    exact holds

/-- A field line is read with an attribute among others. -/
theorem Field.read_of_surrounds {kind : FieldKind}
    (isHead : FieldLine.IsHead head parts) (known : names.kindOf? parts.type = some kind)
    (surrounds : Surrounds lead behind leading trailing)
    (isName : IsName name) (balanced : Balanced inner) (trimmed : Text.IsTrimmed inner) :
    ∃ bare : Field,
      Field.read names documentation
          (head ++ (lead ++ (call name inner).write ++ Text.code behind)) =
        (leading ++ call name inner :: trailing).foldlM withAttribute bare := by
  have scanned := surrounds.scan_eq isName balanced
  rw [show Text.trim inner = inner from trimmed] at scanned
  exact ⟨parts.field kind documentation,
    isHead.read_append known (head_cases_call surrounds.leads isName _ _) scanned documentation⟩

end Fields

namespace Schema

open Attribute

/-- A relation attribute of a field line is read as what its arguments say, in whatever order
they stand and whatever the names in them hold, but for a name in front that holds a
colon. -/
theorem relation_of_spelling
    {spelling : RelationSpelling} {order : List (Text × Option Text)}
    {text other : Text} {block : Block} {line fresh : Line} {schema : Schema}
    {head lead behind : Text} {parts : FieldLine} {kind : FieldKind}
    {leading trailing : List Attribute}
    (readable : spelling.IsReadable) (perm : order.Perm spelling.settings)
    (exchange : Exchange text other block line fresh) (isModel : block.kind = .model)
    (accepted : parse text = .ok schema) (isHead : FieldLine.IsHead head parts)
    (closed : LiteralState.run .outside head = .outside)
    (named : line.fieldName? = some parts.name)
    (known : schema.names.kindOf? parts.type = some kind)
    (surrounds : Surrounds lead behind leading trailing)
    (taken : ∀ source ∈ leading ++ trailing, Field.Takes source)
    (last : ∀ source ∈ trailing, source.name ≠ "@relation")
    (written : fresh.text = head ++
      (lead ++ (call "@relation" (commaRow (spelling.arguments order))).write ++ behind)) :
    ∃ result model field, parse other = .ok result ∧
      model ∈ result.models ∧ model.name = block.name ∧
      field ∈ model.fields ∧ field.name = parts.name ∧
      field.relation = some spelling.relation := by
  have isName : IsName "@relation" := by decide
  have balanced := readable.balanced perm
  have trimmed := isTrimmed_commaRow (readable.isArgument perm)
  have read := RelationSpelling.relation_of_arguments readable perm
  have code : fresh.code = _ :=
    (congrArg Text.code written).trans (surrounds.code_eq isHead.silent closed isName balanced)
  have scanned := surrounds.scan_eq isName balanced
  rw [show Text.trim _ = _ from trimmed] at scanned
  obtain ⟨declares, isField, freshName⟩ :=
    isHead.declares_append (head_cases_call surrounds.leads isName _ _) code
  have inside : fresh.code ≠ ['}'] := by
    intro closes
    rw [closes] at declares
    contradiction
  have accepts : ∃ field, Field.read schema.names none fresh.code = .ok field := by
    refine Field.exists_read_iff.mpr ⟨_, kind, _, declares, known, scanned, ?_⟩
    rw [List.forall_mem_append] at taken
    rw [List.forall_mem_append, List.forall_mem_cons]
    exact ⟨taken.1, fun _ => ⟨_, read⟩, taken.2⟩
  obtain ⟨result, model, field, documentation, parsed, inResult, sameModel, inModel, own⟩ :=
    exists_field_of_exchange exchange isModel inside (freshName.trans named.symm) isField
      accepted accepts
  have sameField := (Field.documentation_of_read own).1
  rw [declares] at sameField
  refine ⟨result, model, field, parsed, inResult, sameModel, inModel,
    (Option.some.inj sameField).symm, ?_⟩
  obtain ⟨bare, folded⟩ := Field.read_of_surrounds isHead known surrounds isName balanced
    trimmed
  rw [code, folded] at own
  exact Field.relation_of_foldlM rfl read last own

/-- Commas, brackets and slashes in a name are no obstacle; the colon in it is. -/
theorem relation_of_spelling_node :
    let other : Text :=
      "model Node \x7b\n  id Int @id\n" ++
        "  up Node? @relation(\"tree: [up, //\", onDelete: Cascade, fields: [id]) // up\n\x7d\n"
    ∃ result model field, parse other = .ok result ∧ model ∈ result.models ∧
      model.name = "Node" ∧ field ∈ model.fields ∧ field.name = "up" ∧
      field.relation = some { fields := ["id"], onDelete := "Cascade" } := by
  intro other
  let text : Text := "model Node \x7b\n  id Int @id\n  up Node?\n\x7d\n"
  let spelling : RelationSpelling :=
    { first := "tree: [up, //", fields := some ["id"], onDelete := "Cascade" }
  let order : List (Text × Option Text) :=
    [("onDelete", "Cascade"), ("fields", bracketed ["id"]), ("name", none),
      ("references", none)]
  let id : Field := { name := "id", type := "Int", isId := true }
  let up : Field := { name := "up", type := "Node", kind := .object, isRequired := false }
  let schema : Schema := { models := [{ name := "Node", fields := [id, up] }] }
  let line : Line := ⟨3, "up Node?"⟩
  let fresh : Line :=
    ⟨3, "up Node? @relation(\"tree: [up, //\", onDelete: Cascade, fields: [id]) // up"⟩
  let block : Block := ⟨.model, "Node", 1, none, [⟨2, "id Int @id"⟩, line]⟩
  have accepted : parse text = .ok schema := by decide +kernel
  have readable : spelling.IsReadable :=
    ⟨by decide, by decide, by decide, by decide, by decide⟩
  have perm : order.Perm spelling.settings := by decide
  have exchange : Exchange text other block line fresh :=
    ⟨⟨[block], by decide +kernel, by decide⟩, by decide,
      [⟨1, "model Node \x7b"⟩, ⟨2, "id Int @id"⟩], [⟨4, "\x7d"⟩],
      by decide +kernel, by decide +kernel⟩
  have isHead : FieldLine.IsHead "up Node?" ⟨"up", "Node", false, true, []⟩ := by
    decide +kernel
  have surrounds : Surrounds [' '] " // up" [] [] := by decide +kernel
  exact relation_of_spelling readable perm exchange rfl accepted isHead
    (by decide +kernel) (by decide +kernel) (show _ = some FieldKind.object by decide +kernel)
    surrounds (by simp) (by simp) (by decide +kernel)

end Schema

end SchemaCompose
