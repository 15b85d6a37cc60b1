import SchemaCompose.Proofs.Reading.Exchange
import SchemaCompose.Proofs.Reading.Places

/-!
# Keys of marked lines

A compound key lists fields, each with modifiers between parentheses behind its name, and
may have a name of its own.  The list stands in front or under a key, before or behind the
name.  Whatever brackets, commas, colons and strings the modifiers hold, the key has exactly
the fields of the list (`CompoundKey.compoundKey_of_spells`), and a line that declares it
adds that key and no other to its model (`Schema.keys_of_spells`).
-/

namespace SchemaCompose

/-! ## Modifiers -/

theorem LiteralState.next_ne_escaped
    {state : LiteralState} {c : Char} (settled : state ≠ .escaped) (plain : c ≠ '\\') :
    state.next c ≠ .escaped := by
  cases state with
  | escaped => contradiction
  | inside => by_cases quote : c = '"' <;> simp [next, *]
  | outside => by_cases quote : c = '"' <;> simp [next, *]

namespace Arguments

variable {text current : Text} {state ended : LiteralState} {c : Char}

/-- A reader of arguments takes a character other than a backslash as the scanner does. -/
theorem Reading.take_eq (settled : state ≠ .escaped) (plain : c ≠ '\\')
    (apart : current.head? ≠ some '\\') (depth : Int) :
    Reading.take ⟨current, depth, state = .inside⟩ c =
      { current := c :: current
        depth :=
          if state = .outside ∧ (c = '(' ∨ c = '[') then depth + 1
          else if state = .outside ∧ (c = ')' ∨ c = ']') then depth - 1
          else depth
        inString := state.next c = .inside } := by
  cases state with
  | escaped => contradiction
  | inside => by_cases quote : c = '"' <;> simp [Reading.take, LiteralState.next, *]
  | outside =>
      by_cases quote : c = '"'
      · simp [Reading.take, LiteralState.next, quote]
      · simp only [Reading.take, LiteralState.next, quote]
        split_ifs <;> simp_all

/-- Inside brackets a reader of arguments follows the scanner through a text without
backslashes: no comma separates, and strings end where they end for the scanner. -/
theorem splitFrom_of_nesting {depth final : Nat}
    (plain : '\\' ∉ text) (settled : state ≠ .escaped) (apart : current.head? ≠ some '\\')
    (nested : nesting depth state text = some (final, ended)) (outer : Nat)
    (rest : Text) :
    splitFrom ⟨current, (outer + 1 + depth : Nat), state = .inside⟩ (text ++ rest) =
      splitFrom ⟨text.reverse ++ current, (outer + 1 + final : Nat), ended = .inside⟩
        rest := by
  induction text generalizing depth state current with
  | nil =>
      obtain ⟨rfl, rfl⟩ := Prod.mk.inj (Option.some.inj nested)
      rfl
  | cons c text ih =>
      rw [List.mem_cons, not_or] at plain
      have separates : Reading.separates
          ⟨current, (outer + 1 + depth : Nat), state = .inside⟩ c = false := by
        have deep : ((outer + 1 + depth : Nat) : Int) ≠ 0 := by omega
        simp only [Reading.separates, deep, decide_false, Bool.and_false]
      have behind : (c :: current).head? ≠ some '\\' := by
        simpa using Ne.symm plain.1
      have further := LiteralState.next_ne_escaped settled (Ne.symm plain.1)
      rw [List.cons_append, splitFrom_cons_of_not_separates separates,
        Reading.take_eq settled (Ne.symm plain.1) apart, List.reverse_cons,
        List.append_assoc, List.singleton_append]
      rw [nesting] at nested
      split_ifs at nested ⊢ with opens closes outermost
      · have deeper : ((outer + 1 + depth : Nat) : Int) + 1 =
            (outer + 1 + (depth + 1) : Nat) := by omega
        rw [deeper, ih plain.2 further behind nested]
      · have shallower : ((outer + 1 + depth : Nat) : Int) - 1 =
            (outer + 1 + (depth - 1) : Nat) := by omega
        rw [shallower, ih plain.2 further behind nested]
      · rw [ih plain.2 further behind nested]

/-- Between parentheses a text passes with the commas in it. -/
theorem passes_parenthesised
    (nested : nesting 0 .outside text = some (0, .outside)) (plain : '\\' ∉ text) :
    Passes ('(' :: text ++ [')']) :=
  passes_between (Or.inl rfl) (Or.inl rfl) fun outer _ =>
    splitFrom_of_nesting plain (by simp) (by simp) nested outer

end Arguments

open Arguments

/-- A member of a key: the name of a field, and what modifies it between parentheses. -/
structure KeyItem where
  field : Text
  modifier : Option Text := none
deriving DecidableEq, Repr

namespace KeyItem

/-- The modifier between its parentheses. -/
def suffix (item : KeyItem) : Text :=
  item.modifier.elim [] fun modifier => '(' :: modifier ++ [')']

def write (item : KeyItem) : Text :=
  item.field ++ item.suffix

/-- The name is one, and the modifier holds no backslash, closes its brackets and strings
and holds no comment. -/
structure IsReadable (item : KeyItem) : Prop where
  field : Text.IsName item.field
  balanced : ∀ modifier ∈ item.modifier, Balanced modifier
  plain : ∀ modifier ∈ item.modifier, '\\' ∉ modifier

variable {item : KeyItem}

theorem IsReadable.isArgument (readable : item.IsReadable) : IsArgument item.write := by
  have name := isArgument_of_isName readable.field
  obtain ⟨field, modifier⟩ := item
  cases modifier with
  | none => simpa [write, suffix] using name
  | some modifier =>
      have nested := (readable.balanced modifier rfl).nested
      have trimmed := name.trimmed.around name.filled
        (show Text.IsTrimmed [')'] by decide) (by simp) ('(' :: modifier)
      rw [List.append_assoc] at trimmed
      exact ⟨name.passes.append (passes_parenthesised nested (readable.plain modifier rfl)),
        trimmed, by simp [write, suffix]⟩

theorem IsReadable.balanced_write (readable : item.IsReadable) : Balanced item.write := by
  have name : Balanced item.field := balanced_of_plain (readable.field.apart (by decide))
  obtain ⟨field, modifier⟩ := item
  cases modifier with
  | none => simpa [write, suffix] using name
  | some modifier =>
      exact name.append ((readable.balanced modifier rfl).enclosed (Or.inl rfl) (Or.inl rfl))
        (Or.inr (by simp [suffix]))

/-- The modifier is cut off. -/
theorem IsReadable.trim_cutAt (readable : item.IsReadable) :
    Text.trim (Text.cutAt '(' item.write).1 = item.field := by
  have absent : '(' ∉ item.field := readable.field.not_mem (by decide)
  have trimmed : Text.trim item.field = item.field := readable.field.isTrimmed
  obtain ⟨field, modifier⟩ := item
  cases modifier with
  | none =>
      rw [write, suffix, Option.elim_none, List.append_nil, cutAt_of_not_mem absent, trimmed]
  | some modifier =>
      rw [write, suffix, Option.elim_some, List.cons_append, cutAt_append absent, trimmed]

/-- Of a list of members the names are read. -/
theorem listOf_bracketed {items : List KeyItem} (each : ∀ item ∈ items, item.IsReadable) :
    listOf (bracketed (items.map write)) = .ok (items.map (·.field)) := by
  have arguments : ∀ text ∈ items.map write, IsArgument text := by
    simpa using fun item member => (each item member).isArgument
  have filled : (items.map write).getLast? ≠ some [] := fun last =>
    (arguments [] (List.mem_of_getLast? last)).filled rfl
  rw [listOf_bracketed_of_passes fun text member =>
      ⟨(arguments text member).passes, (arguments text member).trimmed⟩,
    withoutEmptyLast_of_filled filled, List.map_map]
  exact congrArg Except.ok
    (List.map_congr_left fun item member => (each item member).trim_cutAt)

end KeyItem

/-! ## Keys -/

namespace CompoundKey

/-- The arguments list the members in front, or under a key on either side of the name. -/
inductive Spells (items : List KeyItem) (name : Option Text) : List Text → Prop
  | front :
      Spells items name
        (bracketed (items.map (·.write)) :: keyedRow [("name", name.map inQuotes)])
  | underKey {order : List (Text × Option Text)}
      (perm : order.Perm
        [("fields", some (bracketed (items.map (·.write)))), ("name", name.map inQuotes)]) :
      Spells items name (keyedRow order)

variable {items : List KeyItem} {name : Option Text} {arguments : List Text}

theorem Spells.forall_mem {Holds : Text → Prop} (spells : Spells items name arguments)
    (list : Holds (bracketed (items.map (·.write))))
    (listKeyed : Holds (keyed "fields" (bracketed (items.map (·.write)))))
    (named : ∀ text ∈ name, Holds (keyed "name" (inQuotes text))) :
    ∀ argument ∈ arguments, Holds argument := by
  cases spells with
  | front =>
      refine List.forall_mem_cons.mpr ⟨list, forall_mem_keyedRow ?_⟩
      simpa using named
  | underKey perm =>
      refine forall_mem_keyedRow fun setting member => ?_
      rw [perm.mem_iff, List.mem_cons, List.mem_singleton] at member
      rcases member with rfl | rfl
      · simpa using listKeyed
      · simpa using named

theorem Spells.isArgument (spells : Spells items name arguments)
    (each : ∀ item ∈ items, item.IsReadable) (quotable : ∀ text ∈ name, Quotable text) :
    ∀ argument ∈ arguments, IsArgument argument := by
  have list : IsArgument (bracketed (items.map (·.write))) :=
    isArgument_bracketed_of_passes
      (by simpa using fun item member => (each item member).isArgument.passes)
  refine spells.forall_mem list (isArgument_keyed (by decide) list) fun text member => ?_
  exact isArgument_keyed (by decide) (isArgument_inQuotes (quotable text member).isContained)

theorem Spells.balanced (spells : Spells items name arguments)
    (each : ∀ item ∈ items, item.IsReadable) (quotable : ∀ text ∈ name, Quotable text) :
    Balanced (commaRow arguments) := by
  have list : Balanced (bracketed (items.map (·.write))) :=
    balanced_bracketed_of_balanced
      (by simpa using fun item member => (each item member).balanced_write)
  apply balanced_commaRow
  refine spells.forall_mem list (balanced_keyed (by decide) list) fun text member => ?_
  exact balanced_keyed (by decide)
    (balanced_inQuotes (quotable text member).isContained.isDelimited)

theorem Spells.named?_name (spells : Spells items name arguments)
    (quotable : ∀ text ∈ name, Quotable text) :
    Arguments.named? "name" arguments = name := by
  have unquoted := map_unquote_inQuotes quotable
  cases spells with
  | front =>
      have row := named?_append "name" [bracketed (items.map (·.write))]
        (keyedRow [("name", name.map inQuotes)])
      rw [named?_bracketed (by decide), Option.none_or] at row
      refine row.trans (Eq.trans ?_ unquoted)
      exact named?_keyedRow (List.Perm.refl _)
        (show ∀ key ∈ (["name"] : List Text), _ by decide)
        (List.nodup_singleton _) (List.mem_singleton_self _)
  | underKey perm =>
      refine Eq.trans ?_ unquoted
      exact named?_keyedRow perm (show ∀ key ∈ (["fields", "name"] : List Text), _ by decide)
        (show (["fields", "name"] : List Text).Nodup by decide) (by simp)

/-- The key that is declared has the fields of the list and the name. -/
theorem compoundKey_of_spells (spells : Spells items name arguments)
    (each : ∀ item ∈ items, item.IsReadable) (quotable : ∀ text ∈ name, Quotable text)
    (label : Text) :
    (Attribute.call label (commaRow arguments)).compoundKey =
      .ok ⟨items.map (·.field), name⟩ := by
  have splits : (Attribute.call label (commaRow arguments)).split = .ok arguments :=
    split_commaRow (spells.isArgument each quotable)
  have found : ∀ key, (Attribute.call label (commaRow arguments)).named? key =
      .ok (Arguments.named? key arguments) := by
    intro key
    rw [Attribute.named?, splits]
    rfl
  have list := KeyItem.listOf_bracketed each
  rw [Attribute.compoundKey, found, found, spells.named?_name quotable]
  cases spells with
  | front =>
      have noFields : Arguments.named? "fields" (bracketed (items.map (·.write)) ::
          keyedRow [("name", name.map inQuotes)]) = none := by
        have row := named?_append "fields" [bracketed (items.map (·.write))]
          (keyedRow [("name", name.map inQuotes)])
        rw [named?_bracketed (by decide), Option.none_or] at row
        refine row.trans (named?_keyedRow_of_not_mem
          (show ∀ key ∈ (["name"] : List Text), _ by decide)
          (show "fields".toList ∉ (["name"] : List Text) by decide))
      have positional : (Attribute.call label (commaRow (bracketed (items.map (·.write)) ::
          keyedRow [("name", name.map inQuotes)]))).positional =
            .ok (bracketed (items.map (·.write))) := by
        rw [Attribute.positional, splits]
        rfl
      rw [noFields, positional, Reading.ok_bind]
      dsimp only
      rw [Reading.ok_bind, list]
      rfl
  | underKey perm =>
      have fields := named?_keyedRow perm
        (show ∀ key ∈ (["fields", "name"] : List Text), _ by decide)
        (show (["fields", "name"] : List Text).Nodup by decide)
        (List.mem_cons_self)
      rw [fields, Option.map_some, ← unquote_cons_space, unquote_bracketed, Reading.ok_bind]
      dsimp only
      rw [list]
      rfl

/-- The code of a line with the key alone, and its attributes. -/
theorem Spells.scan_eq (spells : Spells items name arguments)
    (each : ∀ item ∈ items, item.IsReadable) (quotable : ∀ text ∈ name, Quotable text)
    {label remark : Text} (isName : Attribute.IsName label) (bare : Text.code remark = []) :
    Text.code ((Attribute.call label (commaRow arguments)).write ++ remark) =
        (Attribute.call label (commaRow arguments)).write ∧
      Attribute.scan (Attribute.call label (commaRow arguments)).write =
        .ok [Attribute.call label (commaRow arguments)] := by
  have balanced := spells.balanced each quotable
  have trimmed : Text.trim (commaRow arguments) = commaRow arguments :=
    isTrimmed_commaRow (spells.isArgument each quotable)
  have surrounds : Attribute.Surrounds [] remark [] [] :=
    ⟨rfl, by rw [Attribute.scan], by rw [bare, Attribute.scan]⟩
  have code := surrounds.code_eq (show _ = [] from rfl) rfl isName balanced
  have scanned := surrounds.scan_eq isName balanced
  rw [bare, List.append_nil] at code scanned
  rw [trimmed] at scanned
  exact ⟨code, scanned⟩

end CompoundKey

/-! ## Lines -/

namespace Schema

open Attribute Reading

/-- A line with a key in the place of a silent one adds the key, with exactly the fields of
the list and the name, to the unique constraints of its model or to its primary keys, of
which the last one counts. -/
theorem keys_of_spells
    {items : List KeyItem} {name : Option Text} {arguments : List Text} {text other : Text}
    {block : Block} {line fresh : Line} {schema : Schema} {label remark : Text}
    (spells : CompoundKey.Spells items name arguments)
    (each : ∀ item ∈ items, item.IsReadable) (quotable : ∀ text ∈ name, Quotable text)
    (exchange : Exchange text other block line fresh) (isModel : block.kind = .model)
    (accepted : parse text = .ok schema) (silent : line.isSilent = true)
    (labelled : label = "@@unique" ∨ label = "@@id") (bare : Text.code remark = [])
    (written : fresh.text = (call label (commaRow arguments)).write ++ remark) :
    let key : CompoundKey := ⟨items.map (·.field), name⟩
    let keys (label : Text) (lines : List Line) := lines.flatMap (Line.keys label)
    ∃ above below front model changed back, block.body = above ++ line :: below ∧
      schema.models = front ++ model :: back ∧ model.name = block.name ∧
      parse other = .ok { schema with models := front ++ changed :: back } ∧
      changed.name = block.name ∧
      model.HasKeys (keys "@@unique" above ++ keys "@@unique" below)
        (keys "@@id" above ++ keys "@@id" below) ∧
      (label = "@@unique" →
        changed.HasKeys (keys "@@unique" above ++ key :: keys "@@unique" below)
          (keys "@@id" above ++ keys "@@id" below)) ∧
      (label = "@@id" →
        changed.HasKeys (keys "@@unique" above ++ keys "@@unique" below)
          (keys "@@id" above ++ key :: keys "@@id" below)) := by
  intro key keys
  have isName : IsName label := by rcases labelled with rfl | rfl <;> decide
  have read := CompoundKey.compoundKey_of_spells spells each quotable label
  obtain ⟨own, scanned⟩ := spells.scan_eq each quotable isName bare
  have code : fresh.code = (call label (commaRow arguments)).write := by
    rw [Line.code, written, own]
  rw [← code] at scanned
  have marked : fresh.isMarked = true := by
    rw [Line.isMarked, code]
    rcases labelled with rfl | rfl <;> rfl
  have notName : label ≠ "@@map" := by rcases labelled with rfl | rfl <;> decide
  have taken : ∀ source ∈ [call label (commaRow arguments)], Model.Takes source :=
    List.forall_mem_singleton.mpr ⟨fun isMap => absurd isMap notName, fun _ => ⟨_, read⟩⟩
  obtain ⟨above, below, front, model, changed, back, body, models, own, parsed, same, before,
    after⟩ := hasKeys_of_exchange exchange isModel accepted silent marked scanned taken
  rw [List.flatMap_singleton, List.flatMap_singleton] at after
  refine ⟨above, below, front, model, changed, back, body, models, own, parsed, same, before,
    ?unique, ?primary⟩
  case unique =>
    rintro rfl
    rw [keys_of_eq _ rfl read, keys_of_ne _ (show "@@unique".toList ≠ "@@id" by decide)]
      at after
    exact after
  case primary =>
    rintro rfl
    rw [keys_of_eq _ rfl read, keys_of_ne _ (show "@@id".toList ≠ "@@unique" by decide)]
      at after
    exact after

/-- The modifier of a field and the name of a key may hold commas, colons and brackets. -/
theorem keys_of_spells_post :
    let other : Text :=
      "model Post \x7b\n  a Int @id\n  b Int\n" ++
        "  @@unique(name: \"k: [1], 2\", fields: [a(ops: raw(\"x,]\"), sort: Desc), b]) // b\n\x7d\n"
    ∃ result, parse other = .ok result ∧ ∃ model ∈ result.models, model.name = "Post" ∧
      { fields := ["a", "b"], name := some "k: [1], 2" } ∈ model.uniqueIndexes := by
  intro other
  let text : Text := "model Post \x7b\n  a Int @id\n  b Int\n\n\x7d\n"
  let items : List KeyItem := [⟨"a", some "ops: raw(\"x,]\"), sort: Desc"⟩, ⟨"b", none⟩]
  let fresh : Line :=
    ⟨4, "@@unique(name: \"k: [1], 2\", fields: [a(ops: raw(\"x,]\"), sort: Desc), b]) // b"⟩
  let a : Field := { name := "a", type := "Int", isId := true }
  let b : Field := { name := "b", type := "Int" }
  let schema : Schema := { models := [{ name := "Post", fields := [a, b] }] }
  let silent : Line := ⟨4, []⟩
  let block : Block := ⟨.model, "Post", 1, none, [⟨2, "a Int @id"⟩, ⟨3, "b Int"⟩, silent]⟩
  have accepted : parse text = .ok schema := by decide +kernel
  have each : ∀ item ∈ items, item.IsReadable := by
    rw [List.forall_mem_cons, List.forall_mem_singleton]
    exact ⟨⟨by decide, by decide, by decide⟩, ⟨by decide, by simp, by simp⟩⟩
  have spells : CompoundKey.Spells items (some "k: [1], 2") _ :=
    .underKey (List.Perm.swap _ _ [])
  have exchange : Exchange text other block silent fresh :=
    ⟨⟨[block], by decide +kernel, by decide⟩, by decide,
      [⟨1, "model Post \x7b"⟩, ⟨2, "a Int @id"⟩, ⟨3, "b Int"⟩], [⟨5, "\x7d"⟩],
      by decide +kernel, by decide +kernel⟩
  obtain ⟨_, _, _, _, changed, _, _, _, _, parsed, name, _, unique, _⟩ :=
    keys_of_spells spells each (by decide) exchange rfl accepted (by decide +kernel)
      (Or.inl rfl) (show Text.code " // b" = [] by decide +kernel) (by decide +kernel)
  refine ⟨_, parsed, changed, by simp, name, ?_⟩
  rw [(unique rfl).uniqueIndexes]
  exact List.mem_append_right _ List.mem_cons_self

end Schema

end SchemaCompose
