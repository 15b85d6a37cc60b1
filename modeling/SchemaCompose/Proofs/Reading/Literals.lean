import SchemaCompose.Proofs.Reading.Exchange
import SchemaCompose.Proofs.Reading.Places

/-!
# String literals in attributes

A string literal ends at the first double quote that no backslash takes along.  Comments
and the ends of attributes are found by this rule.  An argument list is split by another
one: there a literal ends at the first double quote that has no backslash right before it.
So a literal that ends in a backslash before its quote is scanned as any other, and is
refused wherever it is read as an argument (`Schema.accepts_literal_iff`).
-/

namespace SchemaCompose

/-- What may stand between the quotes of a literal: characters other than quotes and
backslashes, and backslashes with the character behind each. -/
inductive IsLiteralBody : Text → Prop
  | nil : IsLiteralBody []
  | plain {c : Char} {rest : Text} (notQuote : c ≠ '"') (notBackslash : c ≠ '\\')
      (further : IsLiteralBody rest) : IsLiteralBody (c :: rest)
  | escape (c : Char) {rest : Text} (further : IsLiteralBody rest) :
      IsLiteralBody ('\\' :: c :: rest)

namespace IsLiteralBody

variable {body : Text}

/-! ## Where a literal ends for the scanner -/

theorem nesting_inside (isLiteral : IsLiteralBody body) (depth : Nat) :
    nesting depth .inside body = some (depth, .inside) := by
  induction isLiteral with
  | nil => rfl
  | plain notQuote notBackslash _ ih =>
      simp [nesting, LiteralState.next, notQuote, notBackslash, ih]
  | escape c _ ih => simp [nesting, LiteralState.next, ih]

theorem beforeComment_inside (isLiteral : IsLiteralBody body) (rest : Text) :
    Text.beforeComment .inside (body ++ rest) =
      body ++ Text.beforeComment .inside rest := by
  induction isLiteral with
  | nil => rfl
  | plain notQuote notBackslash _ ih =>
      simp [Text.beforeComment, LiteralState.next, notQuote, notBackslash, ih]
  | escape c _ ih => simp [Text.beforeComment, LiteralState.next, ih]

/-- For the scanner a literal ends where it should, and no comment begins in it. -/
theorem balanced_inQuotes (isLiteral : IsLiteralBody body) : Balanced (inQuotes body) := by
  constructor
  · have opened : nesting 0 .outside (inQuotes body) = nesting 0 .inside (body ++ ['"']) := by
      simp [inQuotes, nesting, LiteralState.next]
    rw [opened, nesting_append, isLiteral.nesting_inside]
    rfl
  · have opened : Text.beforeComment .outside (inQuotes body) =
        '"' :: Text.beforeComment .inside (body ++ ['"']) := by
      simp [inQuotes, Text.beforeComment, LiteralState.next]
    rw [opened, isLiteral.beforeComment_inside]
    rfl

/-! ## Where it ends in an argument list -/

open Arguments in
theorem splitFrom_inside (isLiteral : IsLiteralBody body) (depth : Int)
    (current rest : Text) :
    splitFrom ⟨current, depth, true⟩ (body ++ rest) =
      splitFrom ⟨body.reverse ++ current, depth, true⟩ rest := by
  induction isLiteral generalizing current with
  | nil => rfl
  | @plain c body notQuote _ _ ih =>
      rw [List.cons_append,
        splitFrom_cons_of_not_separates (by simp [Reading.separates])]
      have taken : Reading.take ⟨current, depth, true⟩ c = ⟨c :: current, depth, true⟩ := by
        simp [Reading.take, notQuote]
      rw [taken, ih, List.reverse_cons, List.append_assoc]
      rfl
  | @escape c body _ ih =>
      rw [List.cons_append, List.cons_append,
        splitFrom_cons_of_not_separates (by simp [Reading.separates])]
      have slash : Reading.take ⟨current, depth, true⟩ '\\' =
          ⟨'\\' :: current, depth, true⟩ := by
        simp [Reading.take]
      have taken : Reading.take ⟨'\\' :: current, depth, true⟩ c =
          ⟨c :: '\\' :: current, depth, true⟩ := by
        simp [Reading.take]
      rw [slash, splitFrom_cons_of_not_separates (by simp [Reading.separates]), taken, ih]
      simp

/-- As an argument a literal is read whole, unless a backslash stands before its closing
quote: then it does not end. -/
theorem split_inQuotes (isLiteral : IsLiteralBody body) :
    Arguments.split (inQuotes body) =
      if body.getLast? = some '\\' then .error .unbalancedArguments
      else .ok [inQuotes body] := by
  have opened : Arguments.splitFrom {} (inQuotes body) =
      Arguments.splitFrom ⟨body.reverse ++ ['"'], 0, true⟩ ['"'] := by
    rw [← isLiteral.splitFrom_inside]
    rfl
  have last : (body.reverse ++ ['"']).head? = some '\\' ↔ body.getLast? = some '\\' := by
    rw [List.head?_append, List.head?_reverse]
    cases body.getLast? with
    | none => simp
    | some c => simp
  have trimmed : Text.trim ('"' :: (body ++ ['"'])) = '"' :: (body ++ ['"']) :=
    Arguments.isTrimmed_inQuotes body
  rw [Arguments.split, opened,
    Arguments.splitFrom_cons_of_not_separates (by simp [Arguments.Reading.separates])]
  simp only [Arguments.Reading.take, Arguments.splitFrom, last]
  by_cases ends : body.getLast? = some '\\'
  · simp [ends]
  · simp [ends, inQuotes, trimmed]

/-! ## Where it is read -/

open Attribute

theorem split_call (isLiteral : IsLiteralBody body) (label : Text) :
    (call label (inQuotes body)).split =
      if body.getLast? = some '\\' then .error .unbalancedArguments
      else .ok [inQuotes body] :=
  isLiteral.split_inQuotes

theorem exists_positional_iff (isLiteral : IsLiteralBody body) (label : Text) :
    (∃ value, (call label (inQuotes body)).positional = .ok value) ↔
      body.getLast? ≠ some '\\' := by
  rw [positional, isLiteral.split_call]
  by_cases ends : body.getLast? = some '\\'
  · simp [ends, bind, Except.bind]
  · simp only [ends, if_false]
    exact ⟨fun _ => ends, fun _ => ⟨inQuotes body, rfl⟩⟩

theorem exists_relation_iff (isLiteral : IsLiteralBody body) :
    (∃ relation, (call "@relation" (inQuotes body)).relation = .ok relation) ↔
      body.getLast? ≠ some '\\' := by
  rw [relation, isLiteral.split_call]
  by_cases ends : body.getLast? = some '\\'
  · simp [ends, bind, Except.bind]
  · have splits : (call "@relation" (inQuotes body)).split = .ok [inQuotes body] := by
      rw [isLiteral.split_call, if_neg ends]
    have absent : ∀ key : Text, key.head? ≠ some '"' →
        (call "@relation" (inQuotes body)).listNamed key = .ok [] := by
      intro key plain
      have nothing : (call "@relation" (inQuotes body)).named? key = .ok none := by
        rw [named?, splits]
        exact congrArg Except.ok (Arguments.named?_inQuotes plain body)
      rw [listNamed, nothing]
      rfl
    rw [if_neg ends, Reading.ok_bind, absent "fields" (by decide), Reading.ok_bind,
      absent "references" (by decide), Reading.ok_bind]
    exact ⟨fun _ => ends, fun _ => ⟨_, rfl⟩⟩

end IsLiteralBody

/-! ## The default of a field and its relation -/

section Fields

open Attribute

variable {body text behind name : Text} {sources : List Attribute}

theorem Attribute.exists_untilClosing_of_scan
    (isName : IsName name) (scanned : scan (name ++ '(' :: text) = .ok sources) :
    ∃ inner rest, untilClosing 0 .outside text = some (inner, rest) := by
  have named : name? (name ++ '(' :: text) = some (name, '(' :: text) :=
    isName.name?_append (by rintro c ⟨⟩; decide)
  obtain ⟨others, rfl⟩ := isName.exists_cons
  rw [List.cons_append] at named scanned
  rw [scan, if_neg (by decide)] at scanned
  split at scanned
  · contradiction
  · rename_i found inside here
    rw [named] at here
    obtain ⟨rfl, rfl⟩ : '@' :: others = found ∧ text = inside := by simpa using here
    split at scanned
    · contradiction
    · rename_i inner rest closed
      exact ⟨inner, rest, closed⟩
  · rename_i found rest bracket here
    rw [named] at here
    obtain ⟨rfl, rfl⟩ : '@' :: others = found ∧ '(' :: text = rest := by simpa using here
    exact absurd rfl (bracket _)

/-- Arguments that are scanned to their end hold the literal that they start with. -/
theorem IsLiteralBody.exists_append_of_scan
    (isLiteral : IsLiteralBody body) (isName : IsName name)
    (scanned : scan (name ++ '(' :: text) = .ok sources)
    (part : text <+: inQuotes body ++ ')' :: behind) :
    ∃ rest, text = inQuotes body ++ ')' :: rest := by
  obtain ⟨inner, rest, closed⟩ := exists_untilClosing_of_scan isName scanned
  obtain ⟨nested, closing, closes, rfl⟩ := exists_of_untilClosing closed
  obtain ⟨more, whole⟩ := part
  rw [List.append_assoc, List.cons_append] at whole
  -- The whole arguments end at one bracket only.
  have here := untilClosing_of_closing nested closes (rest ++ more)
  have there := untilClosing_of_closing isLiteral.balanced_inQuotes.nested (Or.inl rfl) behind
  rw [whole, there] at here
  obtain ⟨rfl, rfl⟩ := Prod.mk.inj (Option.some.inj here)
  obtain ⟨rfl, _⟩ := List.cons.inj (List.append_cancel_left whole)
  exact ⟨rest, rfl⟩

/-- A field line with a literal as its default is read with the literal as the name of its
relation exactly if the literal does not end in a backslash. -/
theorem Field.exists_read_relation_iff
    {head lead inner : Text} {parts : FieldLine} {leading : List Attribute}
    {names : DeclaredNames} (isLiteral : IsLiteralBody body)
    (isHead : FieldLine.IsHead head parts) (leads : scan lead = .ok leading)
    (part : inner <+: inQuotes body ++ ')' :: behind)
    (read : ∃ field, Field.read names none (head ++ (lead ++ ("@default" ++ '(' :: inner))) =
      .ok field) :
    (∃ field, Field.read names none (head ++ (lead ++ ("@relation" ++ '(' :: inner))) =
      .ok field) ↔ body.getLast? ≠ some '\\' := by
  have isDefault : IsName "@default" := by decide
  have isRelation : IsName "@relation" := by decide
  have declares := isHead.ofText?_append
    (head_cases_of_scan leads (isDefault.head_cases_append ('(' :: inner)))
  have declaresFresh := isHead.ofText?_append
    (head_cases_of_scan leads (isRelation.head_cases_append ('(' :: inner)))
  rw [Field.exists_read_iff] at read
  obtain ⟨_, kind, sources, own, known, scanned, taken⟩ := read
  obtain rfl := Option.some.inj (declares.symm.trans own)
  dsimp only at known scanned
  obtain ⟨others, behindLead, _⟩ := Reading.map_eq_ok.mp
    ((scan_append_of_scan leads (isDefault.head_cases_append _)).symm.trans scanned)
  obtain ⟨rest, rfl⟩ := isLiteral.exists_append_of_scan isDefault behindLead part
  -- The same attributes stand in both lines, but for the one.
  have attributes : ∀ name, IsName name →
      scan (lead ++ (name ++ '(' :: (inQuotes body ++ ')' :: rest))) =
        (scan rest).map (leading ++ call name (inQuotes body) :: ·) := by
    intro name isName
    have own := scan_call_append leads isName isLiteral.balanced_inQuotes.nested rest
    rw [Arguments.isTrimmed_inQuotes] at own
    rw [← own]
    simp [write]
  rw [attributes _ isDefault, Reading.map_eq_ok] at scanned
  obtain ⟨trailing, behindOwn, rfl⟩ := scanned
  have scannedFresh := attributes _ isRelation
  rw [behindOwn] at scannedFresh
  rw [Field.exists_read_iff, ← isLiteral.exists_relation_iff]
  constructor
  · rintro ⟨_, _, sources, own, _, scanned, taken⟩
    obtain rfl := Option.some.inj (declaresFresh.symm.trans own)
    obtain rfl := Except.ok.inj (scannedFresh.symm.trans scanned)
    exact taken (call "@relation" (inQuotes body)) (by simp) rfl
  · intro readable
    refine ⟨_, kind, _, declaresFresh, known, scannedFresh, ?_⟩
    intro source member
    rcases List.mem_append.mp member with before | behind
    · exact taken source (List.mem_append_left _ before)
    · rcases List.mem_cons.mp behind with rfl | after
      · exact fun _ => readable
      · exact taken source (List.mem_append_right _ (List.mem_cons_of_mem _ after))

end Fields

namespace Schema

open Attribute

variable {text other : Text} {block : Block} {line fresh : Line} {schema : Schema}
  {body head lead behind : Text} {parts : FieldLine} {leading : List Attribute}

/-- A literal that is accepted as the default of a field is accepted as the name of its
relation exactly if it does not end in a backslash. -/
theorem exists_parse_relation_iff
    (isLiteral : IsLiteralBody body) (exchange : Exchange text other block line fresh)
    (isModel : block.kind = .model) (accepted : parse text = .ok schema)
    (isHead : FieldLine.IsHead head parts) (leads : scan lead = .ok leading)
    (silent : Text.beforeComment .outside (head ++ lead) = head ++ lead)
    (defaulted : line.text =
      head ++ lead ++ (call "@default" (inQuotes body)).write ++ behind)
    (related : fresh.text =
      head ++ lead ++ (call "@relation" (inQuotes body)).write ++ behind) :
    (∃ result, parse other = .ok result) ↔ body.getLast? ≠ some '\\' := by
  -- Both lines have the same code behind the names of the attributes.
  obtain ⟨inner, part, code⟩ := exists_code_call silent (inQuotes body) behind
  have isDefault : IsName "@default" := by decide
  have isRelation : IsName "@relation" := by decide
  have lineCode : line.code = head ++ (lead ++ ("@default" ++ '(' :: inner)) := by
    rw [Line.code, defaulted, code _ isDefault, List.append_assoc]
  have freshCode : fresh.code = head ++ (lead ++ ("@relation" ++ '(' :: inner)) := by
    rw [Line.code, related, code _ isRelation, List.append_assoc]
  obtain ⟨_, isField, named⟩ := isHead.declares_append
    (head_cases_of_scan leads (isDefault.head_cases_append _)) lineCode
  obtain ⟨declares, isFieldFresh, namedFresh⟩ := isHead.declares_append
    (head_cases_of_scan leads (isRelation.head_cases_append _)) freshCode
  have inside := Line.not_closing_of_ofText? declares
  have sameName : ∀ name ∈ fresh.fieldName?, line.fieldName? = some name := by
    intro name given
    rw [named, ← namedFresh]
    exact given
  have readable := accepts_of_exchange_model exchange isModel accepted
  rw [Model.accepts_iff_of_isField isField, lineCode] at readable
  rw [exists_parse_exchange_model_iff exchange isModel inside sameName accepted,
    Model.accepts_iff_of_isField isFieldFresh, freshCode]
  exact Field.exists_read_relation_iff isLiteral isHead leads part readable

end Schema

/-! ## Stored names -/

/-- The place for the stored name of a model, of an enum or of a value of an enum. -/
inductive NameSlot
  | model
  | enum
  | value
  deriving DecidableEq, Repr

namespace NameSlot

open Attribute

/-- The name of the attribute. -/
def label : NameSlot → Text
  | model | enum => "@@map"
  | value => "@map"

/-- The kind of the blocks that have the place. -/
def kind : NameSlot → BlockKind
  | model => .model
  | enum | value => .enum

/-- The attribute is readable where the name may stand. -/
def Takes : NameSlot → Attribute → Prop
  | model => Model.Takes
  | enum => SchemaEnum.Takes "@@map"
  | value => SchemaEnum.Takes "@map"

/-- The attributes of the line begin behind `front`. -/
def IsBehind (front : Text) (line : Line) : NameSlot → Prop
  | model | enum => front = [] ∧ line.isMarked = true
  | value => Text.IsName front

theorem isName_label (slot : NameSlot) : IsName slot.label := by
  cases slot <;> decide

theorem takes_call_iff (slot : NameSlot) (arguments : Text) :
    slot.Takes (call slot.label arguments) ↔
      ∃ value, (call slot.label arguments).positional = .ok value := by
  cases slot with
  | model =>
      have noKey : ¬ (label model = "@@id" ∨ label model = "@@unique") := by decide
      exact (Model.takes_iff _).trans
        ⟨fun taken => taken.1 rfl, fun read => ⟨fun _ => read, fun key => absurd key noKey⟩⟩
  | enum => exact ⟨fun taken => taken rfl, fun read _ => read⟩
  | value => exact ⟨fun taken => taken rfl, fun read _ => read⟩

variable {slot : NameSlot} {text other front attributes : Text} {block : Block}
  {line fresh : Line} {schema : Schema} {sources : List Attribute}

theorem IsBehind.code_eq (isBehind : slot.IsBehind front fresh) :
    Text.beforeComment .outside front = front ∧
      LiteralState.run .outside front = .outside := by
  cases slot with
  | model => obtain ⟨rfl, _⟩ := isBehind; exact ⟨rfl, rfl⟩
  | enum => obtain ⟨rfl, _⟩ := isBehind; exact ⟨rfl, rfl⟩
  | value =>
      have isName : Text.IsName front := isBehind
      exact ⟨Text.beforeComment_of_no_slash (isName.not_mem (by decide)),
        LiteralState.run_outside_of_no_quote (isName.not_mem (by decide))⟩

/-- A line with attributes where a name may stand is accepted in the place of another
exactly if each of the attributes is readable there. -/
theorem exists_parse_iff
    (exchange : Exchange text other block line fresh) (inKind : block.kind = slot.kind)
    (accepted : Schema.parse text = .ok schema) (isBehind : slot.IsBehind front fresh)
    (code : fresh.code = front ++ attributes)
    (ends : ∀ c ∈ attributes.head?, Text.isBlank c = true ∨ c = '@')
    (scanned : scan attributes = .ok sources) :
    (∃ result, Schema.parse other = .ok result) ↔ ∀ source ∈ sources, slot.Takes source := by
  cases slot with
  | model =>
      obtain ⟨rfl, marked⟩ := isBehind
      have unnamed : ∀ name ∈ fresh.fieldName?, line.fieldName? = some name := by
        simp [Line.fieldName?, Line.isField_of_isMarked marked]
      rw [Schema.exists_parse_exchange_model_iff exchange inKind
        (Line.not_closing_of_isMarked marked) unnamed accepted]
      exact Model.accepts_iff_of_isMarked marked (by rwa [code])
  | enum =>
      obtain ⟨rfl, marked⟩ := isBehind
      rw [Schema.exists_parse_exchange_enum_iff exchange inKind
        (Line.not_closing_of_isMarked marked) accepted]
      exact SchemaEnum.accepts_iff_of_isMarked marked (by rwa [code])
  | value =>
      have isName : Text.IsName front := isBehind
      have atEnd : Text.atWordEnd attributes = true := by
        refine Text.atWordEnd_iff.mpr fun c first => ?_
        rcases ends c first with blank | rfl
        · exact Text.not_isWord_of_isBlank blank
        · decide
      have unmarked : fresh.isMarked = false := by
        rw [Line.isMarked, code]
        exact Text.startsWith_of_head? rfl (isName.head?_ne (by decide) attributes)
      have unclosed : fresh.code ≠ ['}'] := by
        intro closes
        rw [code] at closes
        exact isName.head?_ne (show Text.isWord '}' = false by decide) attributes
          (by rw [closes]; rfl)
      have identifier : Text.identifier? fresh.code = some (front, attributes) := by
        rw [code, isName.identifier?_append atEnd]
      rw [Schema.exists_parse_exchange_enum_iff exchange inKind unclosed accepted]
      exact SchemaEnum.accepts_iff_of_identifier? unmarked identifier scanned

/-- A literal is accepted as a stored name exactly if it does not end in a backslash. -/
theorem exists_parse_literal_iff
    {body lead behind : Text} {leading trailing : List Attribute}
    (isLiteral : IsLiteralBody body) (exchange : Exchange text other block line fresh)
    (inKind : block.kind = slot.kind) (accepted : Schema.parse text = .ok schema)
    (isBehind : slot.IsBehind front fresh)
    (surrounds : Surrounds lead behind leading trailing)
    (taken : ∀ source ∈ leading ++ trailing, slot.Takes source)
    (named : fresh.text =
      front ++ (lead ++ (call slot.label (inQuotes body)).write ++ behind)) :
    (∃ result, Schema.parse other = .ok result) ↔ body.getLast? ≠ some '\\' := by
  obtain ⟨silent, closed⟩ := isBehind.code_eq
  have code := surrounds.code_eq silent closed slot.isName_label isLiteral.balanced_inQuotes
  have scanned := surrounds.scan_eq slot.isName_label isLiteral.balanced_inQuotes
  rw [Arguments.isTrimmed_inQuotes] at scanned
  have ends := head_cases_call surrounds.leads slot.isName_label (inQuotes body)
    (Text.code behind)
  rw [exists_parse_iff exchange inKind accepted isBehind (by rw [Line.code, named, code])
    ends scanned, ← isLiteral.exists_positional_iff slot.label, ← slot.takes_call_iff,
    List.forall_mem_append, List.forall_mem_cons]
  rw [List.forall_mem_append] at taken
  exact ⟨fun each => each.2.1, fun own => ⟨taken.1, own, taken.2⟩⟩

end NameSlot

namespace Schema

open Attribute

/-- The scanner ends every literal where it should, and an argument list ends those that do
not end in a backslash.  So a literal that is accepted as a default is accepted as the name
of a relation in the same place, and any literal is accepted as a stored name, exactly if
it does not end in a backslash. -/
theorem accepts_literal_iff {body : Text} (isLiteral : IsLiteralBody body) :
    (∀ rest, untilClosing 0 .outside (inQuotes body ++ ')' :: rest) =
      some (inQuotes body, rest)) ∧
    Arguments.split (inQuotes body) =
      (if body.getLast? = some '\\' then .error .unbalancedArguments
        else .ok [inQuotes body]) ∧
    (∀ {text other : Text} {block : Block} {line fresh : Line} {schema : Schema}
        {head lead behind : Text} {parts : FieldLine} {leading : List Attribute},
      Exchange text other block line fresh → block.kind = .model →
      parse text = .ok schema → FieldLine.IsHead head parts → scan lead = .ok leading →
      Text.beforeComment .outside (head ++ lead) = head ++ lead →
      line.text = head ++ lead ++ (call "@default" (inQuotes body)).write ++ behind →
      fresh.text = head ++ lead ++ (call "@relation" (inQuotes body)).write ++ behind →
      ((∃ result, parse other = .ok result) ↔ body.getLast? ≠ some '\\')) ∧
    ∀ {text other : Text} {block : Block} {line fresh : Line} {schema : Schema}
        {slot : NameSlot} {front lead behind : Text} {leading trailing : List Attribute},
      Exchange text other block line fresh → block.kind = slot.kind →
      parse text = .ok schema → slot.IsBehind front fresh →
      Surrounds lead behind leading trailing →
      (∀ source ∈ leading ++ trailing, slot.Takes source) →
      fresh.text = front ++ (lead ++ (call slot.label (inQuotes body)).write ++ behind) →
      ((∃ result, parse other = .ok result) ↔ body.getLast? ≠ some '\\') := by
  refine ⟨?scanned, isLiteral.split_inQuotes, ?relation, ?name⟩
  case scanned =>
    exact untilClosing_of_closing isLiteral.balanced_inQuotes.nested (Or.inl rfl)
  case relation =>
    intro _ _ _ _ _ _ _ _ _ _ _ exchange isModel accepted isHead leads silent
    exact exists_parse_relation_iff isLiteral exchange isModel accepted isHead leads silent
  case name =>
    intro _ _ _ _ _ _ _ _ _ _ _ _ exchange inKind accepted isBehind surrounds
    exact NameSlot.exists_parse_literal_iff isLiteral exchange inKind accepted isBehind
      surrounds

/-- Two backslashes are a literal that a field takes for its default, and neither as the
name of its relation nor does the model take it as its stored name. -/
theorem accepts_literal_iff_of_backslashes :
    let text : Text :=
      "model A \x7b\n  id String @default(\"\\\\\")\n  @@map(\"t\")\n\x7d\n"
    let related : Text :=
      "model A \x7b\n  id String @relation(\"\\\\\")\n  @@map(\"t\")\n\x7d\n"
    let named : Text :=
      "model A \x7b\n  id String @default(\"\\\\\")\n  @@map(\"\\\\\")\n\x7d\n"
    (∃ schema, parse text = .ok schema) ∧ (¬ ∃ result, parse related = .ok result) ∧
      ¬ ∃ result, parse named = .ok result := by
  intro text related named
  let id : Field := { name := "id", type := "String", default := some "\"\\\\\"" }
  let schema : Schema := { models := [{ name := "A", fields := [id], tableName := "t" }] }
  have accepted : parse text = .ok schema := by decide +kernel
  have isLiteral : IsLiteralBody "\\\\" := .escape '\\' .nil
  have isHead : FieldLine.IsHead "id String" ⟨"id", "String", false, false, []⟩ := by
    decide +kernel
  have own := accepts_literal_iff isLiteral
  let default : Line := ⟨2, "id String @default(\"\\\\\")"⟩
  let stored : Line := ⟨3, "@@map(\"t\")"⟩
  let block : Block := ⟨.model, "A", 1, none, [default, stored]⟩
  have cut : ∃ blocks, Block.split (Line.ofText text) = .ok blocks ∧ block ∈ blocks :=
    ⟨[block], by decide +kernel, by decide⟩
  refine ⟨⟨schema, accepted⟩, fun read => ?_, fun read => ?_⟩
  · have exchange : Exchange text related block default
        ⟨2, "id String @relation(\"\\\\\")"⟩ :=
      ⟨cut, by decide, [⟨1, "model A \x7b"⟩], [stored, ⟨4, "\x7d"⟩],
        by decide +kernel, by decide +kernel⟩
    have leads : scan [' '] = .ok [] := by decide +kernel
    have taken := own.2.2.1 exchange rfl accepted isHead leads
      (by decide +kernel) (show default.text = _ ++ _ ++ _ ++ [] by decide +kernel)
      (by decide +kernel)
    exact taken.mp read (by decide)
  · have exchange : Exchange text named block stored ⟨3, "@@map(\"\\\\\")"⟩ :=
      ⟨cut, by decide, [⟨1, "model A \x7b"⟩, default], [⟨4, "\x7d"⟩],
        by decide +kernel, by decide +kernel⟩
    have surrounds : Surrounds [] [] [] [] := by decide +kernel
    have taken := own.2.2.2 exchange (show block.kind = NameSlot.model.kind from rfl)
      accepted ⟨rfl, by decide +kernel⟩ surrounds (by simp) (by decide +kernel)
    exact taken.mp read (by decide)

end Schema

end SchemaCompose
