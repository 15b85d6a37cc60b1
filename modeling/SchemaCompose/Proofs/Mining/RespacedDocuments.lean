import SchemaCompose.Proofs.Mining.AlikeRows
import SchemaCompose.Proofs.Mining.Respacing

/-!
# Documents with other white space

White space between the arguments of an attribute changes neither what is read from a document
nor what is recovered from it, at a place that no reader of the line sees
(`Schema.ofDocument_respaced`).
-/

namespace SchemaCompose

open Text

/-- A first word that goes beyond a mark is no name; any other one ends in front of what
follows. -/
theorem Text.IsName.takeWhile_append_iff {name front rest rest' : Text} (isName : IsName name)
    {mark : Char} (member : mark ∈ front) (other : Text.isWord mark = false) :
    (front ++ rest).takeWhile (!isBlank ·) = name ↔
      (front ++ rest').takeWhile (!isBlank ·) = name := by
  by_cases visible : ∀ c ∈ front, (!isBlank c) = true
  · have beyond : ∀ rest : Text, (front ++ rest).takeWhile (!isBlank ·) ≠ name := by
      rintro rest rfl
      rw [List.takeWhile_append_of_pos visible] at isName
      exact isName.not_mem other (List.mem_append_left _ member)
    exact iff_of_false (beyond rest) (beyond rest')
  · have ends : ∀ rest : Text, (front ++ rest).takeWhile (!isBlank ·) =
        front.takeWhile (!isBlank ·) := by
      intro rest
      rw [List.takeWhile_append, if_neg]
      intro whole
      have same := (List.takeWhile_prefix (!isBlank ·)).eq_of_length whole
      exact visible (List.takeWhile_eq_self_iff.mp same)
    rw [ends rest, ends rest']

namespace Attribute.Place

variable {place : Place} {kind : BlockKind} {gap fresh : Text}
  {leading trailing : List Attribute}

/-! ## The line as it is searched -/

/-- The line in front of the place. -/
def front (place : Place) : Text :=
  place.head ++ (place.lead ++ (place.name ++ '(' :: place.left))

/-- The line behind the place. -/
def back (place : Place) : Text :=
  place.right ++ ')' :: place.behind

theorem row_eq (place : Place) (gap : Text) :
    place.row gap = place.front ++ (gap ++ place.back) := by
  simp [row, attributes, arguments, front, back, write]

theorem front_ne_nil (place : Place) : place.front ≠ [] := by
  simp [front]

theorem back_ne_nil (place : Place) : place.back ≠ [] := by
  simp [back]

theorem head?_row (place : Place) (gap : Text) : (place.row gap).head? = place.front.head? := by
  rw [row_eq, List.head?_append_of_ne_nil _ place.front_ne_nil]

theorem sign_mem_front {place : Place} (labelled : place.name ∈ spacedNames) :
    '@' ∈ place.front := by
  have each : ∀ name ∈ spacedNames, '@' ∈ name := by decide
  simp [front, each place.name labelled]

/-- Other white space leaves a line what it is. -/
theorem isContent_respaced (isContent : IsContent (place.row gap)) (space : IsSpace fresh) :
    IsContent (place.row fresh) := by
  rw [row_eq] at isContent ⊢
  exact isContent.between place.front_ne_nil place.back_ne_nil space.single

section Placed

variable (placed : place.IsPlaced kind gap leading trailing)

include placed

theorem IsPlaced.isAround : Mining.IsAround place.front place.back := by
  obtain ⟨silent, closed⟩ := placed.start.silent
  have isName := isName_of_labelled placed.labelled
  refine ⟨place.front_ne_nil, ?_, ?_, ?_⟩
  · rcases placed.beside with opener | closer
    · left
      have last : place.front.getLast? = ('(' :: place.left).getLast? := by
        simp only [front, ← List.append_assoc]
        exact List.getLast?_append_of_ne_nil _ (List.cons_ne_nil _ _)
      rw [last, List.getLast?_cons]
      rintro c ⟨⟩
      cases end_ : place.left.getLast? with
      | none => simp
      | some d => exact opener d end_
    · right
      intro c first
      rw [back, List.head?_append] at first
      cases start : place.right.head? with
      | none =>
          rw [start] at first
          obtain rfl : ')' = c := Option.some.inj first
          simp
      | some d =>
          rw [start] at first
          obtain rfl : d = c := Option.some.inj first
          exact closer d start
  · have code := Text.silent_code (place.row gap)
    have parted : Text.code (place.row gap) =
        place.front ++ (gap ++ place.right ++ ')' :: Text.code place.behind) := by
      rw [placed.code_row]
      simp [front, attributesCode, arguments, write]
    rw [parted] at code
    exact (Text.beforeComment_of_append code).1
  · rw [front, LiteralState.run_append, closed, LiteralState.run_append,
      placed.surrounds.run_eq, LiteralState.run_append,
      LiteralState.run_outside_of_no_quote (isName.not_mem (by decide))]
    exact placed.outside

theorem IsPlaced.not_isComment : Mining.isComment (place.row gap) = false := by
  by_contra comment
  rw [Bool.not_eq_false] at comment
  obtain ⟨rest, found⟩ := Option.isSome_iff_exists.mp comment
  have code := placed.code_row
  rw [eq_append_of_after? found, show Text.code ("//" ++ rest) = [] from rfl] at code
  simp [attributesCode, write] at code

/-- Nothing that is recovered from the line tells the white space. -/
theorem IsPlaced.isAlike (unseen : Mining.IsUnseen place.front place.back) (blank : IsGap gap)
    (blank' : IsGap fresh) : Mining.IsAlike (place.row gap) (place.row fresh) := by
  have around := placed.isAround
  have comment := placed.not_isComment
  have comment' := (placed.respaced blank blank').not_isComment
  have stub : ∀ row : Text, Mining.isComment row = false →
      Mining.isStubComment row = false := by
    intro row comment
    rw [Mining.isComment, startsWith, Option.isSome_eq_false_iff, Option.isNone_iff_eq_none]
      at comment
    rw [Mining.isStubComment, Mining.isDirective, comment]
  refine ⟨comment.trans comment'.symm, (stub _ comment).trans (stub _ comment').symm, ?_, ?_, ?_⟩
  · rw [row_eq, row_eq]
    exact unseen.extraIndex_eq around blank blank'
  · rw [row_eq, row_eq]
    exact unseen.extrasOf_eq around blank blank'
  · rw [row_eq, row_eq]
    exact fun name isName => isName.takeWhile_append_iff
      (sign_mem_front placed.labelled) (by decide)

/-- A line that is none of a model looks like no header of one. -/
theorem IsPlaced.unheaded :
    kind = .model ∨ Mining.modelName? (place.row gap) = none := by
  cases placed.start with
  | field _ isModel _ => exact Or.inl isModel
  | block bare _ marked =>
      right
      have first : (place.row gap).head? = some '@' := by
        obtain ⟨behind, found⟩ := Option.isSome_iff_exists.mp marked
        have parted : place.front = place.lead ++ place.name ++ '(' :: place.left := by
          simp [front, bare]
        rw [head?_row, parted, eq_append_of_after? found]
        rfl
      rw [Mining.modelName?, after?_of_head? (c := 'm') rfl (by rw [first]; decide)]
      rfl
  | value isName _ apart =>
      right
      by_contra shown
      obtain ⟨found, header⟩ := Option.ne_none_iff_exists'.mp shown
      obtain ⟨behind, _, _, same, blank, _⟩ := Mining.exists_of_modelName? header
      have ends : ∀ c ∈ (place.attributes gap).head?, isWord c = false := by
        intro c first
        rcases head_cases_call placed.surrounds.leads (isName_of_labelled placed.labelled)
          (place.arguments gap) place.behind c first with blank | rfl
        · exact not_isWord_of_isBlank blank
        · decide
      have keyword : ∀ c ∈ "model".toList, isWord c = true := by decide
      have ends' : ∀ c ∈ behind.head?, isWord c = false := by
        intro c first
        rw [first] at blank
        exact not_isWord_of_isBlank blank
      have own := (takeWhile_append_of_head isName.isWord ends).1
      rw [← row, same, (takeWhile_append_of_head keyword ends').1] at own
      exact apart own.symm

end Placed

/-! ## Documents -/

/-- The place is on a line of a block of the document. -/
structure IsIn (place : Place) (gap : Text) (margins : Margins) (block : Block) : Prop where
  laid : margins.IsLaid
  content : IsContent (place.row gap)
  cut : ∃ blocks, Block.split (Line.ofText (margins.fill (place.row gap))) = .ok blocks ∧
    block ∈ blocks
  member : margins.line (place.row gap) ∈ block.body

/-- No reader of the line sees the white space at the place. -/
structure IsUnread (place : Place) (gap : Text) : Prop where
  /-- No string is open there for the reader of arguments. -/
  outside : Arguments.IsOutside place.left
  /-- The reader of the attribute does not look there. -/
  idle : ∀ arguments, Arguments.split (place.arguments gap) = .ok arguments →
    IsIdle place.name
      (Arguments.complete place.left = [] ∧ ReadsFirst place.name arguments)
      (Arguments.begun place.left) (Arguments.ended place.left place.right)
  /-- The recognisers do not look there. -/
  unseen : Mining.IsUnseen place.front place.back

/-- The document with other white space at the place has another line there. -/
theorem IsIn.exchange {margins : Margins} {block : Block} (isIn : place.IsIn gap margins block)
    (space : IsSpace fresh) :
    Exchange (margins.fill (place.row gap)) (margins.fill (place.row fresh)) block
      (margins.line (place.row gap)) (margins.line (place.row fresh)) := by
  obtain ⟨lower, lines⟩ := Margins.exists_lines isIn.laid
  exact ⟨isIn.cut, isIn.member, _, lower, lines _ isIn.content,
    lines _ (isContent_respaced isIn.content space)⟩

end Attribute.Place

open Attribute.Place

/-- Spacing of arguments is insignificant where no reader looks at it: with other white space
directly before or behind a colon or a comma, or just inside of a bracket, a document declares
the same, and the same is recovered from it. -/
theorem Schema.ofDocument_respaced {place : Attribute.Place} {gap fresh : Text}
    {margins : Margins} {block : Block} {leading trailing : List Attribute} {schema : Schema}
    (isIn : place.IsIn gap margins block)
    (placed : place.IsPlaced block.kind gap leading trailing) (unread : place.IsUnread gap)
    (space : IsSpace gap) (space' : IsSpace fresh)
    (accepted : ofDocument (margins.fill (place.row gap)) = .ok schema) :
    ofDocument (margins.fill (place.row fresh)) = .ok schema := by
  obtain ⟨parsed, read, _⟩ := Reading.map_eq_ok.mp accepted
  obtain ⟨blocks, split, member⟩ := isIn.cut
  have opened : (place.row gap).head? ≠ some '}' :=
    (isEntry_of_parse read split member _ isIn.member).opened
  have opened' : (place.row fresh).head? ≠ some '}' := by
    rwa [head?_row, ← place.head?_row gap]
  have alike := placed.isAlike unread.unseen space.blank space'.blank
  apply ofDocument_of_agree _ _ accepted
  · apply Mining.agree_ofText_fill isIn.laid isIn.content
      (isContent_respaced isIn.content space') opened opened' alike
    intro above last cut
    rcases placed.unheaded with isModel | none
    · exact Or.inr (Mining.isHeaded_of_parse isIn.laid isIn.content read split member isModel
        isIn.member cut)
    · rcases (placed.respaced space.blank space'.blank).unheaded with isModel | none'
      · exact Or.inr (Mining.isHeaded_of_parse isIn.laid isIn.content read split member isModel
          isIn.member cut)
      · exact Or.inl (none.trans none'.symm)
  · intro parsed read
    refine parse_respaced ⟨placed, space.blank, space'.blank, ?_, rfl, rfl⟩
      (isIn.exchange space') read
    exact Attribute.saysSame_respaced unread.outside unread.idle space.blank space'.blank

/-- The relation of a model to itself, and the place behind the bracket of its fields. -/
def parentPlace : Attribute.Place where
  head := "up A?"
  lead := " "
  name := "@relation"
  left := "fields: ["
  right := "id], references: [id], onUpdate: Cascade"
  behind := " // up"

/-- The document around the relation. -/
def parentMargins : Margins where
  above := "model A \x7b\n  id Int @id\n"
  indent := "  "
  trail := []
  below := "\n\x7d\n"

/-- The block that holds the relation, without white space at the place. -/
def parentBlock : Block where
  kind := .model
  name := "A"
  line := 1
  documentation := none
  body := [⟨2, "id Int @id"⟩, parentMargins.line (parentPlace.row [])]

/-- What the document declares. -/
def parentSchema : Schema where
  models :=
    [{ name := "A"
       fields :=
        [{ name := "id", type := "Int", isId := true },
         { name := "up", type := "A", kind := .object, isRequired := false
           relation := some { fields := ["id"], references := ["id"] }
           extras := { onUpdate := "Cascade" } }] }]

theorem isIn_parentPlace : parentPlace.IsIn [] parentMargins parentBlock where
  laid := ⟨by decide, by decide, by decide, by decide⟩
  content := by decide +kernel
  cut := ⟨[parentBlock], by decide +kernel, List.mem_singleton_self _⟩
  member := by decide +kernel

theorem isPlaced_parentPlace : parentPlace.IsPlaced .model [] [] [] where
  start := .field
    (show FieldLine.IsHead "up A?" ⟨"up", "A", false, true, []⟩ by decide +kernel) rfl
    (by decide +kernel)
  labelled := by decide
  surrounds := by decide +kernel
  balanced := by decide +kernel
  outside := by decide +kernel
  beside := by decide +kernel

theorem isUnread_parentPlace : parentPlace.IsUnread [] where
  outside := by decide +kernel
  idle := by
    intro arguments splits
    have parted : Arguments.split (parentPlace.arguments []) =
        .ok ["fields: [id]", "references: [id]", "onUpdate: Cascade"] := by decide +kernel
    obtain rfl := Except.ok.inj (splits.symm.trans parted)
    have begun : Arguments.begun parentPlace.left = "fields" ++ ':' :: " [" := by decide +kernel
    have ended : Arguments.ended parentPlace.left parentPlace.right = "id]" := by
      decide +kernel
    rw [begun, ended]
    refine .list rfl (by decide) (by decide) ?_ ?_
    · rintro ⟨_, stored | ⟨isKey, _⟩ | ⟨_, plain⟩⟩
      · exact absurd stored (by decide)
      · exact absurd isKey (by decide)
      · exact absurd (plain "fields: [id]" rfl) (by decide)
    · exact .listed (show " [".toList = " ".toList ++ '[' :: [] from rfl)
        (show "id]".toList = "id".toList ++ ']' :: [] from rfl) (by decide) (by decide)
        (by decide +kernel)
  unseen := Mining.isUnseen_of_plain (by decide +kernel) (by decide +kernel)
    (by decide +kernel) (by decide +kernel)

/-- White space behind the bracket of a list of fields. -/
theorem Schema.ofDocument_respaced_parent :
    ofDocument (parentMargins.fill (parentPlace.row [])) = .ok parentSchema ∧
      ofDocument (parentMargins.fill (parentPlace.row "  ")) = .ok parentSchema := by
  have accepted : ofDocument (parentMargins.fill (parentPlace.row [])) = .ok parentSchema := by
    decide +kernel
  exact ⟨accepted, ofDocument_respaced isIn_parentPlace isPlaced_parentPlace
    isUnread_parentPlace (by decide) (by decide) accepted⟩

/-- In front of the colon of a stored name white space is read, as a part of the name. -/
example :
    (Schema.ofDocument "model A \x7b\n  id Int @id\n  @@map(name : \"t\")\n\x7d\n").map
        (·.models.map (·.tableName)) = .ok [some "name : \"t\"".toList] := by
  decide +kernel

end SchemaCompose
