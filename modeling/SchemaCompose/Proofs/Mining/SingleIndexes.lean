import SchemaCompose.Proofs.Mining.Kept

/-!
# Indexes of one attribute

An index is recovered from its mark on, up to the last closing bracket of the line, and
it is one attribute exactly if that bracket closes it (`Attribute.isSingleIndex_iff`).
Where an index stands in a row of attributes it is recovered alone exactly if no bracket
is closed behind it on its line, in another attribute or in a comment
(`Schema.isSingleIndex_extraIndexes`).
-/

namespace SchemaCompose

namespace Attribute

variable {text cut lead behind kept inner : Text} {row : List (Text × Attribute)}

/-- Read as a line of a block, the text is one index with arguments: it holds no comment
and no other attribute. -/
def IsSingleIndex (text : Text) : Prop :=
  Text.code text = text ∧ ∃ arguments, scan text = .ok [⟨"@@index", some arguments⟩]

/-- The last bracket of the text closes the index exactly if what stands between the
brackets is balanced. -/
theorem isSingleIndex_iff : IsSingleIndex ("@@index(" ++ kept ++ ")") ↔ Balanced kept := by
  constructor
  · rintro ⟨silent, arguments, scanned⟩
    obtain ⟨rest, starts⟩ : ∃ rest, "@@index(" ++ kept ++ ")" = '@' :: rest := ⟨_, rfl⟩
    rw [starts] at scanned
    obtain ⟨source, others, cut, behind, same, further, whole, spelled⟩ :=
      scan_cons_cases (by decide) scanned
    cases same
    rw [← starts] at whole
    obtain ⟨row, spells, noRow⟩ := exists_spells_of_scan further
    rw [List.map_eq_nil_iff] at noRow
    subst noRow
    -- The text ends with a bracket, so there is no white space behind the index.
    have nothing : behind = [] := by
      by_contra filled
      have last : behind.getLast? = some ')' := by
        rw [← List.getLast?_append_of_ne_nil cut filled, ← whole]
        exact List.getLast?_append_of_ne_nil _ (by decide)
      have blank := isBlank_of_spells_nil spells ')' (List.mem_of_getLast? last)
      contradiction
    rw [nothing, List.append_nil] at whole
    obtain ⟨raw, closing, rfl, nested, _⟩ := spelled.exists_of_index
    obtain ⟨same, _⟩ := List.append_inj' whole rfl
    obtain rfl := List.append_cancel_left same
    have quiet := Text.silent_code ("@@index(" ++ kept ++ ")")
    rw [silent, List.append_assoc] at quiet
    have behindMark := (Text.beforeComment_of_append quiet).2
    exact ⟨nested, (Text.beforeComment_of_append behindMark).1⟩
  · intro balanced
    have written : IsWritten ⟨"@@index", some kept⟩ := by
      refine ⟨show IsName "@@index" by decide, ?_⟩
      rintro inner ⟨⟩
      exact balanced
    exact ⟨code_write written, _, scan_write written⟩

end Attribute

namespace Mining

variable {text lead kept behind index : Text}

/-! ## The place of an index -/

/-- The row is cut from its first index mark on, up to its last closing bracket. -/
structure IsCutAt (row lead kept behind : Text) : Prop where
  whole : row = lead ++ ("@@index(" ++ kept) ++ ')' :: behind
  first : ¬ "@@index(".toList <:+: lead
  last : ')' ∉ behind

theorem isCutAt_of_indexOf? {row : Text} (found : indexOf? row = some index) :
    isComment row = false ∧
      ∃ lead kept behind, IsCutAt row lead kept behind ∧
        index = "@@index(" ++ kept ++ ")" := by
  rw [indexOf?] at found
  split_ifs at found with comment
  obtain ⟨lead, place, rfl, ⟨_, recognised⟩, earlier⟩ := exists_append_of_firstMatch found
  simp only [extraIndex?, Option.bind_eq_bind, Option.bind_eq_some_iff] at recognised
  obtain ⟨inside, opened, inner, through, same⟩ := recognised
  obtain ⟨kept, behind, rfl, last, rfl⟩ := exists_of_throughLastClosing through
  obtain rfl := Option.some.inj same
  refine ⟨by simpa using comment, lead, kept, behind, ⟨?_, ?_, last⟩, ?_⟩
  · rw [Text.eq_append_of_after? opened]
    simp
  · -- A mark in front is recognised, since a bracket is closed behind it.
    rintro ⟨left, right, rfl⟩
    obtain ⟨_, silent⟩ := earlier left ("@@index(" ++ right) (by simp) (by simp)
    rw [extraIndex?, List.append_assoc, Text.after?_append,
      Text.eq_append_of_after? opened] at silent
    have regroup : right ++ ("@@index(" ++ (kept ++ ')' :: behind)) =
        right ++ "@@index(" ++ kept ++ ')' :: behind := by
      simp
    rw [regroup, Option.bind_eq_bind, Option.bind_some, throughLastClosing_append last]
      at silent
    contradiction
  · rw [List.append_assoc]
    rfl

end Mining

/-! ## An index in a row of attributes -/

namespace Line

variable {line : Line} {lead kept behind cut rest : Text}

/-- Behind some attributes, an index stands in the code of the line. -/
structure HasIndex (line : Line) (lead cut rest : Text) : Prop where
  whole : line.code = lead ++ cut ++ rest
  lead : ∃ row, Attribute.Spells lead row
  spelled : ∃ inner, Attribute.IsSpelled cut ⟨"@@index", some inner⟩

/-- An index is cut off behind its own bracket, or behind another one that follows. -/
theorem HasIndex.exists_parts
    (hasIndex : line.HasIndex lead cut rest)
    (cutAt : Mining.IsCutAt line.text lead kept behind) :
    ∃ (raw : Text) (closing : Char), cut = "@@index(" ++ raw ++ [closing] ∧
      nesting 0 .outside raw = some (0, .outside) ∧ (closing = ')' ∨ closing = ']') ∧
      raw ++ closing :: (rest ++ line.comment) = kept ++ ')' :: behind := by
  obtain ⟨inner, spelled⟩ := hasIndex.spelled
  obtain ⟨raw, closing, rfl, nested, closes⟩ := spelled.exists_of_index
  refine ⟨raw, closing, rfl, nested, closes, ?_⟩
  have whole := line.code_append_comment
  rw [hasIndex.whole, cutAt.whole] at whole
  simpa using whole

/-- The index is cut where its arguments end exactly if no bracket is closed behind
it. -/
theorem HasIndex.balanced_iff
    (hasIndex : line.HasIndex lead cut rest)
    (cutAt : Mining.IsCutAt line.text lead kept behind) :
    Balanced kept ↔ cut.getLast? = some ')' ∧ ')' ∉ rest ++ line.comment := by
  obtain ⟨raw, closing, own, nested, closes, same⟩ := hasIndex.exists_parts cutAt
  rw [own, List.getLast?_concat, Option.some.injEq]
  constructor
  · intro balanced
    have found := untilClosing_of_closing nested closes (rest ++ line.comment)
    rw [same, untilClosing_of_closing balanced.nested (Or.inl rfl) behind]
      at found
    obtain ⟨rfl, rfl⟩ : kept = raw ∧ behind = rest ++ line.comment := by simpa using found
    obtain ⟨rfl, _⟩ := List.cons.inj (List.append_cancel_left same)
    exact ⟨rfl, cutAt.last⟩
  · rintro ⟨rfl, last⟩
    obtain rfl := Mining.eq_of_last_closing same last cutAt.last
    obtain ⟨row, spells⟩ := hasIndex.lead
    -- The code of a line holds no comment, and so no part of it does.
    have silent := Text.silent_code line.text
    rw [show Text.code line.text = lead ++ cut ++ rest from hasIndex.whole, own,
      List.append_assoc, List.append_assoc, List.append_assoc] at silent
    have behindLead := (Text.beforeComment_of_append silent).2
    rw [spells.run_eq] at behindLead
    have behindMark := (Text.beforeComment_of_append behindLead).2
    exact ⟨nested, (Text.beforeComment_of_append behindMark).1⟩

/-- Where a bracket is closed behind an index, what stands before that bracket is taken
along. -/
theorem HasIndex.exists_more
    (hasIndex : line.HasIndex lead cut rest)
    (cutAt : Mining.IsCutAt line.text lead kept behind)
    (closed : ')' ∈ rest ++ line.comment) :
    ∃ more, more ≠ [] ∧ more <+: rest ++ line.comment ∧
      "@@index(" ++ kept ++ ")" = cut ++ more := by
  obtain ⟨raw, closing, rfl, _, _, same⟩ := hasIndex.exists_parts cutAt
  obtain ⟨left, right, split, last⟩ := Mining.exists_last_of_mem closed
  rw [split, ← List.cons_append, ← List.append_assoc] at same
  obtain rfl := Mining.eq_of_last_closing same last cutAt.last
  refine ⟨left ++ [')'], by simp, ⟨right, by rw [split]; simp⟩, ?_⟩
  simp

end Line

/-! ## Indexes of a document -/

namespace Mining

theorem exists_cut_of_mem_ofText
    {text : Text} {entry : Text × MinedModel} (member : entry ∈ ofText text) :
    ∃ cut ∈ cuts text, entry.2 = ofLines (linesOf cut) := by
  revert entry
  rw [ofText]
  refine List.foldlRecOn
    (motive := fun mined : Mined => ∀ {entry}, entry ∈ mined →
      ∃ cut ∈ cuts text, entry.2 = ofLines (linesOf cut)) (cuts text) _ (by simp) ?_
  intro mined fromCuts cut inText entry member
  split at member
  · rcases Registry.mem_put member with rfl | before
    · exact ⟨cut, inText, rfl⟩
    · exact fromCuts before
  · exact fromCuts member

end Mining

/-- The indexes of a model are recovered from the rows of a cut. -/
theorem Model.exists_row_of_mem_inject
    {text index : Text} {model : Model}
    (listed : index ∈ (model.inject (Mining.ofText text)).extraIndexes) :
    ∃ cut ∈ Mining.cuts text, ∃ row ∈ Mining.linesOf cut,
      Mining.indexOf? row = some index := by
  have own : index ∈ (((Mining.ofText text).find? model.name).getD {}).extraIndexes :=
    listed
  cases found : (Mining.ofText text).find? model.name with
  | none =>
      rw [found] at own
      contradiction
  | some kept =>
      obtain ⟨cut, inText, same⟩ :=
        Mining.exists_cut_of_mem_ofText (Registry.mem_of_find? found)
      obtain rfl : kept = Mining.ofLines (Mining.linesOf cut) := same
      rw [found, Option.getD_some, Mining.extraIndexes_ofLines, List.mem_flatMap] at own
      obtain ⟨row, inCut, shown⟩ := own
      exact ⟨cut, inText, row, inCut, Option.mem_toList.mp shown⟩

namespace Schema

variable {text index : Text} {schema : Schema} {model : Model}

theorem code_of_closing_of_parse (accepted : parse text = .ok schema) :
    ∀ line ∈ Line.ofText text, line.text.head? = some '}' → line.code = ['}'] := by
  obtain ⟨blocks, declarations, split, declared, _, _⟩ := exists_of_parse accepted
  apply (Block.laid_of_split split).code_of_closing
  · exact fun line member => Line.isTrimmed_of_mem_ofText member
  · intro block member
    obtain ⟨declaration, _, read⟩ := Reading.exists_of_mem_row declared member
    exact Declaration.isEntry_of_mem_body read

/-- An extra index is recovered from a line of the document. -/
theorem exists_line_of_mem_extraIndexes
    (accepted : ofDocument text = .ok schema) (member : model ∈ schema.models)
    (listed : index ∈ model.extraIndexes) :
    ∃ line ∈ Line.ofText text, Mining.indexOf? line.text = some index := by
  obtain ⟨parsed, read, rfl⟩ := Reading.map_eq_ok.mp accepted
  obtain ⟨original, _, rfl⟩ := List.mem_map.mp member
  obtain ⟨cut, inText, row, inCut, shown⟩ := Model.exists_row_of_mem_inject listed
  have closed : ∀ row ∈ (Text.lines text).map Text.trim,
      row.head? = some '}' → Text.code row = ['}'] := by
    rw [← Line.map_text_ofText, List.forall_mem_map]
    exact code_of_closing_of_parse read
  rcases Mining.mem_linesOf_cases closed inText inCut with inRows | silent
  · rw [← Line.map_text_ofText] at inRows
    obtain ⟨line, inLines, rfl⟩ := List.mem_map.mp inRows
    exact ⟨line, inLines, shown⟩
  · rw [Mining.indexOf?_of_isSilent silent] at shown
    contradiction

/-- Every extra index of an accepted document is cut from a line, from the first index
mark up to the last closing bracket, and it is one attribute exactly if what stands
between is balanced.  An index in a row of attributes is recovered alone exactly if no
bracket is closed behind it on its line; otherwise what stands before the last bracket
comes along. -/
theorem isSingleIndex_extraIndexes
    (accepted : ofDocument text = .ok schema) (member : model ∈ schema.models)
    (listed : index ∈ model.extraIndexes) :
    ∃ line ∈ Line.ofText text, Mining.isComment line.text = false ∧
      ∃ lead kept behind, Mining.IsCutAt line.text lead kept behind ∧
        index = "@@index(" ++ kept ++ ")" ∧
        (Attribute.IsSingleIndex index ↔ Balanced kept) ∧
        ∀ cut rest, line.HasIndex lead cut rest →
          (Attribute.IsSingleIndex index ↔
            cut.getLast? = some ')' ∧ ')' ∉ rest ++ line.comment) ∧
          (')' ∈ rest ++ line.comment →
            ∃ more, more ≠ [] ∧ more <+: rest ++ line.comment ∧ index = cut ++ more) := by
  obtain ⟨line, inText, found⟩ := exists_line_of_mem_extraIndexes accepted member listed
  obtain ⟨plain, lead, kept, behind, cutAt, rfl⟩ := Mining.isCutAt_of_indexOf? found
  refine ⟨line, inText, plain, lead, kept, behind, cutAt, rfl,
    Attribute.isSingleIndex_iff, ?_⟩
  intro cut rest hasIndex
  exact ⟨Attribute.isSingleIndex_iff.trans (hasIndex.balanced_iff cutAt),
    hasIndex.exists_more cutAt⟩

/-- A model whose index and table name stand on one line. -/
def mappedText : Text :=
  "model A \x7b\n  id Int @id\n  @@index([id]) @@map(\"t\")\n\x7d\n"

/-- What is read from that model. -/
def mappedModel : Model where
  name := "A"
  fields := [{ name := "id", type := "Int", isId := true }]
  tableName := some "t"
  extraIndexes := ["@@index([id]) @@map(\"t\")"]

/-- The index of the model is not alone, and so its table name is written twice. -/
theorem not_isSingleIndex_of_mapped :
    ofDocument mappedText = .ok { models := [mappedModel] } ∧
      ¬ Attribute.IsSingleIndex "@@index([id]) @@map(\"t\")" ∧
      mappedModel.attributeLines = ["@@index([id]) @@map(\"t\")", "@@map(\"t\")"] := by
  have accepted : ofDocument mappedText = .ok { models := [mappedModel] } := by
    decide +kernel
  refine ⟨accepted, ?_, by decide +kernel⟩
  have only : mappedModel ∈ [mappedModel] := List.mem_singleton_self _
  have listed : "@@index([id]) @@map(\"t\")".toList ∈ mappedModel.extraIndexes :=
    List.mem_singleton_self _
  obtain ⟨_, _, _, _, kept, _, _, same, single, _⟩ :=
    isSingleIndex_extraIndexes accepted only listed
  have parts : "@@index(" ++ "[id]) @@map(\"t\"" ++ ")" = "@@index(" ++ kept ++ ")" := same
  obtain ⟨inner, _⟩ := List.append_inj' parts rfl
  obtain rfl := List.append_cancel_left inner
  rw [single]
  decide +kernel

end Schema

end SchemaCompose
