import SchemaCompose.Proofs.Mining.Insertion
import SchemaCompose.Proofs.Mining.Shapes
import SchemaCompose.Proofs.Reading.Margins

/-!
# Rows that leave the same

Where one line of a document holds another content, the cuts take it in at the same place
(`Mining.exists_cuts_fill`).  If nothing that is recovered under a name tells the contents
apart, and neither is taken for a header where the other one is not, the models carry the same
(`Mining.agrees_ofText_fill`).
-/

namespace SchemaCompose

open Text

/-- The same is kept for the model and for every field that has a name. -/
structure MinedModel.Agrees (mined other : MinedModel) : Prop where
  extraIndexes : mined.extraIndexes = other.extraIndexes
  isStub : mined.isStub = other.isStub
  fields : ∀ name, IsName name → mined.fields.find? name = other.fields.find? name

theorem MinedModel.Agrees.refl (mined : MinedModel) : mined.Agrees mined :=
  ⟨rfl, rfl, fun _ _ => rfl⟩

namespace Mining

variable {row row' : Text} {left right : List Text}

/-! ## One row -/

/-- Nothing that is recovered under a name tells the rows apart. -/
structure IsAlike (row row' : Text) : Prop where
  comment : isComment row = isComment row'
  stub : isStubComment row = isStubComment row'
  index : firstMatch (fun _ => extraIndex?) none row =
    firstMatch (fun _ => extraIndex?) none row'
  extras : extrasOf row = extrasOf row'
  key : ∀ name, IsName name →
    (row.takeWhile (!isBlank ·) = name ↔ row'.takeWhile (!isBlank ·) = name)

theorem IsAlike.refl (row : Text) : IsAlike row row :=
  ⟨rfl, rfl, rfl, rfl, fun _ _ => Iff.rfl⟩

end Mining

open Mining

/-- Of alike rows, models that agree keep the same. -/
theorem MinedModel.Agrees.keepLine {mined other : MinedModel} {row row' : Text}
    (agrees : mined.Agrees other) (alike : IsAlike row row') :
    (keepLine mined row).Agrees (keepLine other row') := by
  rw [Mining.keepLine, Mining.keepLine, ← alike.comment, ← alike.index, ← alike.extras,
    ← alike.stub]
  split_ifs with comment
  · exact ⟨agrees.extraIndexes, by rw [agrees.isStub], agrees.fields⟩
  · cases firstMatch (fun _ => extraIndex?) none row with
    | some index =>
        exact ⟨congrArg (· ++ [index]) agrees.extraIndexes, agrees.isStub, agrees.fields⟩
    | none =>
        dsimp only
        split_ifs
        · exact agrees
        · refine ⟨agrees.extraIndexes, agrees.isStub, fun name isName => ?_⟩
          by_cases own : row.takeWhile (!isBlank ·) = name
          · rw [own, (alike.key name isName).mp own, Registry.find?_put_self,
              Registry.find?_put_self]
          · have own' := (alike.key name isName).not.mp own
            rw [Registry.find?_put_of_ne (Ne.symm own),
              Registry.find?_put_of_ne (Ne.symm own')]
            exact agrees.fields name isName

namespace Mining

variable {row row' : Text} {left right : List Text}

theorem agrees_ofLines {rows others : List Text} (alike : List.Forall₂ IsAlike rows others) :
    (ofLines rows).Agrees (ofLines others) := by
  have run : ∀ mined other : MinedModel, mined.Agrees other →
      (rows.foldl keepLine mined).Agrees (others.foldl keepLine other) := by
    induction alike with
    | nil => exact fun _ _ agrees => agrees
    | cons here _ ih => exact fun _ _ agrees => ih _ _ (agrees.keepLine here)
  exact run {} {} (.refl {})

/-- One row is exchanged for a row that is alike. -/
theorem forall₂_isAlike (alike : IsAlike row row') (left right : List Text) :
    List.Forall₂ IsAlike (left ++ row :: right) (left ++ row' :: right) := by
  have same : ∀ rows : List Text, List.Forall₂ IsAlike rows rows :=
    fun rows => List.forall₂_same.mpr fun row _ => .refl row
  exact List.rel_append (same left) (.cons alike (same right))

/-! ## One document -/

/-- The same is kept under every name. -/
def Agree (mined other : Mined) : Prop :=
  ∀ name, Option.Rel MinedModel.Agrees (mined.find? name) (other.find? name)

theorem Agree.refl (mined : Mined) : Agree mined mined := by
  intro name
  cases mined.find? name with
  | none => exact .none
  | some own => exact .some (.refl own)

theorem find?_record (mined : Mined) (rows : List Text) (name : Text) :
    (record mined rows).find? name =
      if headerName? rows = some name then some (ofLines rows) else mined.find? name := by
  split_ifs with own
  · rw [record, own]
    exact Registry.find?_put_self name _ _
  · exact find?_record_of_other own mined

theorem Agree.record {mined other : Mined} (agree : Agree mined other)
    {rows others : List Text} (header : headerName? rows = headerName? others)
    (alike : List.Forall₂ IsAlike rows others) :
    Agree (record mined rows) (record other others) := by
  intro name
  rw [find?_record, find?_record, header]
  split_ifs
  · exact .some (agrees_ofLines alike)
  · exact agree name

/-- Among the rows of a document one is exchanged for a row that is alike. -/
theorem agree_foldl_record {upper lower : List (List Text)}
    (header : headerName? (left ++ row :: right) = headerName? (left ++ row' :: right))
    (alike : IsAlike row row') :
    Agree ((upper ++ (left ++ row :: right) :: lower).foldl record [])
      ((upper ++ (left ++ row' :: right) :: lower).foldl record []) := by
  have run : ∀ mined other : Mined, Agree mined other →
      Agree (lower.foldl record mined) (lower.foldl record other) := by
    induction lower with
    | nil => exact fun _ _ agree => agree
    | cons rows lower ih =>
        exact fun _ _ agree => ih _ _
          (agree.record rfl (List.forall₂_same.mpr fun row _ => .refl row))
  rw [List.foldl_append, List.foldl_append]
  exact run _ _ (Agree.record (.refl _) header (forall₂_isAlike alike left right))

/-- A row that is no header, or that stands behind one, does not show in the name of its
cut. -/
theorem headerName?_exchange (comment : isComment row = isComment row')
    (headed : modelName? row = modelName? row' ∨ (headerName? left).isSome = true) :
    headerName? (left ++ row :: right) = headerName? (left ++ row' :: right) := by
  rw [headerName?_append, headerName?_append]
  rcases headed with same | above
  · rw [headerName?_cons, headerName?_cons, comment, same]
  · obtain ⟨name, found⟩ := Option.isSome_iff_exists.mp above
    rw [found]
    rfl

/-! ## Cuts around a line -/

theorem exists_cuts_of_getLast? {above : Text}
    (ends : ∀ c ∈ above.getLast?, isLineEnd c = true) :
    ∃ upper last, cuts above = upper ++ [last] ∧ ∀ c ∈ last.getLast?, isLineEnd c = true := by
  rcases above.eq_nil_or_concat with rfl | ⟨init, c, rfl⟩
  · exact ⟨[], [], rfl, by simp⟩
  · rw [List.concat_eq_append] at ends ⊢
    have own : isLineEnd c = true := ends c List.getLast?_concat
    have open_ : [c].head? ≠ some '}' := by
      rintro ⟨⟩
      exact absurd own (by decide)
    have alone : cuts [c] = [[c]] := cuts_eq_singleton fun inside =>
      absurd inside.length_le (by simp)
    rcases List.eq_nil_or_concat (cuts init) with none | ⟨upper, last, whole⟩
    · exact absurd none (cuts_ne_nil init)
    · rw [List.concat_eq_append] at whole
      refine ⟨upper, last ++ [c], cuts_append_of_opened open_ whole alone, ?_⟩
      rw [List.getLast?_concat]
      rintro d ⟨⟩
      exact own

theorem exists_cuts_of_head? {below : Text} (ends : ∀ c ∈ below.head?, isLineEnd c = true) :
    ∃ first lower, cuts below = first :: lower ∧ ∀ c ∈ first.head?, isLineEnd c = true := by
  cases below with
  | nil => exact ⟨[], [], rfl, by simp⟩
  | cons c rest =>
      by_cases closes : c = '\n' ∧ rest.head? = some '}'
      · obtain ⟨rfl, brace⟩ := closes
        obtain ⟨further, rfl⟩ := List.head?_eq_some_iff.mp brace
        exact ⟨[], cuts further, by rw [cuts], by simp⟩
      · obtain ⟨cut, others, own⟩ := List.exists_cons_of_ne_nil (cuts_ne_nil rest)
        exact ⟨c :: cut, others, cuts_cons (not_and_or.mp closes) own, ends⟩

/-- The cuts of a document around the one line whose content may change. -/
theorem exists_cuts_fill {margins : Margins} (laid : margins.IsLaid) :
    ∃ above last upper right lower, cuts margins.above = above ++ [last] ∧
      ∀ content, IsContent content → content.head? ≠ some '}' →
        (cuts (margins.fill content)).map linesOf =
          upper ++ (linesOf last ++ content :: right) :: lower := by
  obtain ⟨above, last, cutAbove, ends⟩ := exists_cuts_of_getLast? laid.above
  obtain ⟨first, below, cutBelow, starts⟩ := exists_cuts_of_head? laid.below
  obtain ⟨others, whole⟩ := exists_lines_append starts
  refine ⟨above, last, above.map linesOf, (others.map trim).filter (!·.isEmpty),
    below.map linesOf, cutAbove, fun content isContent opened => ?_⟩
  have single := Margins.isLine_row laid isContent
  have filled : margins.row content ≠ [] := Margins.row_ne_nil isContent
  have open_ : (margins.row content ++ margins.below).head? ≠ some '}' := by
    rw [List.head?_append_of_ne_nil _ filled, Margins.row, List.append_assoc]
    cases indent : margins.indent with
    | nil => rwa [List.nil_append, List.head?_append_of_ne_nil _ isContent.filled]
    | cons c indent =>
        rintro ⟨⟩
        exact laid.indent.blank.not_mem (c := '}') (by decide) (by simp [indent])
  have apart : (margins.row content ++ first).head? ≠ some '\n' := by
    rw [List.head?_append_of_ne_nil _ filled]
    intro feed
    have inside := single '\n' (List.mem_of_head? feed)
    contradiction
  have own : linesOf (last ++ (margins.row content ++ first)) = linesOf last ++
      content :: (others.map trim).filter (!·.isEmpty) := by
    rw [linesOf, lines_append_of_ends ends apart, whole _ single filled, List.map_append,
      List.filter_append, List.map_cons, Margins.trim_row laid isContent,
      List.filter_cons_of_pos (by simpa using isContent.filled)]
    rfl
  rw [Margins.fill, cuts_append_of_opened open_ cutAbove (cuts_line single cutBelow),
    List.map_append, List.map_cons, own]

/-! ## Headers above a row -/

theorem suffix_of_not_mem {α : Type} {item : α} {rows lead rest : List α}
    (ends : rows <:+ lead ++ item :: rest) (absent : item ∉ rows) : rows <:+ rest := by
  rcases List.suffix_or_suffix_of_suffix ends (List.suffix_append lead _) with short | long
  · rcases List.suffix_cons_iff.mp short with rfl | inside
    · exact absurd List.mem_cons_self absent
    · exact inside
  · exact absurd (long.subset List.mem_cons_self) absent

/-- A brace in front of a text stands in its first line. -/
theorem exists_lines_brace (text : Text) :
    ∃ first, lines ('}' :: text) = ('}' :: first) :: (lines text).tail := by
  rw [lines_cons_of_not_end (by decide)]
  cases lines text with
  | nil => exact ⟨[], rfl⟩
  | cons first others => exact ⟨first, rfl⟩

/-- The last rows of a text, of which none starts with a closing brace, are the last ones of
its last cut. -/
theorem suffix_linesOf_last {text last : Text} {above rows : List Text}
    (whole : cuts text = above ++ [last]) (ends : rows <:+ (lines text).map trim)
    (opened : ∀ row ∈ rows, row.head? ≠ some '}') :
    rows.filter (!·.isEmpty) <:+ linesOf last := by
  induction length : text.length using Nat.strong_induction_on generalizing text above with
  | _ n ih =>
      by_cases token : ['\n', '}'] <:+: text
      · obtain ⟨left, right, rfl⟩ := token
        have split : left ++ ['\n', '}'] ++ right = left ++ '\n' :: '}' :: right := by simp
        rw [split] at whole ends length
        rcases List.eq_nil_or_concat (cuts right) with none | ⟨others, own, further⟩
        · exact absurd none (cuts_ne_nil right)
        · rw [List.concat_eq_append] at further
          rw [cuts_append, further, ← List.append_assoc] at whole
          obtain rfl : own = last := List.append_inj_right' whole rfl |> List.singleton_inj.mp
          have below : rows <:+ (lines right).tail.map trim := by
            obtain ⟨first, brace⟩ := exists_lines_brace right
            rw [lines_append_break, brace, List.map_append, List.map_cons,
              trim_cons_of_not_blank (by decide)] at ends
            exact suffix_of_not_mem ends fun member => opened _ member rfl
          have further' := below.trans ((List.tail_suffix (lines right)).map trim)
          exact ih right.length (by simp at length; omega) further further' rfl
      · rw [cuts_eq_singleton token] at whole
        obtain rfl : text = last := by
          rcases List.append_eq_singleton_iff.mp whole.symm with ⟨_, same⟩ | ⟨_, none⟩
          · exact (List.singleton_inj.mp same).symm
          · contradiction
        exact ends.filter _

/-- Behind a header that no closing brace follows, the last cut has a header. -/
theorem headerName?_linesOf_last {text header last : Text} {above upper rows : List Text}
    (whole : cuts text = above ++ [last])
    (split : (lines text).map trim = upper ++ header :: rows)
    (opened : ∀ row ∈ header :: rows, row.head? ≠ some '}')
    (code : isComment header = false) (named : (modelName? header).isSome = true) :
    (headerName? (linesOf last)).isSome = true := by
  have inside := suffix_linesOf_last whole ⟨upper, split.symm⟩ opened
  have filled : header.isEmpty = false := by
    cases header with
    | nil => contradiction
    | cons c header => rfl
  have member : header ∈ linesOf last :=
    inside.subset (List.mem_filter.mpr ⟨List.mem_cons_self, by simp [filled]⟩)
  rw [headerName?, List.findSome?_isSome_iff]
  exact ⟨header, List.mem_filter.mpr ⟨member, by simp [code]⟩, named⟩

theorem isSome_nameBeforeBrace {name : Text} (filled : name ≠ []) (more : Text) :
    (nameBeforeBrace (name ++ '\x7b' :: more)).isSome = true := by
  obtain ⟨left, right, whole, last⟩ :=
    exists_last_of_mem (show '\x7b' ∈ name ++ '\x7b' :: more by simp)
  have inside : left ≠ [] := by
    rintro rfl
    obtain ⟨c, others, rfl⟩ := List.exists_cons_of_ne_nil filled
    obtain ⟨rfl, rfl⟩ := List.cons.inj whole
    exact last (by simp)
  obtain ⟨init, c, rfl⟩ := left.eq_nil_or_concat.resolve_left inside
  have stops : (right.reverse ++ '\x7b' :: c :: init.reverse).dropWhile (· ≠ '\x7b') =
      '\x7b' :: c :: init.reverse := by
    rw [List.dropWhile_append_of_pos]
    · rfl
    · intro d member
      simpa using fun same : d = '\x7b' => last (same ▸ List.mem_reverse.mp member)
  have reversed : (name ++ '\x7b' :: more).reverse =
      right.reverse ++ '\x7b' :: c :: init.reverse := by
    rw [whole]
    simp
  rw [nameBeforeBrace, reversed, stops]
  rfl

/-- Where a brace stands behind a word, a header is shown, whatever name is read there. -/
theorem isSome_modelName?_of_brace {gap name between : Text} (filledGap : gap ≠ [])
    (blank : IsGap gap) (isName : IsName name) (blankBehind : IsGap between) (rest : Text) :
    (modelName? ("model" ++ (gap ++ (name ++ (between ++ '\x7b' :: rest))))).isSome = true := by
  have visible : ∀ c ∈ name, (!isBlank c) = true := by
    intro c member
    rw [not_isBlank_of_isWord (isName.isWord c member)]
    rfl
  have first : (gap ++ (name ++ (between ++ '\x7b' :: rest))).head?.any isBlank = true := by
    obtain ⟨c, others, rfl⟩ := List.exists_cons_of_ne_nil filledGap
    exact blank c List.mem_cons_self
  have start : trimStart (gap ++ (name ++ (between ++ '\x7b' :: rest))) =
      name ++ (between ++ '\x7b' :: rest) := by
    rw [trimStart_append_of_blank blank]
    apply trimStart_of_head
    intro c head
    exact not_isBlank_of_isWord (isName.head?_append _ c head)
  rw [modelName?, after?_append]
  simp only [Option.bind_eq_bind, Option.bind_some, first, start,
    List.takeWhile_append_of_pos visible, List.dropWhile_append_of_pos visible]
  have filled : ∀ more : Text, (name ++ more).isEmpty = false := by
    simp [isName.ne_nil]
  cases between with
  | nil =>
      -- The word goes on behind the brace, and the name is cut off there.
      have open_ : (!isBlank '\x7b') = true := by decide
      simp only [List.nil_append, List.takeWhile_cons, open_, if_true, filled]
      show Option.isSome (if _ then _ else _) = true
      split_ifs
      · rfl
      · exact isSome_nameBeforeBrace isName.ne_nil _
  | cons c between =>
      have stops : (!isBlank c) = false := by
        rw [blankBehind c List.mem_cons_self]
        rfl
      have behind : (trimStart (c :: (between ++ '\x7b' :: rest))).head? = some '\x7b' := by
        rw [← List.cons_append, trimStart_append_of_blank blankBehind]
        rfl
      simp [stops, behind, isName.ne_nil]

end Mining

/-- The words of a header line, with white space between them and in front of its brace. -/
theorem Block.exists_of_header? {code keyword name : Text}
    (found : header? code = some (keyword, name)) :
    ∃ gap between, gap ≠ [] ∧ IsGap gap ∧ IsName name ∧ IsGap between ∧
      code = keyword ++ (gap ++ (name ++ (between ++ ['\x7b']))) := by
  have whole := List.takeWhile_append_dropWhile (p := Char.isAlpha) (l := code)
  rw [header?] at found
  split_ifs at found with bare
  rw [Bool.or_eq_true, not_or] at bare
  split at found
  · rename_i own behind identifier
    split_ifs at found with brace
    obtain ⟨rfl, rfl⟩ := Prod.mk.inj (Option.some.inj found)
    obtain ⟨isName, parted, _⟩ := isName_of_identifier? identifier
    have gap := List.takeWhile_append_dropWhile (p := isBlank) (l := code.dropWhile Char.isAlpha)
    have between := List.takeWhile_append_dropWhile (p := isBlank) (l := behind)
    rw [← trimStart, parted] at gap
    rw [← trimStart, brace] at between
    refine ⟨(code.dropWhile Char.isAlpha).takeWhile isBlank, behind.takeWhile isBlank, ?_,
      fun c => List.mem_takeWhile_imp, isName, fun c => List.mem_takeWhile_imp, ?_⟩
    · intro none
      rw [none, List.nil_append] at gap
      apply bare.2
      rw [← gap]
      obtain ⟨c, others, rfl⟩ := List.exists_cons_of_ne_nil isName.ne_nil
      simp [not_isBlank_of_isWord (isName.isWord c List.mem_cons_self)]
    · rw [between, gap, whole]
  · contradiction

/-- The line that opens a model shows a header. -/
theorem Block.Opens.isSome_modelName? {block : Block} {header : Line}
    (opens : block.Opens header) (isModel : block.kind = .model) :
    Mining.isComment header.text = false ∧ (Mining.modelName? header.text).isSome = true := by
  obtain ⟨keyword, found, known⟩ := opens.named
  obtain ⟨gap, between, filled, blank, isName, blankBehind, code⟩ := exists_of_header? found
  obtain rfl : "model".toList = keyword := by
    rw [isModel, BlockKind.ofKeyword?] at known
    have own := List.find?_some known
    exact of_decide_eq_true own
  obtain ⟨rest, whole⟩ := Text.prefix_code header.text
  have row : header.text = "model" ++ (gap ++ (block.name ++ (between ++ '\x7b' :: rest))) := by
    rw [← whole, show Text.code header.text = _ from code]
    simp
  rw [row]
  exact ⟨rfl, Mining.isSome_modelName?_of_brace filled blank isName blankBehind rest⟩

/-- The lines in the blocks of an accepted document are no part of its layout. -/
theorem Schema.isEntry_of_parse {text : Text} {block : Block} {blocks : List Block}
    {schema : Schema} (accepted : parse text = .ok schema)
    (split : Block.split (Line.ofText text) = .ok blocks) (member : block ∈ blocks) :
    ∀ line ∈ block.body, line.IsEntry := by
  obtain ⟨blocks', declarations, split', declared, _, _⟩ := exists_of_parse accepted
  obtain rfl : blocks = blocks' := Except.ok.inj (split.symm.trans split')
  obtain ⟨declaration, _, read⟩ := Reading.exists_of_mem_row declared member
  exact Declaration.isEntry_of_mem_body read

namespace Mining

/-- Above a line of a model stands its header, and no closing brace between them. -/
theorem isHeaded_of_parse {margins : Margins} {content : Text} {block : Block}
    {blocks : List Block} {schema : Schema} (laid : margins.IsLaid)
    (isContent : IsContent content)
    (accepted : Schema.parse (margins.fill content) = .ok schema)
    (split : Block.split (Line.ofText (margins.fill content)) = .ok blocks)
    (member : block ∈ blocks) (isModel : block.kind = .model)
    (inBody : margins.line content ∈ block.body) {above : List Text} {last : Text}
    (cut : cuts margins.above = above ++ [last]) :
    (headerName? (linesOf last)).isSome = true := by
  have entries := Schema.isEntry_of_parse accepted split member
  obtain ⟨before, after, rfl⟩ := List.append_of_mem member
  obtain ⟨upper, header, closing, lower, lines, opens, _⟩ := (Block.laid_of_split split).around
  obtain ⟨front, back, body⟩ := List.append_of_mem inBody
  obtain ⟨others, own⟩ := Margins.exists_lines laid
  -- The line stands once in the document, so that the same lines stand above it.
  have parted : Line.ofText (margins.fill content) =
      (upper ++ header :: front) ++ margins.line content :: (back ++ closing :: lower) := by
    rw [lines, body]
    simp
  have count := (Line.number_of_ofText parted).symm.trans
    (Line.number_of_ofText (own content isContent))
  obtain ⟨rows, _⟩ := List.append_inj (parted.symm.trans (own content isContent)) (by omega)
  have texts : (Text.lines margins.above).map trim =
      upper.map (·.text) ++ header.text :: front.map (·.text) := by
    rw [← Line.map_text_ofText, ← rows, List.map_append, List.map_cons]
  obtain ⟨code, named⟩ := opens.isSome_modelName? isModel
  apply headerName?_linesOf_last cut texts _ code named
  rw [List.forall_mem_cons, List.forall_mem_map]
  exact ⟨opens.opened, fun line inFront => (entries line (by simp [body, inFront])).opened⟩

/-- What is recovered from a document where a line holds another content that is alike. -/
theorem agree_ofText_fill {margins : Margins} {content other : Text} (laid : margins.IsLaid)
    (isContent : IsContent content) (isContent' : IsContent other)
    (opened : content.head? ≠ some '}') (opened' : other.head? ≠ some '}')
    (alike : IsAlike content other)
    (headed : ∀ above last, cuts margins.above = above ++ [last] →
      modelName? content = modelName? other ∨ (headerName? (linesOf last)).isSome = true) :
    Agree (ofText (margins.fill content)) (ofText (margins.fill other)) := by
  obtain ⟨above, last, upper, right, lower, cut, whole⟩ := exists_cuts_fill laid
  rw [ofText_eq, ofText_eq, whole content isContent opened, whole other isContent' opened']
  exact agree_foldl_record (headerName?_exchange alike.comment (headed above last cut)) alike

end Mining

/-! ## Models -/

/-- Models carry the same where the same is kept under every name. -/
theorem Model.inject_of_agree {mined other : Mined} (agree : Mining.Agree mined other)
    {model : Model} (isRead : model.IsRead) : model.inject mined = model.inject other := by
  have agrees : ((mined.find? model.name).getD {}).Agrees
      ((other.find? model.name).getD {}) := by
    have own := agree model.name
    revert own
    generalize mined.find? model.name = kept
    generalize other.find? model.name = kept'
    intro own
    cases own with
    | none => exact .refl {}
    | some agrees => exact agrees
  have fields : model.fields.map (Field.inject ((mined.find? model.name).getD {}).fields) =
      model.fields.map (Field.inject ((other.find? model.name).getD {}).fields) := by
    apply List.map_congr_left
    intro field member
    rw [Field.inject, Field.inject, agrees.fields field.name (isRead.fields field member).name]
  rw [inject, inject, fields, agrees.extraIndexes, agrees.isStub]

/-- A document is read as another one that declares the same and agrees in what is
recovered. -/
theorem Schema.ofDocument_of_agree {text other : Text} {schema : Schema}
    (agree : Mining.Agree (Mining.ofText text) (Mining.ofText other))
    (same : ∀ parsed, parse text = .ok parsed → parse other = .ok parsed)
    (accepted : ofDocument text = .ok schema) : ofDocument other = .ok schema := by
  obtain ⟨parsed, read, rfl⟩ := Reading.map_eq_ok.mp accepted
  refine Reading.map_eq_ok.mpr ⟨parsed, same parsed read, ?_⟩
  have models : parsed.models.map (Model.inject (Mining.ofText text)) =
      parsed.models.map (Model.inject (Mining.ofText other)) :=
    List.map_congr_left fun model member =>
      Model.inject_of_agree agree ((isRead_of_parse read).models model member)
  rw [models]

end SchemaCompose
