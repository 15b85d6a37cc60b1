import SchemaCompose.Mining.Injection
import SchemaCompose.Proofs.Mining.Regions

/-!
# What is recovered for a model belongs to its block

Reader and recogniser cut a document by different rules: the reader at every line
that holds nothing but a closing brace, the recogniser at every brace right behind a
line feed.  Where the closing brace of a block and that of the block before it stand
behind line feeds, the two rules agree on the block (`Block.IsCutOut.hasRegion`), and
two documents that declare a model by the same rows recover the same for it
(`Model.mined_of_same_rows`).
-/

namespace SchemaCompose

/-! ## Places of a block -/

namespace Block

/-- How many lines come before the one that closes the block. -/
def linesBeforeClosing (block : Block) : Nat :=
  block.line + block.body.length

/-- The closing brace of the block stands right behind a line feed. -/
def IsFlush (text : Text) (block : Block) : Prop :=
  ∃ left right, text = left ++ '\n' :: '}' :: right ∧
    (Text.lines (left ++ ['\n'])).length = block.linesBeforeClosing

/-- The rows of a block, from its header up to its closing brace. -/
def rows (text : Text) (block : Block) : List Text :=
  (((Line.ofText text).drop (block.line - 1)).take (block.body.length + 1)).map
    (·.text)

/-- What stands in front of a block: whatever follows the closing brace of the block
before it, and the rows between the two. -/
def lead (text : Text) (previous : Option Block) (block : Block) : List Text :=
  let start := (previous.map linesBeforeClosing).getD 0
  (((Line.ofText text).drop start).take (block.line - 1 - start)).map fun line =>
    Text.trim ((Text.after? "\x7d" line.text).getD line.text)

/-- A model's block of an accepted document, behind the blocks `before`. Its closing
brace, and that of the block before it, stand right behind line feeds. -/
structure IsCutOut (text : Text) (schema : Schema) (before : List Block)
    (block : Block) : Prop where
  read : Schema.ofDocument text = .ok schema
  split : ∃ after,
    Block.split (Line.ofText text) = .ok (before ++ block :: after)
  kind : block.kind = .model
  previous : ∀ last ∈ before.getLast?, last.IsFlush text
  closing : block.IsFlush text

end Block

/-! ## The cut of a block -/

namespace Mining

open Text

/-- The document has a cut that holds the given rows behind the given lead, and no
other cut is kept under the name. -/
def HasRegion (text name : Text) (lead rows : List Text) : Prop :=
  ∃ above own below, cuts text = above ++ own :: below ∧
    linesOf own = (lead ++ rows).filter (!·.isEmpty) ∧
    ∀ cut ∈ above ++ below, headerName? (linesOf cut) ≠ some name

variable {text name : Text} {lead rows : List Text}

theorem ofText_eq (text : Text) :
    ofText text = ((cuts text).map linesOf).foldl record [] := by
  rw [List.foldl_map]
  rfl

theorem headerName?_cons (row : Text) (rows : List Text) :
    headerName? (row :: rows) =
      if isComment row then headerName? rows
      else (modelName? row).or (headerName? rows) := by
  rw [headerName?, List.filter_cons]
  cases comment : isComment row with
  | true => rfl
  | false =>
      rw [Bool.not_false, if_pos rfl, List.findSome?_cons]
      cases modelName? row with
      | none => rfl
      | some name => rfl

theorem headerName?_cons_of_isSilent
    {row : Text} (silent : IsSilent row) (rows : List Text) :
    headerName? (row :: rows) = headerName? rows := by
  rcases silent with rfl | comment
  · rfl
  · rw [headerName?_cons, if_pos comment]

theorem headerName?_append_of_isSilent
    (silent : ∀ row ∈ lead, IsSilent row) (rows : List Text) :
    headerName? (lead ++ rows) = headerName? rows := by
  induction lead with
  | nil => rfl
  | cons row lead ih =>
      rw [List.forall_mem_cons] at silent
      rw [List.cons_append, headerName?_cons_of_isSilent silent.1, ih silent.2]

theorem headerName?_filter (rows : List Text) :
    headerName? (rows.filter (!·.isEmpty)) = headerName? rows := by
  induction rows with
  | nil => rfl
  | cons row rows ih =>
      cases row with
      | nil => exact ih
      | cons c row =>
          rw [headerName?_cons, ← ih, ← headerName?_cons]
          rfl

/-- What is kept under the name is what the own cut gives, if the cut is kept under
that name at all. -/
theorem find?_ofText_of_hasRegion
    (region : HasRegion text name lead rows)
    (silent : ∀ row ∈ lead, IsSilent row) :
    (ofText text).find? name =
      if headerName? rows = some name then some (ofLines (lead ++ rows)) else none := by
  obtain ⟨above, own, below, whole, inOwn, others⟩ := region
  rw [List.forall_mem_append] at others
  have header : headerName? (linesOf own) = headerName? rows := by
    rw [inOwn, headerName?_filter, headerName?_append_of_isSilent silent]
  have above' : ∀ cut ∈ above.map linesOf, headerName? cut ≠ some name :=
    List.forall_mem_map.mpr others.1
  have below' : ∀ cut ∈ below.map linesOf, headerName? cut ≠ some name :=
    List.forall_mem_map.mpr others.2
  rw [ofText_eq, whole, List.map_append, List.map_cons]
  split_ifs with named
  · rw [find?_foldl_record (header.trans named) below', inOwn, ofLines,
      foldl_keepLine_filter]
    rfl
  · apply find?_foldl_record_of_other
    rw [List.forall_mem_append, List.forall_mem_cons]
    exact ⟨above', header ▸ named, below'⟩

/-- Where no row starts with a closing brace, the text is one cut of these rows. -/
theorem cuts_of_opened
    {own : Text} (texts : (lines (own ++ ['\n'])).map trim = rows)
    (opened : ∀ row ∈ rows, row.head? ≠ some '}') :
    cuts own = [own] ∧ linesOf own = rows.filter (!·.isEmpty) := by
  constructor
  · apply cuts_eq_singleton
    rintro ⟨left, right, rfl⟩
    have split : left ++ ['\n', '}'] ++ right ++ ['\n'] =
        left ++ '\n' :: '}' :: (right ++ ['\n']) := by
      simp
    obtain ⟨line, further, closing⟩ :=
      exists_lines_cons (show isLineEnd '}' = false by decide) (right ++ ['\n'])
    rw [split, lines_append_break, closing] at texts
    apply opened (trim ('}' :: line))
    · rw [← texts]
      simp
    · rw [trim_cons_of_not_blank (by decide)]
      rfl
  · obtain ⟨tail, whole, blank⟩ := exists_lines_feed own
    rw [linesOf, ← texts, whole, List.map_append, List.filter_append,
      filter_trim_tail blank, List.append_nil]

theorem hasRegion_of_first
    {own below : Text} (opened : ∀ row ∈ lead ++ rows, row.head? ≠ some '}')
    (texts : (lines (own ++ ['\n'])).map trim = lead ++ rows)
    (foreign : ∀ line ∈ lines ('}' :: below), IsForeign name (trim line)) :
    HasRegion (own ++ '\n' :: '}' :: below) name lead rows := by
  obtain ⟨single, inOwn⟩ := cuts_of_opened texts opened
  refine ⟨[], own, cuts below, ?_, inOwn, ?_⟩
  · rw [cuts_append, single]
    rfl
  · exact headerName?_ne_of_mem_cuts (foreign_behind_brace foreign)

theorem hasRegion_of_further
    {above own below first : Text} {gap : List Text} {others : List Text}
    (opened : ∀ row ∈ trim first :: (gap ++ rows), row.head? ≠ some '}')
    (broken : lines ('}' :: (own ++ ['\n'])) = ('}' :: first) :: others)
    (texts : others.map trim = gap ++ rows)
    (foreignAbove : ∀ line ∈ lines (above ++ ['\n']), IsForeign name (trim line))
    (foreign : ∀ line ∈ lines ('}' :: below), IsForeign name (trim line)) :
    HasRegion (above ++ '\n' :: '}' :: (own ++ '\n' :: '}' :: below)) name
      (trim first :: gap) rows := by
  have brace :=
    lines_cons_of_not_end (show isLineEnd '}' = false by decide) (own ++ ['\n'])
  have ownTexts : (lines (own ++ ['\n'])).map trim = trim first :: (gap ++ rows) := by
    have feed : lines (own ++ ['\n']) ≠ [] := lines_ne_nil (by simp)
    obtain ⟨line, further, upper⟩ := List.exists_cons_of_ne_nil feed
    rw [upper, broken] at brace
    obtain ⟨sameFirst, rfl⟩ := List.cons.inj brace
    rw [upper, List.map_cons, texts, (List.cons.inj sameFirst).2]
  obtain ⟨single, inOwn⟩ := cuts_of_opened ownTexts opened
  refine ⟨cuts above, own, cuts below, ?_, inOwn, ?_⟩
  · rw [cuts_append, cuts_append, single]
    rfl
  · rw [List.forall_mem_append]
    constructor
    · apply headerName?_ne_of_mem_cuts
      intro line member
      exact foreignAbove line ((prefix_lines_feed above).subset member)
    · exact headerName?_ne_of_mem_cuts (foreign_behind_brace foreign)

end Mining

/-! ## Where braces stand -/

namespace Text

/-- Of two closing braces that start a line, the one with fewer lines before it
comes first. -/
theorem exists_between_braces
    {left right left' right' : Text}
    (same : left ++ '\n' :: '}' :: right = left' ++ '\n' :: '}' :: right')
    (fewer : (lines (left ++ ['\n'])).length < (lines (left' ++ ['\n'])).length) :
    ∃ own, left' = left ++ '\n' :: '}' :: own := by
  rcases List.append_eq_append_iff.mp same with
    ⟨more, rfl, behind⟩ | ⟨more, rfl, behind⟩
  · cases more with
    | nil => simp at fewer
    | cons c more =>
        obtain ⟨rfl, further⟩ := List.cons.inj behind
        cases more with
        | nil =>
            obtain ⟨brace, _⟩ := List.cons.inj further
            contradiction
        | cons d more =>
            obtain ⟨rfl, _⟩ := List.cons.inj further
            exact ⟨more, rfl⟩
  · cases more with
    | nil => simp at fewer
    | cons c more =>
        obtain ⟨rfl, _⟩ := List.cons.inj behind
        rw [List.append_assoc, List.cons_append, lines_append_break,
          List.length_append] at fewer
        omega

end Text

namespace Line

/-- The lines of a document are parted where a line feed parts the text. -/
theorem map_text_of_break
    {left right : Text} {upper lower : List Line}
    (lines : ofText (left ++ '\n' :: right) = upper ++ lower)
    (count : (Text.lines (left ++ ['\n'])).length = upper.length) :
    (Text.lines (left ++ ['\n'])).map Text.trim = upper.map (·.text) ∧
      (Text.lines right).map Text.trim = lower.map (·.text) := by
  have whole := map_text_ofText (left ++ '\n' :: right)
  rw [lines, Text.lines_append_break, List.map_append, List.map_append] at whole
  obtain ⟨first, second⟩ := List.append_inj whole (by simp [count])
  exact ⟨first.symm, second.symm⟩

theorem isTrimmed_of_mem_ofText {text : Text} {line : Line}
    (member : line ∈ ofText text) : Text.IsTrimmed line.text := by
  have row : line.text ∈ (ofText text).map (·.text) := List.mem_map_of_mem member
  rw [map_text_ofText] at row
  obtain ⟨raw, _, same⟩ := List.mem_map.mp row
  rw [← same]
  exact Text.isTrimmed_trim raw

end Line

/-! ## Lines around a block -/

theorem Mining.isForeign_of_closes
    {line : Line} (closes : line.code = ['}']) (name : Text) :
    IsForeign name line.text := by
  refine ⟨Or.inr fun found => ?_, fun _ => closes⟩
  obtain ⟨behind, _, _, same, _⟩ := exists_of_modelName? found
  obtain ⟨rest, starts⟩ := Text.prefix_code line.text
  rw [show Text.code line.text = ['}'] from closes, same] at starts
  obtain ⟨letter, _⟩ := List.cons.inj starts
  contradiction

/-- The only code of a line that starts with a closing brace is the brace. -/
theorem Laid.code_of_closing
    {lines : List Line} {blocks : List Block} (laid : Laid lines blocks)
    (trimmed : ∀ line ∈ lines, Text.IsTrimmed line.text)
    (entries : ∀ block ∈ blocks, ∀ line ∈ block.body, line.IsEntry) :
    ∀ line ∈ lines, line.text.head? = some '}' → line.code = ['}'] := by
  have each : ∀ line ∈ lines, Text.IsTrimmed line.text →
      line.text.head? = some '}' → line.code = ['}'] := by
    apply laid.forall_mem fun line => Text.IsTrimmed line.text →
      line.text.head? = some '}' → line.code = ['}']
    · intro line empty isTrimmed closing
      exact absurd closing
        (Text.opened_of_isSilent (Text.isSilent_of_code isTrimmed empty))
    · intro block _ line opens _ closing
      exact absurd closing opens.opened
    · intro block member line inBody _ closing
      exact absurd closing (entries block member line inBody).opened
    · intro line closes _ _
      exact closes
  exact fun line member => each line member (trimmed line member)

/-- The lines of accepted blocks show no header of a name that is none of theirs. -/
theorem Laid.isForeign
    {lines : List Line} {blocks : List Block} (laid : Laid lines blocks) {name : Text}
    (isName : Text.IsName name)
    (trimmed : ∀ line ∈ lines, Text.IsTrimmed line.text)
    (entries : ∀ block ∈ blocks, ∀ line ∈ block.body, line.IsEntry)
    (others : ∀ block ∈ blocks, block.kind = .model → block.name ≠ name) :
    ∀ line ∈ lines, Mining.IsForeign name line.text := by
  have closed := laid.code_of_closing trimmed entries
  have each : ∀ line ∈ lines, Text.IsTrimmed line.text →
      Mining.isComment line.text = true ∨ Mining.modelName? line.text ≠ some name := by
    apply laid.forall_mem fun line => Text.IsTrimmed line.text →
      Mining.isComment line.text = true ∨ Mining.modelName? line.text ≠ some name
    · intro line empty isTrimmed
      exact Mining.modelName?_of_isSilent (Text.isSilent_of_code isTrimmed empty) name
    · intro block member line opens _
      exact (opens.isForeign isName (others block member)).unheaded
    · intro block member line inBody _
      have entry := entries block member line inBody
      exact Or.inr fun found => entry.unheaded name found isName
    · intro line closes _
      exact (Mining.isForeign_of_closes closes name).unheaded
  exact fun line member => ⟨each line member (trimmed line member), closed line member⟩

namespace Block

variable {text : Text} {schema : Schema} {before : List Block} {block : Block}

theorem Opens.isName {header : Line} (opens : block.Opens header) :
    Text.IsName block.name := by
  obtain ⟨keyword, found, _⟩ := opens.named
  rw [header?] at found
  split at found
  · contradiction
  · split at found
    · rename_i name behind read
      split_ifs at found
      cases found
      exact (Text.isName_of_identifier? read).1
    · contradiction

/-- No other model of an accepted document has the name of the block. -/
theorem name_ne_of_split
    {after : List Block} (kind : block.kind = .model)
    (distinct : (((before ++ block :: after).filter isNamed).map (·.name)).Nodup) :
    ∀ other ∈ before ++ after, other.kind = .model → other.name ≠ block.name := by
  have named : block.isNamed = true := by simp [isNamed, kind]
  rw [List.filter_append, List.filter_cons_of_pos named, List.map_append,
    List.map_cons, List.nodup_middle, ← List.map_append, ← List.filter_append]
    at distinct
  intro other member otherKind same
  apply (List.nodup_cons.mp distinct).1
  rw [← same]
  apply List.mem_map_of_mem
  rw [List.mem_filter]
  exact ⟨member, by simp [isNamed, otherKind]⟩

/-- Rows that are lines of the document are foreign where the lines are. -/
theorem isForeign_of_texts
    {name : Text} {raws : List Text} {lines : List Line}
    (texts : raws.map Text.trim = lines.map (·.text))
    (foreign : ∀ line ∈ lines, Mining.IsForeign name line.text) :
    ∀ raw ∈ raws, Mining.IsForeign name (Text.trim raw) := by
  intro raw member
  have row : Text.trim raw ∈ raws.map Text.trim := List.mem_map_of_mem member
  rw [texts] at row
  obtain ⟨line, inLines, same⟩ := List.mem_map.mp row
  rw [← same]
  exact foreign line inLines

/-- A silent row leads a block as it stands. -/
theorem map_lead_of_isSilent
    {gap : List Line} (trimmed : ∀ line ∈ gap, Text.IsTrimmed line.text)
    (silent : ∀ line ∈ gap, Text.IsSilent line.text) :
    gap.map (fun line =>
      Text.trim ((Text.after? "\x7d" line.text).getD line.text)) =
      gap.map (·.text) := by
  apply List.map_congr_left
  intro line member
  have opened := Text.opened_of_isSilent (silent line member)
  have none : Text.after? "\x7d" line.text = none := Text.after?_of_head? rfl opened
  rw [none]
  exact trimmed line member

/-- The lines of an accepted document around a block of a model. -/
structure Place (text : Text) (before after : List Block) (block : Block)
    (upper lower : List Line) (header closing : Line) : Prop where
  lines : Line.ofText text = upper ++ header :: (block.body ++ closing :: lower)
  opens : block.Opens header
  closes : closing.code = ['}']
  above : Laid upper before
  below : Laid lower after
  entries : ∀ other ∈ before ++ block :: after, ∀ line ∈ other.body, line.IsEntry
  others : ∀ other ∈ before ++ after,
    other.kind = .model → other.name ≠ block.name

theorem IsCutOut.place (cutOut : block.IsCutOut text schema before) :
    ∃ after upper lower header closing,
      Place text before after block upper lower header closing := by
  obtain ⟨after, split⟩ := cutOut.split
  obtain ⟨parsed, accepted, _⟩ := Reading.map_eq_ok.mp cutOut.read
  obtain ⟨blocks, declarations, split', declared, distinct, _⟩ :=
    Schema.exists_of_parse accepted
  obtain rfl : before ++ block :: after = blocks :=
    Except.ok.inj (split.symm.trans split')
  obtain ⟨upper, header, closing, lower, lines, opens, _, closes, above, below⟩ :=
    (laid_of_split split).around
  refine ⟨after, upper, lower, header, closing, lines, opens, closes, above, below,
    ?_, name_ne_of_split cutOut.kind distinct⟩
  intro other member
  obtain ⟨declaration, _, read⟩ := Reading.exists_of_mem_row declared member
  exact Declaration.isEntry_of_mem_body read

namespace Place

variable {after : List Block} {upper lower : List Line} {header closing : Line}

theorem parted (place : Place text before after block upper lower header closing) :
    Line.ofText text = (upper ++ header :: block.body) ++ closing :: lower := by
  simpa using place.lines

theorem number (place : Place text before after block upper lower header closing) :
    header.number = upper.length + 1 :=
  Line.number_of_ofText place.lines

/-- The rows of a block are its header and the lines of its body. -/
theorem rows_eq (place : Place text before after block upper lower header closing) :
    block.rows text = header.text :: block.body.map (·.text) := by
  rw [rows, place.lines, place.opens.line, place.number, Nat.add_sub_cancel,
    List.drop_left]
  simp

theorem trimmed (place : Place text before after block upper lower header closing) :
    (∀ line ∈ upper, Text.IsTrimmed line.text) ∧
      ∀ line ∈ lower, Text.IsTrimmed line.text := by
  have all : ∀ line ∈ Line.ofText text, Text.IsTrimmed line.text :=
    fun line => Line.isTrimmed_of_mem_ofText
  rw [place.lines] at all
  exact ⟨fun line member => all line (by simp [member]),
    fun line member => all line (by simp [member])⟩

theorem isForeign_above
    (place : Place text before after block upper lower header closing) :
    ∀ line ∈ upper, Mining.IsForeign block.name line.text :=
  place.above.isForeign place.opens.isName place.trimmed.1
    (fun other member => place.entries other (List.mem_append_left _ member))
    (fun other member => place.others other (List.mem_append_left _ member))

theorem isForeign_below
    (place : Place text before after block upper lower header closing) :
    ∀ line ∈ closing :: lower, Mining.IsForeign block.name line.text := by
  rw [List.forall_mem_cons]
  refine ⟨Mining.isForeign_of_closes place.closes _, ?_⟩
  exact place.below.isForeign place.opens.isName place.trimmed.2
    (fun other member => place.entries other (by simp [member]))
    (fun other member => place.others other (List.mem_append_right _ member))

theorem opened (place : Place text before after block upper lower header closing) :
    ∀ row ∈ header.text :: block.body.map (·.text), row.head? ≠ some '}' := by
  rw [List.forall_mem_cons, List.forall_mem_map]
  exact ⟨place.opens.opened, fun line member =>
    (place.entries block (by simp) line member).opened⟩

theorem linesBeforeClosing_eq
    (place : Place text before after block upper lower header closing) :
    block.linesBeforeClosing = (upper ++ header :: block.body).length := by
  rw [linesBeforeClosing, place.opens.line, place.number, List.length_append,
    List.length_cons]
  omega

/-- What comes before the closing brace, and what comes from there on, are the lines
of the two parts into which the brace cuts the text. -/
theorem texts
    {left right : Text}
    (place : Place (left ++ '\n' :: '}' :: right) before after block upper lower
      header closing)
    (count : (Text.lines (left ++ ['\n'])).length = block.linesBeforeClosing) :
    (Text.lines (left ++ ['\n'])).map Text.trim =
        (upper ++ header :: block.body).map (·.text) ∧
      (Text.lines ('}' :: right)).map Text.trim =
        (closing :: lower).map (·.text) :=
  Line.map_text_of_break place.parted (count.trans place.linesBeforeClosing_eq)

/-- The cut of the first block starts with the document. -/
theorem hasRegion_of_nil
    (place : Place text [] after block upper lower header closing)
    (flush : block.IsFlush text) :
    Mining.HasRegion text block.name (block.lead text none) (block.rows text) ∧
      ∀ row ∈ block.lead text none, Text.IsSilent row := by
  have silent : ∀ line ∈ upper, Text.IsSilent line.text := fun line member =>
    Text.isSilent_of_code (place.trimmed.1 line member)
      (place.above.code_of_nil line member)
  have lead : block.lead text none = upper.map (·.text) := by
    rw [Block.lead, place.lines, place.opens.line, place.number]
    simp only [Option.map_none, Option.getD_none, List.drop_zero,
      Nat.add_sub_cancel, Nat.sub_zero, List.take_left]
    exact map_lead_of_isSilent place.trimmed.1 silent
  obtain ⟨left, right, rfl, count⟩ := flush
  obtain ⟨ownTexts, belowTexts⟩ := place.texts count
  rw [lead, place.rows_eq]
  refine ⟨?_, List.forall_mem_map.mpr silent⟩
  apply Mining.hasRegion_of_first _ (by simpa using ownTexts)
    (isForeign_of_texts belowTexts place.isForeign_below)
  rw [List.forall_mem_append, List.forall_mem_map]
  exact ⟨fun line member => Text.opened_of_isSilent (silent line member),
    place.opened⟩

section Behind

variable {up gap : List Line} {last : Block} {first brace : Line}

/-- The lines around the closing brace of the block before. -/
theorem parted_last
    (place : Place text before after block
      (up ++ first :: (last.body ++ brace :: gap)) lower header closing) :
    Line.ofText text = (up ++ first :: last.body) ++
      brace :: (gap ++ header :: (block.body ++ closing :: lower)) := by
  rw [place.lines]
  simp

theorem linesBeforeClosing_last
    (place : Place text before after block
      (up ++ first :: (last.body ++ brace :: gap)) lower header closing)
    (opens : last.Opens first) :
    last.linesBeforeClosing = (up ++ first :: last.body).length := by
  have number : first.number = up.length + 1 := by
    apply Line.number_of_ofText
    rw [place.lines, List.append_assoc, List.cons_append]
  rw [linesBeforeClosing, opens.line, number, List.length_append, List.length_cons]
  omega

/-- What stands in front of a block behind another one is the rest of the closing
line and the gap between the two. -/
theorem lead_eq
    {rest : Text}
    (place : Place text before after block
      (up ++ first :: (last.body ++ brace :: gap)) lower header closing)
    (opens : last.Opens first) (silent : ∀ line ∈ gap, Text.IsSilent line.text)
    (braceText : Text.trim ('}' :: rest) = brace.text) :
    block.lead text (some last) = Text.trim rest :: gap.map (·.text) := by
  have trimmed : ∀ line ∈ gap, Text.IsTrimmed line.text := fun line member =>
    place.trimmed.1 line (by simp [member])
  have behind : Text.after? "\x7d" brace.text = some (Text.trimEnd rest) := by
    rw [← braceText, Text.trim_cons_of_not_blank (by decide)]
    rfl
  have rows : header.number - 1 - (up ++ first :: last.body).length =
      gap.length + 1 := by
    rw [place.number]
    simp only [List.length_append, List.length_cons]
    omega
  rw [Block.lead, place.parted_last, place.opens.line]
  simp only [Option.map_some, Option.getD_some, place.linesBeforeClosing_last opens, rows,
    List.drop_left, List.take_succ_cons, List.take_left, List.map_cons, behind]
  rw [Text.trim_trimEnd, map_lead_of_isSilent trimmed silent]

/-- What comes before the closing brace of the block before, and what stands between the
two braces: the rest of the closing line, the gap and the rows of the block. -/
theorem texts_between
    {above own right rest : Text} {others : List Text}
    (place : Place (above ++ '\n' :: '}' :: (own ++ '\n' :: '}' :: right)) before after
      block (up ++ first :: (last.body ++ brace :: gap)) lower header closing)
    (opens : last.Opens first)
    (count : (Text.lines (above ++ ['\n'])).length = last.linesBeforeClosing)
    (belowTexts : (Text.lines ('}' :: right)).map Text.trim =
      (closing :: lower).map (·.text))
    (broken : Text.lines ('}' :: (own ++ ['\n'])) = ('}' :: rest) :: others) :
    (Text.lines (above ++ ['\n'])).map Text.trim =
        (up ++ first :: last.body).map (·.text) ∧
      Text.trim ('}' :: rest) = brace.text ∧
      others.map Text.trim = gap.map (·.text) ++ header.text :: block.body.map (·.text) := by
  obtain ⟨aboveTexts, restTexts⟩ := Line.map_text_of_break place.parted_last
    (count.trans (place.linesBeforeClosing_last opens))
  have ownRest : Text.lines ('}' :: (own ++ '\n' :: '}' :: right)) =
      ('}' :: rest) :: (others ++ Text.lines ('}' :: right)) := by
    rw [← List.cons_append, Text.lines_append_break, List.cons_append, broken,
      List.cons_append]
  rw [ownRest, List.map_cons, List.map_cons, List.map_append, belowTexts] at restTexts
  obtain ⟨braceText, restTexts⟩ := List.cons.inj restTexts
  have whole : others.map Text.trim ++ (closing :: lower).map (·.text) =
      (gap.map (·.text) ++ header.text :: block.body.map (·.text)) ++
        (closing :: lower).map (·.text) := by
    rw [restTexts]
    simp
  exact ⟨aboveTexts, braceText, List.append_cancel_right whole⟩

end Behind

/-- The cut of a further block starts behind the closing brace of the block before
it. -/
theorem hasRegion_of_concat
    {init : List Block} {last : Block}
    (place : Place text (init ++ [last]) after block upper lower header closing)
    (flushLast : last.IsFlush text) (flush : block.IsFlush text) :
    Mining.HasRegion text block.name (block.lead text (some last))
      (block.rows text) ∧
      ∀ row ∈ block.lead text (some last), Text.IsSilent row := by
  obtain ⟨up, first, brace, gap, rfl, opens, _, closes, _, between⟩ :=
    place.above.around
  have silent : ∀ line ∈ gap, Text.IsSilent line.text := fun line member =>
    Text.isSilent_of_code (place.trimmed.1 line (by simp [member]))
      (between.code_of_nil line member)
  obtain ⟨left, right, rfl, count⟩ := flush
  obtain ⟨above, right', whole, countLast⟩ := flushLast
  obtain ⟨_, belowTexts⟩ := place.texts count
  -- Both braces stand in the text, so that the text between them is the own cut.
  obtain ⟨own, rfl⟩ := Text.exists_between_braces whole.symm (by
    rw [count, countLast, place.linesBeforeClosing_eq, place.linesBeforeClosing_last opens]
    simp only [List.length_append, List.length_cons]
    omega)
  have split : above ++ '\n' :: '}' :: own ++ '\n' :: '}' :: right =
      above ++ '\n' :: '}' :: (own ++ '\n' :: '}' :: right) := by
    simp
  obtain ⟨rest, others, broken⟩ := Text.exists_lines_cons
    (show Text.isLineEnd '}' = false by decide) (own ++ ['\n'])
  rw [split] at place ⊢
  obtain ⟨aboveTexts, braceText, texts⟩ :=
    place.texts_between opens countLast belowTexts broken
  have silentLead : ∀ row ∈ Text.trim rest :: gap.map (·.text),
      Text.IsSilent row := by
    rw [List.forall_mem_cons, List.forall_mem_map]
    exact ⟨Text.isSilent_behind_brace (braceText ▸ closes), silent⟩
  rw [place.lead_eq opens silent braceText, place.rows_eq]
  refine ⟨?_, silentLead⟩
  apply Mining.hasRegion_of_further _ broken texts _
    (isForeign_of_texts belowTexts place.isForeign_below)
  · rw [← List.cons_append, List.forall_mem_append]
    exact ⟨fun row member => Text.opened_of_isSilent (silentLead row member),
      place.opened⟩
  · apply isForeign_of_texts aboveTexts
    intro line member
    apply place.isForeign_above
    simp only [List.mem_append, List.mem_cons] at member ⊢
    tauto

end Place

/-- The document has one cut that is kept under the name of the block, and before the
header of the block that cut holds comments only. -/
theorem IsCutOut.hasRegion (cutOut : block.IsCutOut text schema before) :
    Mining.HasRegion text block.name (block.lead text before.getLast?)
      (block.rows text) ∧
      ∀ row ∈ block.lead text before.getLast?, Text.IsSilent row := by
  obtain ⟨after, upper, lower, header, closing, place⟩ := cutOut.place
  rcases List.eq_nil_or_concat before with rfl | ⟨init, last, rfl⟩
  · exact place.hasRegion_of_nil cutOut.closing
  · rw [List.concat_eq_append] at place cutOut ⊢
    rw [List.getLast?_concat]
    exact place.hasRegion_of_concat (cutOut.previous last (by simp)) cutOut.closing

end Block

/-! ## What a model keeps -/

namespace Mining

theorem keepLine_isStub (mined : MinedModel) (line : Text) (stub : Bool) :
    keepLine { mined with isStub := stub || mined.isStub } line =
      { keepLine mined line with isStub := stub || (keepLine mined line).isStub } := by
  by_cases comment : isComment line = true
  · simp [keepLine, comment, Bool.or_assoc]
  · cases index : firstMatch (fun _ => extraIndex?) none line with
    | some found => simp [keepLine, comment, index]
    | none =>
        by_cases empty : (extrasOf line).isEmpty = true
        · simp [keepLine, comment, index, empty]
        · simp [keepLine, comment, index, empty]

theorem foldl_keepLine_isStub (rows : List Text) (mined : MinedModel) (stub : Bool) :
    rows.foldl keepLine { mined with isStub := stub || mined.isStub } =
      { rows.foldl keepLine mined with
        isStub := stub || (rows.foldl keepLine mined).isStub } := by
  induction rows generalizing mined with
  | nil => rfl
  | cons row rows ih =>
      rw [List.foldl_cons, List.foldl_cons, keepLine_isStub, ih]

/-- Silent rows can only mark a stub. -/
theorem foldl_keepLine_of_isSilent
    {lead : List Text} (silent : ∀ row ∈ lead, Text.IsSilent row)
    (mined : MinedModel) :
    lead.foldl keepLine mined =
      { mined with isStub := mined.isStub || lead.any isStubComment } := by
  induction lead generalizing mined with
  | nil => simp
  | cons row lead ih =>
      rw [List.forall_mem_cons] at silent
      rw [List.foldl_cons, ih silent.2, List.any_cons]
      rcases silent.1 with rfl | comment
      · rfl
      · rw [keepLine, if_pos comment, Bool.or_assoc]

/-- What stands in front of a block can only mark it as a stub. -/
theorem ofLines_append_of_isSilent
    {lead : List Text} (silent : ∀ row ∈ lead, Text.IsSilent row) (rows : List Text) :
    ofLines (lead ++ rows) =
      { ofLines rows with
        isStub := lead.any isStubComment || (ofLines rows).isStub } := by
  rw [ofLines, List.foldl_append, foldl_keepLine_of_isSilent silent]
  have stub := foldl_keepLine_isStub rows {} (lead.any isStubComment)
  rw [Bool.or_false] at stub
  exact stub

end Mining

namespace Block

variable {text : Text} {schema : Schema} {before : List Block} {block : Block}

/-- A model of the block's name is read from the block. -/
theorem IsCutOut.exists_of_mem
    (cutOut : block.IsCutOut text schema before) {model : Model}
    (member : model ∈ schema.models) (named : model.name = block.name) :
    ∃ names parsed, Model.ofBlock names block = .ok parsed ∧
      model = parsed.inject (Mining.ofText text) := by
  obtain ⟨after, split⟩ := cutOut.split
  obtain ⟨parsed, accepted, same⟩ := Reading.map_eq_ok.mp cutOut.read
  obtain ⟨blocks, declarations, split', declared, distinct, rfl⟩ :=
    Schema.exists_of_parse accepted
  obtain rfl : before ++ block :: after = blocks :=
    Except.ok.inj (split.symm.trans split')
  rw [← same] at member
  obtain ⟨own, declaredModel, rfl⟩ := List.mem_map.mp member
  obtain ⟨source, inBlocks, kind, read⟩ :=
    Schema.exists_of_mem_models declared declaredModel
  have sameName : source.name = block.name := by
    rw [← Model.name_of_ofBlock read, ← named]
    rfl
  have others := name_ne_of_split cutOut.kind distinct
  obtain rfl : source = block := by
    by_contra different
    have other : source ∈ before ++ after := by
      simp only [List.mem_append, List.mem_cons] at inBlocks ⊢
      tauto
    exact others source other kind sameName
  exact ⟨_, own, read, rfl⟩

/-- What is kept for the model of a block. -/
theorem IsCutOut.find?_ofText (cutOut : block.IsCutOut text schema before) :
    ((Mining.ofText text).find? block.name).getD {} =
      if Mining.headerName? (block.rows text) = some block.name then
        { Mining.ofLines (block.rows text) with
          isStub :=
            (block.lead text before.getLast?).any Mining.isStubComment ||
              (Mining.ofLines (block.rows text)).isStub }
      else {} := by
  obtain ⟨region, silent⟩ := cutOut.hasRegion
  rw [Mining.find?_ofText_of_hasRegion region silent,
    Mining.ofLines_append_of_isSilent silent]
  split_ifs
  · rfl
  · rfl

end Block

/-- Blocks of the same rows have the same name. -/
theorem Block.IsCutOut.name_of_rows
    {text text' : Text} {schema schema' : Schema} {before before' : List Block}
    {block block' : Block} (cutOut : block.IsCutOut text schema before)
    (cutOut' : block'.IsCutOut text' schema' before')
    (rows : block.rows text = block'.rows text') : block.name = block'.name := by
  obtain ⟨_, _, _, header, _, place⟩ := cutOut.place
  obtain ⟨_, _, _, header', _, place'⟩ := cutOut'.place
  rw [place.rows_eq, place'.rows_eq] at rows
  obtain ⟨_, named, _⟩ := place.opens.named
  obtain ⟨_, named', _⟩ := place'.opens.named
  rw [Line.code, (List.cons.inj rows).1] at named
  have same := named.symm.trans named'
  rw [Option.some.injEq, Prod.mk.injEq] at same
  exact same.2

theorem Block.IsCutOut.codes_of_rows
    {text text' : Text} {schema schema' : Schema} {before before' : List Block}
    {block block' : Block} (cutOut : block.IsCutOut text schema before)
    (cutOut' : block'.IsCutOut text' schema' before')
    (rows : block.rows text = block'.rows text') :
    block.body.map (·.code) = block'.body.map (·.code) := by
  obtain ⟨_, _, _, header, _, place⟩ := cutOut.place
  obtain ⟨_, _, _, header', _, place'⟩ := cutOut'.place
  rw [place.rows_eq, place'.rows_eq] at rows
  have codes := congrArg (List.map Text.code) (List.cons.inj rows).2
  rwa [List.map_map, List.map_map] at codes

/-- What is kept for a model is kept from the rows of its block. -/
theorem Block.IsCutOut.kept_of_rows
    {text text' : Text} {schema schema' : Schema} {before before' : List Block}
    {block block' : Block} (cutOut : block.IsCutOut text schema before)
    (cutOut' : block'.IsCutOut text' schema' before')
    (rows : block.rows text = block'.rows text') {own own' : MinedModel}
    {name name' : Text} (named : name = block.name) (named' : name' = block'.name)
    (kept : ((Mining.ofText text).find? name).getD {} = own)
    (kept' : ((Mining.ofText text').find? name').getD {} = own') :
    own.fields = own'.fields ∧ own.extraIndexes = own'.extraIndexes ∧
      ((block.lead text before.getLast?).any Mining.isStubComment =
          (block'.lead text' before'.getLast?).any Mining.isStubComment →
        own.isStub = own'.isStub) := by
  rw [named, cutOut.find?_ofText] at kept
  rw [named', cutOut'.find?_ofText, ← rows, ← cutOut.name_of_rows cutOut' rows]
    at kept'
  rw [← kept, ← kept']
  split_ifs
  · exact ⟨rfl, rfl, fun stubs => by rw [stubs]⟩
  · exact ⟨rfl, rfl, fun _ => rfl⟩

/-- What is recovered for the fields is looked up by their names. -/
theorem Model.map_fields_inject (mined : Mined) (model : Model) :
    ((model.inject mined).fields.map fun field => (field.name, field.extras)) =
      (model.fields.map (·.name)).map fun name =>
        (name, (((mined.find? model.name).getD {}).fields.find? name).getD {}) := by
  rw [Model.inject, List.map_map, List.map_map]
  rfl

/-- What is recovered for a model depends on the rows of its own block: two documents
that declare the model by the same rows give its fields the same attributes and the
model the same indexes, whatever else they hold. They agree on the mark of a stub
when the comments in front of the block do. -/
theorem Model.mined_of_same_rows
    {text text' : Text} {schema schema' : Schema} {before before' : List Block}
    {block block' : Block} (cutOut : block.IsCutOut text schema before)
    (cutOut' : block'.IsCutOut text' schema' before')
    (rows : block.rows text = block'.rows text')
    {model model' : Model} (member : model ∈ schema.models)
    (named : model.name = block.name) (member' : model' ∈ schema'.models)
    (named' : model'.name = block'.name) :
    (model.fields.map fun field => (field.name, field.extras)) =
        (model'.fields.map fun field => (field.name, field.extras)) ∧
      model.extraIndexes = model'.extraIndexes ∧
      ((block.lead text before.getLast?).any Mining.isStubComment =
          (block'.lead text' before'.getLast?).any Mining.isStubComment →
        model.isStub = model'.isStub) := by
  obtain ⟨names, parsed, read, rfl⟩ := cutOut.exists_of_mem member named
  obtain ⟨names', parsed', read', rfl⟩ := cutOut'.exists_of_mem member' named'
  have fieldNames : parsed.fields.map (·.name) = parsed'.fields.map (·.name) := by
    rw [fieldNames_of_ofBlock read, fieldNames_of_ofBlock read',
      cutOut.codes_of_rows cutOut' rows]
  obtain ⟨fields, indexes, stubs⟩ := cutOut.kept_of_rows cutOut' rows
    (show parsed.name = block.name from named)
    (show parsed'.name = block'.name from named') rfl rfl
  refine ⟨?_, indexes, stubs⟩
  rw [map_fields_inject, map_fields_inject, fieldNames, fields]

/-- A block of a user at some line of a document. -/
def userBlock (line : Nat) (documentation : Option Text) : Block where
  kind := .model
  name := "U"
  line := line
  documentation := documentation
  body := [⟨line + 1, "i Int @map(\"k\")"⟩, ⟨line + 2, "r R"⟩]

/-- What is read from the block of a user, where a role is an enum or a model. -/
def userModel (role : FieldKind) (documentation : Option Text) : Model where
  name := "U"
  fields :=
    [{ name := "i", type := "Int", extras := { columnName := "k" } },
     { name := "r", type := "R", kind := role }]
  documentation := documentation

/-- A user below an enum of roles. -/
def userText : Text :=
  "enum R \x7b\n  A\n\x7d\nmodel U \x7b\n  i Int @map(\"k\")\n  r R\n\x7d"

/-- The same user below a model of roles, with documentation and with other white
space. -/
def documentedUserText : Text :=
  "model R \x7b\n  i Int\n\x7d // r\n/// d\nmodel U \x7b\ni Int @map(\"k\")\nr R\n\x7d // u"

theorem isCutOut_userBlock :
    (userBlock 4 none).IsCutOut userText
      { models := [userModel .enum none]
        enums := [{ name := "R", values := [{ name := "A" }] }] }
      [{ kind := .enum, name := "R", line := 1, documentation := none
         body := [⟨2, "A"⟩] }] where
  read := by decide +kernel
  split := ⟨[], by decide +kernel⟩
  kind := rfl
  previous := by
    rintro last ⟨⟩
    exact ⟨userText.take 12, userText.drop 14, by decide +kernel,
      by decide +kernel⟩
  closing := ⟨userText.take 48, userText.drop 50, by decide +kernel,
    by decide +kernel⟩

theorem isCutOut_documentedUserBlock :
    (userBlock 5 "d").IsCutOut documentedUserText
      { models := [{ name := "R", fields := [{ name := "i", type := "Int" }] },
          userModel .object "d"] }
      [{ kind := .model, name := "R", line := 1, documentation := none
         body := [⟨2, "i Int"⟩] }] where
  read := by decide +kernel
  split := ⟨[], by decide +kernel⟩
  kind := rfl
  previous := by
    rintro last ⟨⟩
    exact ⟨documentedUserText.take 17, documentedUserText.drop 19,
      by decide +kernel, by decide +kernel⟩
  closing := ⟨documentedUserText.take 60, documentedUserText.drop 62,
    by decide +kernel, by decide +kernel⟩

/-- The documents differ around the user, and in what a role is. -/
theorem Model.mined_of_same_rows_user :
    ((userModel .enum none).fields.map fun field => (field.name, field.extras)) =
        ((userModel .object "d").fields.map fun field =>
          (field.name, field.extras)) ∧
      (userModel .enum none).extraIndexes = (userModel .object "d").extraIndexes ∧
      (userModel .enum none).isStub = (userModel .object "d").isStub := by
  obtain ⟨fields, indexes, stubs⟩ :=
    mined_of_same_rows isCutOut_userBlock isCutOut_documentedUserBlock
      (by decide +kernel) List.mem_cons_self rfl
      (List.mem_cons_of_mem _ List.mem_cons_self) rfl
  exact ⟨fields, indexes, stubs (by decide +kernel)⟩

end SchemaCompose
