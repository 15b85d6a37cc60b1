import SchemaCompose.Proofs.Mining.Extras
import SchemaCompose.Proofs.RoundTrip.Blocks

/-!
# Cuts of a generated file

The closing braces of a generated file are the only ones that start a line, so that
its cuts are its blocks, and what is recovered from a block is recovered from its
rows alone (`ofText_fileRows`).
-/

namespace SchemaCompose.Mining

open Text

/-! ## Cuts -/

variable {rest row : Text} {rows lead : List Text}

theorem cuts_cons
    {c : Char} {cut : Text} {others : List Text}
    (open_ : c ≠ '\n' ∨ rest.head? ≠ some '}')
    (behind : cuts rest = cut :: others) :
    cuts (c :: rest) = (c :: cut) :: others := by
  rw [cuts.eq_def]
  split
  · contradiction
  · rename_i further same
    rw [List.cons.injEq] at same
    rw [same.1, same.2] at open_
    simp at open_
  · rename_i first further _ same
    rw [List.cons.injEq] at same
    obtain ⟨rfl, rfl⟩ := same
    rw [behind]

theorem cuts_line
    (single : IsLine row) {cut : Text} {others : List Text}
    (behind : cuts rest = cut :: others) :
    cuts (row ++ rest) = (row ++ cut) :: others := by
  induction row with
  | nil => exact behind
  | cons c row ih =>
      rw [isLine_cons] at single
      have inside : c ≠ '\n' := by
        rintro rfl
        exact absurd single.1 (by decide)
      exact cuts_cons (Or.inl inside) (ih single.2)

theorem head?_unlines_append
    (opened : ∀ row ∈ rows, row.head? ≠ some '}') (other : rest.head? ≠ some '}') :
    (unlines rows ++ rest).head? ≠ some '}' := by
  cases rows with
  | nil => exact other
  | cons row rows =>
      rw [List.forall_mem_cons] at opened
      cases row with
      | cons c row =>
          cases rows with
          | nil => exact opened.1
          | cons next rows => exact opened.1
      | nil =>
          cases rows with
          | nil => exact other
          | cons next rows =>
              rw [unlines_cons_cons]
              simp

/-- A closing brace ends the cut of the rows before it. -/
theorem cuts_unlines
    (filled : rows ≠ []) (single : ∀ row ∈ rows, IsLine row)
    (opened : ∀ row ∈ rows, row.head? ≠ some '}') (rest : Text) :
    cuts (unlines rows ++ '\n' :: '}' :: rest) = unlines rows :: cuts rest := by
  have closed : cuts ('\n' :: '}' :: rest) = [] :: cuts rest := by
    rw [cuts]
  induction rows with
  | nil => contradiction
  | cons row rows ih =>
      rw [List.forall_mem_cons] at single opened
      cases rows with
      | nil =>
          have one := cuts_line single.1 closed
          rwa [List.append_nil] at one
      | cons next rows =>
          have other := head?_unlines_append opened.2
            (show ('\n' :: '}' :: rest).head? ≠ some '}' by simp)
          have feed :
              cuts ('\n' :: (unlines (next :: rows) ++ '\n' :: '}' :: rest)) =
              ('\n' :: unlines (next :: rows)) :: cuts rest :=
            cuts_cons (Or.inr other) (ih (by simp) single.2 opened.2)
          rw [unlines_cons_cons, List.append_assoc, List.cons_append]
          exact cuts_line single.1 feed

/-- An empty line behind the last feed is no row of a cut. -/
theorem filter_trim_tail {tail : List Text} (blank : tail = [] ∨ tail = [[]]) :
    (tail.map trim).filter (!·.isEmpty) = [] := by
  rcases blank with rfl | rfl
  · rfl
  · rfl

/-- The lines of a cut are the rows that were written, without the blank ones. -/
theorem linesOf_unlines (single : ∀ row ∈ rows, IsLine row) :
    linesOf (unlines rows) = (rows.map trim).filter (!·.isEmpty) := by
  obtain ⟨tail, same, blank⟩ := exists_lines_unlines single
  rw [linesOf]
  conv_rhs => rw [same]
  rw [List.map_append, List.filter_append, filter_trim_tail blank, List.append_nil]

/-! ## Headers -/

theorem exists_of_nameBeforeBrace
    {name found : Text} (cutOff : nameBeforeBrace name = some found) :
    ∃ tail, name = found ++ '\x7b' :: tail ∧ found ≠ [] := by
  rw [nameBeforeBrace] at cutOff
  split at cutOff
  · rename_i brace c kept same
    obtain rfl := Option.some.inj cutOff
    have opening := List.head?_dropWhile_not (· ≠ '\x7b') name.reverse
    rw [same] at opening
    obtain rfl : brace = '\x7b' := by simpa using opening
    have whole := List.takeWhile_append_dropWhile (p := (· ≠ '\x7b'))
      (l := name.reverse)
    rw [same] at whole
    refine ⟨(name.reverse.takeWhile (· ≠ '\x7b')).reverse, ?_, by simp⟩
    have reversed := congrArg List.reverse whole
    rw [List.reverse_reverse] at reversed
    conv_lhs => rw [← reversed]
    simp
  · contradiction

/-- The name in a header stands behind the keyword, and a brace stands behind the
name. -/
theorem exists_of_modelName?
    {line name : Text} (found : modelName? line = some name) :
    ∃ behind between tail, line = "model" ++ behind ∧
      behind.head?.any isBlank = true ∧ name ≠ [] ∧
      trimStart behind = name ++ between ++ '\x7b' :: tail ∧
      ∀ c ∈ between, isBlank c = true := by
  rw [modelName?] at found
  simp only [Option.bind_eq_bind, Option.bind_eq_some_iff,
    Option.guard_eq_some'] at found
  obtain ⟨behind, start, _, blank, _, filled, named⟩ := found
  have whole := List.takeWhile_append_dropWhile (p := (!isBlank ·))
    (l := trimStart behind)
  split at named
  · rename_i brace
    obtain rfl := Option.some.inj named
    obtain ⟨tail, opened⟩ := List.head?_eq_some_iff.mp brace
    have gap := List.takeWhile_append_dropWhile (p := isBlank)
      (l := (trimStart behind).dropWhile (!isBlank ·))
    rw [← trimStart, opened] at gap
    refine ⟨behind, ((trimStart behind).dropWhile (!isBlank ·)).takeWhile isBlank,
      tail, eq_append_of_after? start, blank, by simpa using filled, ?_,
      fun c member => List.mem_takeWhile_imp member⟩
    rw [List.append_assoc, gap, whole]
  · obtain ⟨tail, cutOff, kept⟩ := exists_of_nameBeforeBrace named
    refine ⟨behind, [], tail ++ (trimStart behind).dropWhile (!isBlank ·),
      eq_append_of_after? start, blank, kept, ?_, by simp⟩
    conv_lhs => rw [← whole, cutOff]
    simp

/-- A header starts with a word, so that a line that starts with another word is
none. -/
theorem exists_of_modelName?_append
    {word behind name : Text} (run : ∀ c ∈ word, isWord c = true)
    (ends : ∀ c ∈ behind.head?, isWord c = false)
    (found : modelName? (word ++ behind) = some name) :
    behind.head?.any isBlank = true ∧ name ≠ [] ∧
      name.head? = (trimStart behind).head? := by
  obtain ⟨further, between, tail, same, blank, filled, start, _⟩ :=
    exists_of_modelName? found
  have first : name.head? = (trimStart further).head? := by
    rw [start, List.append_assoc, List.head?_append_of_ne_nil _ filled]
  have keyword : ∀ c ∈ "model".toList, isWord c = true := by decide
  have apart : ∀ c ∈ further.head?, isWord c = false := by
    intro c start
    apply not_isWord_of_isBlank
    rw [start] at blank
    exact blank
  have left := takeWhile_append_of_head run ends
  have right := takeWhile_append_of_head keyword apart
  rw [same, right.2] at left
  rw [← left.2]
  exact ⟨blank, filled, first⟩

/-- The row is not the header of a model with a proper name. -/
def IsUnheaded (row : Text) : Prop :=
  ∀ name, modelName? row = some name → ¬ IsName name

theorem isUnheaded_append
    {word behind : Text} (run : ∀ c ∈ word, isWord c = true)
    (ends : ∀ c ∈ behind.head?, isWord c = false)
    (junk : ∀ c ∈ (trimStart behind).head?, isWord c = false) :
    IsUnheaded (word ++ behind) := by
  intro name found isName
  obtain ⟨_, filled, first⟩ := exists_of_modelName?_append run ends found
  obtain ⟨c, others, rfl⟩ := List.exists_cons_of_ne_nil filled
  have other := junk c first.symm
  rw [isName.isWord c List.mem_cons_self] at other
  contradiction

theorem modelName?_header {name : Text} (isName : IsName name) :
    modelName? ("model" ++ ' ' :: (name ++ [' ', '\x7b'])) = some name := by
  obtain ⟨taken, dropped⟩ :=
    isName.takeWhile_visible
      (show ∀ c ∈ [' ', '\x7b'].head?, isBlank c = true by decide)
  have start := isName.trimStart_space [' ', '\x7b']
  have filled : name.isEmpty = false := by
    simpa using isName.ne_nil
  have blank :
      Option.any isBlank (' ' :: (name ++ [' ', '\x7b'])).head? = true := rfl
  rw [modelName?, after?_append]
  simp only [Option.bind_eq_bind, Option.bind_some, blank, start, taken, dropped,
    filled]
  rfl

/-! ## Recording blocks -/

/-- What is recovered from a document when the rows of one more cut are taken in. -/
def record (mined : Mined) (rows : List Text) : Mined :=
  match headerName? rows with
  | some name => mined.put name (ofLines rows)
  | none => mined

/-- A row that is a comment and marks no stub. -/
def IsRemark (row : Text) : Prop :=
  isComment row = true ∧ isStubComment row = false

instance : DecidablePred IsRemark := fun row =>
  inferInstanceAs (Decidable (isComment row = true ∧ isStubComment row = false))

theorem keepLine_of_isRemark (isRemark : IsRemark row) (mined : MinedModel) :
    keepLine mined row = mined := by
  rw [keepLine, if_pos isRemark.1, isRemark.2, Bool.or_false]

theorem foldl_keepLine_of_isRemark (remarks : ∀ row ∈ lead, IsRemark row)
    (mined : MinedModel) :
    lead.foldl keepLine mined = mined := by
  induction lead with
  | nil => rfl
  | cons row lead ih =>
      rw [List.forall_mem_cons] at remarks
      rw [List.foldl_cons, keepLine_of_isRemark remarks.1, ih remarks.2]

theorem headerName?_append_of_isRemark (remarks : ∀ row ∈ lead, IsRemark row)
    (rows : List Text) :
    headerName? (lead ++ rows) = headerName? rows := by
  have none : lead.filter (!isComment ·) = [] := by
    rw [List.filter_eq_nil_iff]
    intro row member
    simp [(remarks row member).1]
  rw [headerName?, List.filter_append, none]
  rfl

theorem record_append_of_isRemark
    (remarks : ∀ row ∈ lead, IsRemark row) (mined : Mined) (rows : List Text) :
    record mined (lead ++ rows) = record mined rows := by
  rw [record, headerName?_append_of_isRemark remarks, ofLines, List.foldl_append,
    foldl_keepLine_of_isRemark remarks]
  rfl

theorem find?_record_of_other
    {name : Text} (other : headerName? rows ≠ some name) (mined : Mined) :
    Registry.find? name (record mined rows) = Registry.find? name mined := by
  rw [record]
  split
  · rename_i header found
    apply Registry.find?_put_of_ne
    rintro rfl
    exact other found
  · rfl

theorem find?_foldl_record_of_other
    {name : Text} {cuts : List (List Text)}
    (others : ∀ rows ∈ cuts, headerName? rows ≠ some name) (mined : Mined) :
    Registry.find? name (cuts.foldl record mined) = Registry.find? name mined := by
  induction cuts generalizing mined with
  | nil => rfl
  | cons rows cuts ih =>
      rw [List.forall_mem_cons] at others
      rw [List.foldl_cons, ih others.2, find?_record_of_other others.1]

/-- What is found under a name is what the last cut of that name gives. -/
theorem find?_foldl_record
    {before after : List (List Text)} {name : Text}
    (own : headerName? rows = some name)
    (others : ∀ other ∈ after, headerName? other ≠ some name) (mined : Mined) :
    Registry.find? name ((before ++ rows :: after).foldl record mined) =
      some (ofLines rows) := by
  rw [List.foldl_append, List.foldl_cons, find?_foldl_record_of_other others,
    record, own]
  exact Registry.find?_put_self name _ _

theorem isRemark_documentationRow {text : Text} (trimmed : IsTrimmed text) :
    IsRemark (documentationRow text) := by
  have start : ∀ rest, IsRemark ('/' :: '/' :: '/' :: rest) := by
    intro rest
    refine ⟨rfl, ?_⟩
    by_contra stub
    rw [Bool.not_eq_false] at stub
    obtain ⟨gap, behind, same, blank⟩ :=
      opensDirective_iff.mp (opensDirective_of_isDirective stub)
    cases gap with
    | nil => simp at same
    | cons c gap =>
        obtain ⟨rfl, _⟩ : '/' = c ∧ rest = gap ++ '@' :: behind := by
          simpa using same
        have visible := blank '/' List.mem_cons_self
        contradiction
  rcases documentationRow_cases trimmed with ⟨_, row⟩ | ⟨_, row⟩
  · rw [row]
    exact start []
  · rw [row]
    exact start (' ' :: text)

end SchemaCompose.Mining

namespace SchemaCompose.BlockText

open Mining

variable {block : BlockText} {blocks : List BlockText}

theorem isRemark_documentationLines (readable : block.IsReadable) :
    ∀ row ∈ documentationLines block.documentation, IsRemark row := by
  rw [documentationLines_eq, List.forall_mem_map]
  intro text member
  exact isRemark_documentationRow
    (isTrimmed_documentationTexts readable.documentation text member).1

/-- The rows that a block leaves for what is recovered from it. -/
def minedRows (block : BlockText) : List Text :=
  block.innerRows.filter (!·.isEmpty)

/-- The rows of the block before its closing brace, as they are written. -/
def openRows (block : BlockText) : List Text :=
  documentationLines block.documentation ++ [block.header] ++
    block.body.map indented

theorem map_trim_openRows (readable : block.IsReadable) :
    block.openRows.map Text.trim = block.innerRows := by
  have whole := map_trim_rows readable
  rw [rows, List.map_append] at whole
  exact List.append_cancel_right whole

theorem isLine_of_mem_openRows (readable : block.IsReadable) :
    ∀ row ∈ block.openRows, Text.IsLine row := by
  intro row member
  apply isLine_of_mem_rows readable
  exact List.mem_append_left _ (List.mem_append_left _ member)

theorem opened_of_mem_openRows (readable : block.IsReadable) :
    ∀ row ∈ block.openRows, row.head? ≠ some '}' := by
  rw [openRows]
  simp only [List.forall_mem_append, List.forall_mem_map, List.forall_mem_singleton]
  refine ⟨⟨?_, ?_⟩, ?_⟩
  · exact fun row member => (readable.documentationLines row member).opened
  · intro closing
    have letter := head?_header block '}' closing
    contradiction
  · intro row _
    cases row with
    | nil => simp [indented]
    | cons c row =>
        show (' ' :: ' ' :: c :: row).head? ≠ some '}'
        simp

/-- Rows that may stand in front of a block, and give nothing. -/
structure IsLead (lead : List Text) : Prop where
  filled : lead ≠ []
  single : ∀ row ∈ lead, Text.IsLine row
  opened : ∀ row ∈ lead, row.head? ≠ some '}'
  remarks : ∀ row ∈ (lead.map Text.trim).filter (!·.isEmpty), IsRemark row
  alone : cuts (Text.unlines lead) = [Text.unlines lead]

theorem isLead_generatedBanner : IsLead [generatedBanner] := by
  constructor <;> decide

/-- The rows between two blocks, where the first one is what the closing brace
leaves of its row. -/
theorem isLead_blank : IsLead [[], []] := by
  constructor <;> decide

theorem unlines_rows {lead : List Text} (filled : lead ≠ []) (more : List Text) :
    Text.unlines (lead ++ (block.rows ++ [[]] ++ more)) =
      Text.unlines (lead ++ block.openRows) ++
        '\n' :: '}' :: Text.unlines ([[], []] ++ more) := by
  have split : lead ++ (block.rows ++ [[]] ++ more) =
      (lead ++ block.openRows) ++ (['}'] :: [] :: more) := by
    simp [rows, openRows]
  rw [split, Text.unlines_append (by simp [filled]) (by simp),
    Text.unlines_cons_cons]
  show _ = _ ++ '\n' :: '}' :: Text.unlines ([] :: [] :: more)
  rw [Text.unlines_cons_cons [] []]
  rfl

theorem record_linesOf
    (readable : block.IsReadable) {lead : List Text} (isLead : IsLead lead)
    (mined : Mined) :
    record mined (linesOf (Text.unlines (lead ++ block.openRows))) =
      record mined block.minedRows := by
  rw [linesOf_unlines
      (List.forall_mem_append.mpr ⟨isLead.single, isLine_of_mem_openRows readable⟩),
    List.map_append, List.filter_append, map_trim_openRows readable,
    record_append_of_isRemark isLead.remarks]
  rfl

theorem foldl_record_cuts
    (readable : ∀ block ∈ blocks, block.IsReadable) {lead : List Text}
    (isLead : IsLead lead)
    (mined : Mined) :
    (cuts (Text.unlines
      (lead ++ blocks.flatMap fun block => block.rows ++ [[]]))).foldl
        (fun mined cut => record mined (linesOf cut)) mined =
      blocks.foldl (fun mined block => record mined block.minedRows) mined := by
  induction blocks generalizing lead mined with
  | nil =>
      have none := record_append_of_isRemark isLead.remarks mined []
      rw [List.append_nil] at none
      rw [List.flatMap_nil, List.append_nil, isLead.alone, List.foldl_cons,
        linesOf_unlines isLead.single, none]
      rfl
  | cons block others ih =>
      rw [List.forall_mem_cons] at readable
      have cut :
          ∀ rest,
          cuts (Text.unlines (lead ++ block.openRows) ++ '\n' :: '}' :: rest) =
          Text.unlines (lead ++ block.openRows) :: cuts rest :=
        cuts_unlines (by simp [isLead.filled])
          (List.forall_mem_append.mpr
            ⟨isLead.single, isLine_of_mem_openRows readable.1⟩)
          (List.forall_mem_append.mpr
            ⟨isLead.opened, opened_of_mem_openRows readable.1⟩)
      rw [List.flatMap_cons, unlines_rows isLead.filled, cut, List.foldl_cons,
        record_linesOf readable.1 isLead, ih readable.2 isLead_blank]
      rfl

/-- What is recovered from a generated file is recovered from its blocks one by
one. -/
theorem ofText_fileRows (readable : ∀ block ∈ blocks, block.IsReadable) :
    Mining.ofText (Text.unlines (fileRows blocks)) =
      blocks.foldl (fun mined block => record mined block.minedRows) [] := by
  exact foldl_record_cuts readable isLead_generatedBanner []

/-! ## Names of blocks -/

theorem not_isComment_header (block : BlockText) :
    isComment block.header = false := by
  have other : block.header.head? ≠ some '/' := by
    intro slash
    have letter := head?_header block '/' slash
    contradiction
  rw [isComment, Text.startsWith, Text.after?_of_head? rfl other]
  rfl

theorem minedRows_eq (readable : block.IsReadable) :
    ∃ lead, (∀ row ∈ lead, IsRemark row) ∧
      block.minedRows = lead ++ block.header :: block.body.filter (!·.isEmpty) := by
  refine ⟨(documentationLines block.documentation).filter (!·.isEmpty), ?_, ?_⟩
  · intro row member
    exact isRemark_documentationLines readable row (List.mem_of_mem_filter member)
  · have filled : block.header.isEmpty = false := by
      rw [header_eq]
      simp
    rw [minedRows, innerRows, List.filter_append, List.filter_append,
      List.filter_cons, filled]
    simp

/-- A block of a model is recorded under the name of the model. -/
theorem headerName?_of_model (readable : block.IsReadable)
    (kind : block.kind = .model) :
    headerName? block.minedRows = some block.name := by
  obtain ⟨lead, remarks, rows⟩ := minedRows_eq readable
  have named : modelName? block.header = some block.name := by
    rw [header_eq, kind]
    exact modelName?_header readable.name
  rw [rows, headerName?_append_of_isRemark remarks, headerName?, List.filter_cons,
    not_isComment_header, Bool.not_false, if_pos rfl, List.findSome?_cons, named]

theorem isUnheaded_header (other : block.kind ≠ .model) :
    IsUnheaded block.header := by
  intro name found
  obtain ⟨behind, _, _, same, _⟩ := exists_of_modelName? found
  have first : block.kind.keyword.head? = some 'm' := by
    rw [header_eq] at same
    cases keyword : block.kind.keyword with
    | nil => exact absurd keyword (keyword_ne_nil block.kind)
    | cons c rest =>
        rw [keyword] at same
        exact congrArg List.head? same
  cases kind : block.kind with
  | model => contradiction
  | enum => rw [kind] at first; contradiction
  | datasource => rw [kind] at first; contradiction
  | generator => rw [kind] at first; contradiction

/-- No other block is recorded under a proper name. -/
theorem headerName?_of_other
    (readable : block.IsReadable) (other : block.kind ≠ .model)
    (body : ∀ row ∈ block.body, IsUnheaded row) {name : Text}
    (isName : Text.IsName name) :
    headerName? block.minedRows ≠ some name := by
  obtain ⟨lead, remarks, rows⟩ := minedRows_eq readable
  rw [rows, headerName?_append_of_isRemark remarks]
  intro found
  obtain ⟨row, member, named⟩ := List.exists_of_findSome?_eq_some found
  rcases List.mem_cons.mp (List.mem_of_mem_filter member) with rfl | inBody
  · exact isUnheaded_header other name named isName
  · exact body row (List.mem_of_mem_filter inBody) name named isName

end SchemaCompose.BlockText
