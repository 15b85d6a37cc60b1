import SchemaCompose.Composition
import SchemaCompose.Proofs.Reading.Layout
import SchemaCompose.Proofs.RoundTrip.Writable
import SchemaCompose.Schema.Block

/-!
# Blocks that are written out

A block is written as rows: its documentation, its header, its body behind an
indentation, and a closing brace.  Splitting the lines of a document that consists
of such rows gives the blocks again, each with its header, the lines of its body and
what its documentation is read as; the numbers of the lines are new
(`Block.split_rows`).
-/

namespace SchemaCompose

/-- A block before it is written: what its header says, and the rows of its body. -/
structure BlockText where
  kind : BlockKind
  name : Text
  documentation : Option Text := none
  body : List Text

/-- A row that may stand in the body of a block. -/
structure IsBodyRow (row : Text) : Prop where
  trimmed : Text.IsTrimmed row
  single : Text.IsLine row
  opened : row.head? ≠ some '}'

namespace BlockText

/-- The row that opens the block. -/
def header (block : BlockText) : Text :=
  block.kind.keyword ++ " " ++ block.name ++ " \x7b"

/-- The rows up to the closing brace, without their indentation. -/
def innerRows (block : BlockText) : List Text :=
  documentationLines block.documentation ++ [block.header] ++ block.body

/-- The rows of the block as they are written. -/
def rows (block : BlockText) : List Text :=
  documentationLines block.documentation ++ [block.header] ++
    block.body.map indented ++ [['}']]

/-- The block can be read back. -/
structure IsReadable (block : BlockText) : Prop where
  name : Text.IsName block.name
  documentation : ∀ text ∈ block.documentation, IsDocumented text
  body : ∀ row ∈ block.body, IsBodyRow row

/-- A block that is cut from a document has the header and the body that were
written. -/
structure IsReadAs (block : BlockText) (read : Block) : Prop where
  kind : read.kind = block.kind
  name : read.name = block.name
  documentation : read.documentation = rereadDocumentation block.documentation
  body : read.body.map (·.text) = block.body

end BlockText

/-! ## Rows that are read one by one -/

/-- Where every row gives one more item, a row of rows gives all of them. -/
theorem foldlM_rows_of_step
    {α σ ε : Type} {write : α → Text} {step : σ → Line → Except ε σ}
    (state : List α → σ)
    {items : List α}
    (stepped : ∀ item ∈ items, ∀ line : Line, line.text = write item →
      ∀ before, step (state before) line = .ok (state (before ++ [item])))
    {lines : List Line} (rows : lines.map (·.text) = items.map write)
    (before : List α) :
    lines.foldlM step (state before) = .ok (state (before ++ items)) := by
  induction items generalizing lines before with
  | nil =>
      rw [List.map_nil, List.map_eq_nil_iff] at rows
      rw [rows, List.append_nil]
      rfl
  | cons item others ih =>
      rw [List.forall_mem_cons] at stepped
      obtain ⟨line, further, rfl, row, behind⟩ := List.map_eq_cons_iff.mp rows
      rw [List.foldlM_cons, stepped.1 line row, Reading.ok_bind,
        ih stepped.2 behind, List.append_assoc]
      rfl

/-! ## Documentation -/

/-- The row of one line of documentation. -/
def documentationRow (text : Text) : Text :=
  Text.trimEnd ("/// " ++ text)

theorem documentationLines_eq (documentation : Option Text) :
    documentationLines documentation =
      (documentationTexts documentation).map documentationRow := by
  cases documentation with
  | none => rfl
  | some text => rfl

theorem documentationRow_cases {text : Text} (trimmed : Text.IsTrimmed text) :
    text = [] ∧ documentationRow text = "///" ∨
      text ≠ [] ∧ documentationRow text = "/// " ++ text := by
  cases text with
  | nil => exact Or.inl ⟨rfl, by decide⟩
  | cons c rest =>
      refine Or.inr ⟨List.cons_ne_nil c rest, ?_⟩
      rw [documentationRow, Text.trimEnd_of_last]
      intro d last
      rw [List.getLast?_append_cons] at last
      exact trimmed.not_blank_of_getLast? d last

theorem after?_documentationRow {text : Text} (trimmed : Text.IsTrimmed text) :
    (Text.after? "///" (documentationRow text)).map Text.trim = some text := by
  rcases documentationRow_cases trimmed with ⟨rfl, row⟩ | ⟨_, row⟩
  · rw [row]
    rfl
  · have behind :
        Text.trim ([' '] ++ text) = text := trimmed.trim_append (by decide)
    have split : "/// ".toList ++ text = "///".toList ++ ([' '] ++ text) := rfl
    rw [row, split, Text.after?_append, Option.map_some, behind]

theorem isBodyRow_documentationRow
    {text : Text} (trimmed : Text.IsTrimmed text) (single : Text.IsLine text) :
    IsBodyRow (documentationRow text) := by
  rcases documentationRow_cases trimmed with ⟨rfl, row⟩ | ⟨filled, row⟩
  · rw [row]
    exact ⟨by decide, by decide, by decide⟩
  · rw [row]
    refine ⟨?_, Text.isLine_append.mpr ⟨by decide, single⟩, by simp⟩
    have around :=
      Text.IsTrimmed.around (show Text.IsTrimmed "///".toList by decide) (by decide)
      trimmed filled [' ']
    exact around

theorem isTrimmed_documentationTexts
    {documentation : Option Text}
    (readable : ∀ text ∈ documentation, IsDocumented text) :
    ∀ text ∈ documentationTexts documentation, Text.IsTrimmed text ∧
      Text.IsLine text := by
  cases documentation with
  | none => simp [documentationTexts]
  | some text =>
      intro line member
      exact ⟨readable text rfl line member, Text.isLine_of_mem_lines line member⟩

theorem Line.documentation?_of_row
    {line : Line} {text : Text} (row : line.text = documentationRow text)
    (trimmed : Text.IsTrimmed text) : line.documentation? = some text := by
  rw [Line.documentation?, row]
  exact after?_documentationRow trimmed

theorem Line.documentation?_of_head
    {line : Line} (plain : line.text.head? ≠ some '/') :
    line.documentation? = none := by
  rw [Line.documentation?,
    Text.after?_of_head? (show "///".toList.head? = some '/' from rfl) plain]
  rfl

/-! ## Code -/

theorem IsBodyRow.code_ne {row : Text} (isBodyRow : IsBodyRow row) :
    Text.code row ≠ ['}'] := by
  intro closing
  have starts := Text.prefix_code row
  rw [closing] at starts
  obtain ⟨rest, rfl⟩ := starts
  exact isBodyRow.opened rfl

theorem Attribute.isBodyRow_write
    {source : Attribute} (written : source.IsWritten)
    (single : ∀ inner ∈ source.arguments, Text.IsLine inner) :
    IsBodyRow source.write := by
  refine ⟨isTrimmed_write written, isLine_write written single, ?_⟩
  obtain ⟨rest, row⟩ := exists_cons_write written
  simp [row]

theorem Attribute.code_write {source : Attribute} (written : source.IsWritten) :
    Text.code source.write = source.write := by
  rw [Text.code, (balanced_write written).silent,
    (isTrimmed_write written).trimEnd_eq]

/-! ## Headers -/

namespace BlockText

variable {block : BlockText}

theorem header_eq (block : BlockText) :
    block.header = block.kind.keyword ++ ' ' :: (block.name ++ [' ', '\x7b']) := by
  rw [header, List.append_assoc, List.append_assoc]
  rfl

theorem alphabetic_keyword (kind : BlockKind) :
    ∀ c ∈ kind.keyword, c.isAlpha = true := by
  cases kind <;> decide

theorem isLine_keyword (kind : BlockKind) : Text.IsLine kind.keyword := by
  cases kind <;> decide

theorem isTrimmed_keyword (kind : BlockKind) : Text.IsTrimmed kind.keyword := by
  cases kind <;> decide

theorem keyword_ne_nil (kind : BlockKind) : kind.keyword ≠ [] := by
  cases kind <;> decide

theorem slash_not_mem_keyword (kind : BlockKind) : '/' ∉ kind.keyword := by
  cases kind <;> decide

theorem isTrimmed_header (block : BlockText) : Text.IsTrimmed block.header := by
  have around := (isTrimmed_keyword block.kind).around (keyword_ne_nil block.kind)
    (show Text.IsTrimmed ['\x7b'] by decide) (by decide)
      (' ' :: (block.name ++ [' ']))
  rw [header_eq]
  simpa using around

theorem head?_header (block : BlockText) :
    ∀ c ∈ block.header.head?, c.isAlpha = true := by
  intro c first
  rw [header_eq] at first
  apply alphabetic_keyword block.kind
  cases keyword : block.kind.keyword with
  | nil => exact absurd keyword (keyword_ne_nil block.kind)
  | cons d rest =>
      rw [keyword] at first
      rw [← Option.some.inj first]
      exact List.mem_cons_self

theorem isLine_header (isName : Text.IsName block.name) :
    Text.IsLine block.header := by
  rw [header_eq]
  simp only [Text.isLine_append, Text.isLine_cons]
  exact ⟨isLine_keyword block.kind, by decide, isName.isLine, by decide,
    by decide, Text.isLine_nil⟩

theorem code_header (isName : Text.IsName block.name) :
    Text.code block.header = block.header := by
  have plain : '/' ∉ block.header := by
    rw [header_eq]
    simp [slash_not_mem_keyword,
      isName.not_mem (show Text.isWord '/' = false by decide)]
  rw [Text.code, Text.beforeComment_of_no_slash plain,
    (isTrimmed_header block).trimEnd_eq]

theorem header?_header (isName : Text.IsName block.name) :
    Block.header? block.header = some (block.kind.keyword, block.name) := by
  have space : ∀ c ∈ (' ' :: (block.name ++ [' ', '\x7b'])).head?,
      c.isAlpha = false := by
    rintro c ⟨⟩
    decide
  obtain ⟨taken, dropped⟩ :=
    Text.takeWhile_append_of_head (alphabetic_keyword block.kind) space
  have name := isName.trimStart_space [' ', '\x7b']
  have read :=
    isName.identifier?_append (show Text.atWordEnd [' ', '\x7b'] = true by decide)
  have keyword : block.kind.keyword.isEmpty = false := by
    simpa using keyword_ne_nil block.kind
  rw [Block.header?, header_eq, taken, dropped]
  simp only [keyword, name, read]
  rfl

end BlockText

/-! ## Splitting -/

namespace Block

open Splitting

variable {block : BlockText}

theorem foldlM_documentation
    {texts : List Text} (trimmed : ∀ text ∈ texts, Text.IsTrimmed text)
    {lines : List Line}
    (rows : lines.map (·.text) = texts.map documentationRow)
    (complete : List Block) :
    lines.foldlM step ⟨complete, .between []⟩ = .ok ⟨complete, .between texts⟩ := by
  apply foldlM_rows_of_step
    (fun before => (⟨complete, .between before⟩ : Splitting)) _ rows []
  intro text member line row before
  simp only [step, Line.documentation?_of_row row (trimmed text member)]

theorem step_header
    (isName : Text.IsName block.name) {line : Line} (row : line.text = block.header)
    (complete : List Block) (documentation : List Text) :
    step ⟨complete, .between documentation⟩ line =
      .ok ⟨complete, .within
        { kind := block.kind, name := block.name, line := line.number
          documentation := joinDocumentation documentation, body := [] }⟩ := by
  have code : line.code = block.header := by
    rw [Line.code, row, BlockText.code_header isName]
  have none : line.documentation? = none := by
    apply Line.documentation?_of_head
    intro slash
    rw [row] at slash
    have alphabetic := BlockText.head?_header block '/' slash
    contradiction
  have filled : block.header.isEmpty = false := by
    rw [BlockText.header_eq]
    simp
  simp only [step, none, code, row, filled, Bool.false_eq_true, if_false,
    BlockText.header?_header isName, BlockKind.ofKeyword?_keyword]

theorem step_closing
    {line : Line} (row : line.text = ['}']) (complete : List Block) (read : Block) :
    step ⟨complete, .within read⟩ line = .ok ⟨complete ++ [read], .between []⟩ := by
  have closing : line.code = ['}'] := by
    rw [Line.code, row]
    decide
  simp only [step, closing, if_true]

/-- The rows of one block give the block. -/
theorem foldlM_rows
    (readable : block.IsReadable) {lines : List Line}
    (rows : lines.map (·.text) = block.innerRows ++ [['}']])
    (complete : List Block) :
    ∃ read, block.IsReadAs read ∧
      lines.foldlM step ⟨complete, .between []⟩ =
        .ok ⟨complete ++ [read], .between []⟩ := by
  rw [BlockText.innerRows, documentationLines_eq] at rows
  obtain ⟨inner, last, rfl, innerRows, lastRow⟩ := List.map_eq_append_iff.mp rows
  obtain ⟨upper, body, rfl, upperRows, bodyRows⟩ :=
    List.map_eq_append_iff.mp innerRows
  obtain ⟨documented, opening, rfl, documentedRows, openingRow⟩ :=
    List.map_eq_append_iff.mp upperRows
  obtain ⟨header, rfl, headerRow⟩ := List.map_eq_singleton_iff.mp openingRow
  obtain ⟨closing, rfl, closingRow⟩ := List.map_eq_singleton_iff.mp lastRow
  have texts := isTrimmed_documentationTexts readable.documentation
  have isBody : ∀ line ∈ body, IsBodyRow line.text := by
    intro line member
    apply readable.body
    rw [← bodyRows]
    exact List.mem_map_of_mem member
  refine ⟨{ kind := block.kind, name := block.name, line := header.number
            documentation := rereadDocumentation block.documentation, body },
              ⟨rfl, rfl, rfl, bodyRows⟩, ?_⟩
  rw [List.foldlM_append, List.foldlM_append, List.foldlM_append,
    foldlM_documentation (fun text member => (texts text member).1) documentedRows,
    Reading.ok_bind, List.foldlM_cons, step_header readable.name headerRow,
    Reading.ok_bind, List.foldlM_nil, pure_bind,
    foldlM_within fun line member => (isBody line member).code_ne, Reading.ok_bind,
    List.foldlM_cons, step_closing closingRow]
  rfl

/-- The rows of a row of blocks, with a blank row behind each, give the blocks. -/
theorem foldlM_blocks
    {blocks : List BlockText} (readable : ∀ block ∈ blocks, block.IsReadable)
    {lines : List Line}
    (rows : lines.map (·.text) = blocks.flatMap fun block =>
      block.innerRows ++ [['}'], []])
    (complete : List Block) :
    ∃ reads, List.Forall₂ BlockText.IsReadAs blocks reads ∧
      lines.foldlM step ⟨complete, .between []⟩ =
        .ok ⟨complete ++ reads, .between []⟩ := by
  induction blocks generalizing lines complete with
  | nil =>
      rw [List.flatMap_nil, List.map_eq_nil_iff] at rows
      refine ⟨[], .nil, ?_⟩
      rw [rows, List.append_nil]
      rfl
  | cons block others ih =>
      rw [List.forall_mem_cons] at readable
      rw [List.flatMap_cons, show [['}'], []] = [['}']] ++ [([] : Text)] from rfl,
        ← List.append_assoc] at rows
      obtain ⟨first, further, rfl, firstRows, furtherRows⟩ :=
        List.map_eq_append_iff.mp rows
      obtain ⟨own, last, rfl, ownRows, lastRow⟩ :=
        List.map_eq_append_iff.mp firstRows
      obtain ⟨blank, rfl, blankRow⟩ := List.map_eq_singleton_iff.mp lastRow
      obtain ⟨read, isRead, folded⟩ := foldlM_rows readable.1 ownRows complete
      obtain ⟨reads, areRead, foldedFurther⟩ :=
        ih readable.2 furtherRows (complete ++ [read])
      refine ⟨read :: reads, .cons isRead areRead, ?_⟩
      rw [List.foldlM_append, List.foldlM_append, folded, Reading.ok_bind,
        List.foldlM_cons, step_blank blankRow, Reading.ok_bind, List.foldlM_nil,
        pure_bind, foldedFurther, List.append_assoc]
      rfl

end Block

/-! ## Files -/

/-- The rows of a generated file. -/
def fileRows (blocks : List BlockText) : List Text :=
  generatedBanner :: blocks.flatMap fun block => block.rows ++ [[]]

theorem trim_indented {row : Text} (trimmed : Text.IsTrimmed row) :
    Text.trim (indented row) = row := by
  cases row with
  | nil => rfl
  | cons c rest =>
      have behind : Text.trim ([' ', ' '] ++ c :: rest) = c :: rest :=
        trimmed.trim_append (by decide)
      exact behind

theorem isLine_indented {row : Text} (single : Text.IsLine row) :
    Text.IsLine (indented row) := by
  cases row with
  | nil => exact single
  | cons c rest =>
      show Text.IsLine ([' ', ' '] ++ c :: rest)
      exact Text.isLine_append.mpr ⟨by decide, single⟩

namespace BlockText

variable {block : BlockText}

theorem IsReadable.documentationLines
    (readable : block.IsReadable) :
    ∀ row ∈ documentationLines block.documentation, IsBodyRow row := by
  rw [documentationLines_eq, List.forall_mem_map]
  intro text member
  obtain ⟨trimmed, single⟩ :=
    isTrimmed_documentationTexts readable.documentation text member
  exact isBodyRow_documentationRow trimmed single

theorem map_trim_rows (readable : block.IsReadable) :
    block.rows.map Text.trim = block.innerRows ++ [['}']] := by
  have documented :
      (SchemaCompose.documentationLines block.documentation).map Text.trim =
        SchemaCompose.documentationLines block.documentation := by
    rw [map_eq_self_iff]
    intro row member
    exact (readable.documentationLines row member).trimmed
  have body : (block.body.map indented).map Text.trim = block.body := by
    rw [List.map_map, map_eq_self_iff]
    intro row member
    exact trim_indented (readable.body row member).trimmed
  have header : Text.trim block.header = block.header := isTrimmed_header block
  rw [rows, List.map_append, List.map_append, List.map_append, documented, body]
  simp only [List.map_cons, List.map_nil, header]
  rfl

theorem isLine_of_mem_rows (readable : block.IsReadable) :
    ∀ row ∈ block.rows ++ [[]], Text.IsLine row := by
  rw [rows]
  simp only [List.forall_mem_append, List.forall_mem_map, List.forall_mem_singleton]
  refine ⟨⟨⟨⟨?_, isLine_header readable.name⟩, ?_⟩, by decide⟩, Text.isLine_nil⟩
  · exact fun row member => (readable.documentationLines row member).single
  · exact fun row member => isLine_indented (readable.body row member).single

end BlockText

variable {blocks : List BlockText}

theorem map_trim_fileRows (readable : ∀ block ∈ blocks, block.IsReadable) :
    (fileRows blocks).map Text.trim =
      generatedBanner :: blocks.flatMap fun block =>
        block.innerRows ++ [['}'], []] := by
  have banner : Text.trim generatedBanner = generatedBanner := by decide
  rw [fileRows, List.map_cons, banner, List.map_flatMap]
  congr 1
  apply List.flatMap_congr
  intro block member
  rw [List.map_append, BlockText.map_trim_rows (readable block member),
    List.append_assoc]
  rfl

theorem isLine_of_mem_fileRows (readable : ∀ block ∈ blocks, block.IsReadable) :
    ∀ row ∈ fileRows blocks, Text.IsLine row := by
  rw [fileRows, List.forall_mem_cons]
  refine ⟨by decide, ?_⟩
  intro row member
  obtain ⟨block, inFile, inBlock⟩ := List.mem_flatMap.mp member
  exact BlockText.isLine_of_mem_rows (readable block inFile) row inBlock

namespace Block

open Splitting

theorem step_generatedBanner {line : Line} (row : line.text = generatedBanner) :
    step {} line = .ok {} := by
  have none : line.documentation? = none := by
    rw [Line.documentation?, row]
    rfl
  have code : line.code = [] := by
    rw [Line.code, row]
    decide
  have filled : generatedBanner.isEmpty = false := rfl
  simp only [step, none, row, code, filled, Bool.false_eq_true, if_false,
    List.isEmpty_nil, if_true]

/-- A blank line at the end of a document does not matter. -/
theorem finish_of_blank
    {splitting final : Splitting} {line : Line} (row : line.text = [])
    (stepped : step splitting line = .ok final)
    (between : final.position = .between []) :
    finish splitting = .ok final.complete := by
  have code : line.code = [] := by
    rw [Line.code, row]
    rfl
  obtain ⟨complete, position⟩ := splitting
  cases position with
  | between documentation =>
      rw [step_blank row] at stepped
      cases stepped
      rfl
  | within read =>
      simp only [step, code, List.nil_eq, reduceCtorEq, if_false] at stepped
      cases stepped
      contradiction

/-- The blocks of a generated file are the blocks that were written. -/
theorem split_rows (readable : ∀ block ∈ blocks, block.IsReadable) :
    ∃ reads, List.Forall₂ BlockText.IsReadAs blocks reads ∧
      split (Line.ofText (Text.unlines (fileRows blocks))) = .ok reads := by
  obtain ⟨tail, rows, tailRows⟩ :=
    Text.exists_lines_unlines (isLine_of_mem_fileRows readable)
  have texts := map_trim_fileRows readable
  rw [← map_text_numbered 1] at texts
  obtain ⟨banner, further, numbers, bannerRow, furtherRows⟩ :=
    List.map_eq_cons_iff.mp texts
  obtain ⟨reads, areRead, folded⟩ := foldlM_blocks readable furtherRows []
  have whole : (numbered 1 (fileRows blocks)).foldlM step {} =
      .ok ⟨reads, .between []⟩ := by
    rw [numbers, List.foldlM_cons, step_generatedBanner bannerRow, Reading.ok_bind]
    exact folded
  refine ⟨reads, areRead, ?_⟩
  show (numbered 1 (Text.lines (Text.unlines (fileRows blocks)))).foldlM step
    {} >>= finish = _
  rcases tailRows with none | blank
  · rw [none, List.append_nil] at rows
    rw [← rows, whole]
    rfl
  · -- The blank row behind the last block is not among the lines that are read.
    rw [blank] at rows
    rw [rows, numbered, List.zipIdx_append, List.map_append,
      List.foldlM_append] at whole
    obtain ⟨splitting, before, last⟩ := Reading.bind_eq_ok.mp whole
    rw [numbered, before, Reading.ok_bind]
    rw [List.zipIdx_singleton, List.map_singleton, List.foldlM_cons] at last
    obtain ⟨final, stepped, same⟩ := Reading.bind_eq_ok.mp last
    obtain rfl := Reading.pure_eq_ok.mp same
    exact finish_of_blank rfl stepped rfl

end Block

end SchemaCompose
