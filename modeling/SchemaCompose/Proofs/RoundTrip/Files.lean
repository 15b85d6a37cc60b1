import SchemaCompose.Proofs.RoundTrip.Configuration
import SchemaCompose.Proofs.RoundTrip.Models
import SchemaCompose.Schema.Parse

/-!
# Generated files are accepted

A generated file is the banner and the blocks of a schema, section by section.
Where every block is writable, reading the file gives the declarations of the schema
in the order in which they were written (`Schema.parse_generatedFile`); no two of its
models and enums may have one name (`Schema.nodup_of_parse_generatedFile`).
-/

namespace SchemaCompose

/-! ## Sections -/

namespace BlockText

variable {block : BlockText}

/-- The text of a block. -/
def render (block : BlockText) : Text :=
  Text.unlines (block.rows ++ [[]])

theorem renderBlock_eq (block : BlockText) :
    renderBlock block.kind block.name block.body block.documentation =
      block.render := by
  rw [renderBlock, render, rows, List.append_assoc _ [['}']]]
  rfl

/-- The rows of a section. -/
def sectionRows (blocks : List BlockText) : List Text :=
  blocks.flatMap fun block => block.rows ++ [[]]

theorem unlines_map_render (blocks : List BlockText) :
    Text.unlines (blocks.map render) = Text.unlines (sectionRows blocks) := by
  have split : blocks.map render =
      (blocks.map fun block => block.rows ++ [[]]).map Text.unlines := by
    rw [List.map_map]
    rfl
  rw [split, Text.unlines_map_unlines, ← List.flatMap_def]
  · rfl
  · rw [List.forall_mem_map]
    intro block _
    simp

theorem sectionRows_ne_nil {blocks : List BlockText} (filled : blocks ≠ []) :
    sectionRows blocks ≠ [] := by
  obtain ⟨block, others, rfl⟩ := List.exists_cons_of_ne_nil filled
  simp [sectionRows]

theorem unlines_sectionRows_ne_nil {blocks : List BlockText}
    (filled : blocks ≠ []) :
    Text.unlines (sectionRows blocks) ≠ [] := by
  have further : ∀ rows : List Text, 1 < rows.length → Text.unlines rows ≠ [] := by
    intro rows several
    match rows, several with
    | row :: next :: rows, _ => simp [Text.unlines_cons_cons]
  obtain ⟨block, others, rfl⟩ := List.exists_cons_of_ne_nil filled
  apply further
  simp only [sectionRows, rows, List.flatMap_cons, List.length_append,
    List.length_cons]
  omega

theorem flatten_sectionRows (sections : List (List BlockText)) :
    ((sections.filter (!·.isEmpty)).map sectionRows).flatten =
      sectionRows sections.flatten := by
  induction sections with
  | nil => rfl
  | cons blocks others ih =>
      rw [List.flatten_cons, sectionRows, List.flatMap_append]
      show _ = sectionRows blocks ++ sectionRows others.flatten
      rw [← ih]
      cases blocks with
      | nil => rfl
      | cons block further => rfl

/-- Sections that are written without the empty ones are written as one. -/
theorem unlines_sections (sections : List (List BlockText)) :
    Text.unlines
      ((sections.map fun blocks => Text.unlines (blocks.map render)).filter
        (!·.isEmpty)) =
      Text.unlines (sectionRows sections.flatten) := by
  have filled :
      (sections.map fun blocks => Text.unlines (blocks.map render)).filter
        (!·.isEmpty) =
      ((sections.filter (!·.isEmpty)).map sectionRows).map Text.unlines := by
    simp only [unlines_map_render, List.filter_map, List.map_map]
    congr 1
    apply List.filter_congr
    intro blocks _
    cases blocks with
    | nil => rfl
    | cons block others =>
        simpa using unlines_sectionRows_ne_nil (List.cons_ne_nil block others)
  rw [filled, Text.unlines_map_unlines, flatten_sectionRows]
  rw [List.forall_mem_map]
  intro blocks member
  apply sectionRows_ne_nil
  simpa using (List.mem_filter.mp member).2

/-- The banner stands in front of the rows of all sections. -/
theorem withBanner_unlines (blocks : List BlockText) :
    withBanner (Text.unlines (sectionRows blocks)) =
      Text.unlines (fileRows blocks) := by
  rw [withBanner, fileRows]
  by_cases empty : blocks = []
  · rw [empty]
    rfl
  · have text : (Text.unlines (sectionRows blocks)).isEmpty = false := by
      simpa using unlines_sectionRows_ne_nil empty
    rw [text, if_neg (by decide), Text.unlines_cons _ (by simp),
      Text.unlines_singleton, ← Text.unlines_cons _ (sectionRows_ne_nil empty)]
    rfl

end BlockText

theorem Datasource.render_eq {datasource : Datasource}
    (writable : datasource.IsWritable) :
    datasource.render = datasource.blockText.render := by
  rw [← BlockText.renderBlock_eq, render, ConnectionUrl.lines_eq writable.url,
    ← List.map_append]
  rfl

theorem SchemaEnum.render_eq {enum : SchemaEnum} (writable : enum.IsWritable) :
    enum.render = enum.blockText.render := by
  have stored :
      (enum.storedName.toList.map fun name => "@@map(" ++ inQuotes name ++ ")") =
      (enum.storedName.toList.map (storedNameAttribute "@@map")).map
        Attribute.write := by
    rw [List.map_map]
    rfl
  rw [← BlockText.renderBlock_eq, render,
    whenSet_of_filled fun name said => (writable.storedName name said).2,
    stored]
  rfl

/-! ## Declarations -/

namespace Declaration

variable {names : DeclaredNames} {declaration : Declaration}

/-- The block of a declaration before it is written. -/
def blockText : Declaration → BlockText
  | .model declared => declared.blockText
  | .enum declared => declared.blockText
  | .datasource declared => declared.blockText
  | .generator declared => declared.blockText

/-- The block of the declaration is accepted. -/
def IsWritable : Declaration → Prop
  | .model declared => declared.IsWritable
  | .enum declared => declared.IsWritable
  | .datasource declared => declared.IsWritable
  | .generator declared => declared.IsWritable

/-- The types of the declaration are resolved among the given names. -/
def IsResolved (names : DeclaredNames) : Declaration → Prop
  | .model declared => declared.IsResolved names
  | _ => True

/-- The declaration that is read without what is recovered from its rows. -/
def parsed : Declaration → Declaration
  | .model declared => .model declared.parsed
  | .enum declared => .enum declared.reread
  | .datasource declared => .datasource declared.reread
  | .generator declared => .generator declared.reread

theorem isReadable_blockText (writable : declaration.IsWritable) :
    declaration.blockText.IsReadable := by
  cases declaration with
  | model declared => exact Model.isReadable_blockText writable
  | enum declared => exact SchemaEnum.isReadable_blockText writable
  | datasource declared => exact Datasource.isReadable_blockText writable
  | generator declared => exact Generator.isReadable_blockText writable

/-- The block of a declaration gives the declaration. -/
theorem ofBlock_of_isReadAs
    (writable : declaration.IsWritable) (resolved : declaration.IsResolved names)
    {block : Block}
    (isRead : declaration.blockText.IsReadAs block) :
    ofBlock names block = .ok declaration.parsed := by
  have kind := isRead.kind
  cases declaration with
  | model declared =>
      rw [ofBlock, show block.kind = .model from kind]
      show (Model.ofBlock names block).map Declaration.model = _
      rw [Model.ofBlock_blockText writable resolved isRead]
      rfl
  | enum declared =>
      rw [ofBlock, show block.kind = .enum from kind]
      show (SchemaEnum.ofBlock block).map Declaration.enum = _
      rw [SchemaEnum.ofBlock_blockText writable isRead]
      rfl
  | datasource declared =>
      rw [ofBlock, show block.kind = .datasource from kind]
      show (Datasource.ofBlock block).map Declaration.datasource = _
      rw [Datasource.ofBlock_blockText writable isRead]
      rfl
  | generator declared =>
      rw [ofBlock, show block.kind = .generator from kind]
      show (Generator.ofBlock block).map Declaration.generator = _
      rw [Generator.ofBlock_blockText writable isRead]
      rfl

end Declaration

/-! ## The file -/

namespace Schema

variable {schema : Schema}

/-- The declarations of a schema, in the order in which they are written. -/
def declarations (schema : Schema) : List Declaration :=
  schema.datasources.map .datasource ++ schema.generators.map .generator ++
    schema.models.map .model ++ schema.enums.map .enum

/-- The blocks of a schema, in the order in which they are written. -/
def blockTexts (schema : Schema) : List BlockText :=
  schema.declarations.map Declaration.blockText

theorem forall_mem_declarations
    {Holds : Declaration → Prop}
    (datasources : ∀ datasource ∈ schema.datasources,
      Holds (.datasource datasource))
    (generators : ∀ generator ∈ schema.generators, Holds (.generator generator))
    (models : ∀ model ∈ schema.models, Holds (.model model))
    (enums : ∀ enum ∈ schema.enums, Holds (.enum enum)) :
    ∀ declaration ∈ schema.declarations, Holds declaration := by
  rw [declarations]
  simp only [List.forall_mem_append, List.forall_mem_map]
  exact ⟨⟨⟨datasources, generators⟩, models⟩, enums⟩

theorem IsWritable.declarations (writable : schema.IsWritable) :
    ∀ declaration ∈ schema.declarations, declaration.IsWritable :=
  forall_mem_declarations writable.datasources writable.generators
    writable.models
    writable.enums

theorem isReadable_of_mem_blockTexts (writable : schema.IsWritable) :
    ∀ block ∈ schema.blockTexts, block.IsReadable := by
  rw [blockTexts, List.forall_mem_map]
  exact fun declaration member =>
    Declaration.isReadable_blockText (writable.declarations declaration member)

theorem generatedFile_eq (writable : schema.IsWritable) :
    schema.generatedFile = Text.unlines (fileRows schema.blockTexts) := by
  have datasources : schema.datasources.map Datasource.render =
      (schema.datasources.map Datasource.blockText).map BlockText.render := by
    rw [List.map_map]
    apply List.map_congr_left
    exact fun datasource member =>
      Datasource.render_eq (writable.datasources datasource member)
  have generators : schema.generators.map Generator.render =
      (schema.generators.map Generator.blockText).map BlockText.render := by
    rw [List.map_map]
    apply List.map_congr_left
    exact fun generator _ => BlockText.renderBlock_eq generator.blockText
  have models : schema.models.map Model.render =
      (schema.models.map Model.blockText).map BlockText.render := by
    rw [List.map_map]
    apply List.map_congr_left
    exact fun model _ => BlockText.renderBlock_eq model.blockText
  have enums : schema.enums.map SchemaEnum.render =
      (schema.enums.map SchemaEnum.blockText).map BlockText.render := by
    rw [List.map_map]
    apply List.map_congr_left
    exact fun enum member => SchemaEnum.render_eq (writable.enums enum member)
  have sections := BlockText.unlines_sections
    [schema.datasources.map Datasource.blockText,
      schema.generators.map Generator.blockText,
      schema.models.map Model.blockText, schema.enums.map SchemaEnum.blockText]
  have rendered :
      schema.render = Text.unlines (BlockText.sectionRows schema.blockTexts) := by
    rw [render, renderDatasources, renderGenerators, renderModels, renderEnums,
      datasources, generators, models, enums]
    refine sections.trans ?_
    simp [blockTexts, declarations, Declaration.blockText, Function.comp_def]
  rw [generatedFile, rendered, BlockText.withBanner_unlines]

/-! ## Reading the blocks -/

theorem mapM_ofBlock_of_each
    {declarations : List Declaration} {names : DeclaredNames}
    {give : Declaration → Declaration}
    (each : ∀ declaration ∈ declarations, ∀ block : Block,
      declaration.blockText.IsReadAs block →
        Declaration.ofBlock names block = .ok (give declaration))
    {reads : List Block}
    (areRead : List.Forall₂ BlockText.IsReadAs
      (declarations.map Declaration.blockText) reads) :
    reads.mapM (Declaration.ofBlock names) = .ok (declarations.map give) := by
  rw [Reading.mapM_eq_ok]
  induction declarations generalizing reads with
  | nil =>
      cases areRead
      exact .nil
  | cons declaration others ih =>
      rw [List.forall_mem_cons] at each
      cases areRead with
      | cons isRead further => exact .cons (each.1 _ isRead) (ih each.2 further)

theorem mapM_ofBlock
    {declarations : List Declaration} {names : DeclaredNames}
    (writable : ∀ declaration ∈ declarations, declaration.IsWritable)
    (resolved : ∀ declaration ∈ declarations, declaration.IsResolved names)
    {reads : List Block}
    (areRead : List.Forall₂ BlockText.IsReadAs
      (declarations.map Declaration.blockText) reads) :
    reads.mapM (Declaration.ofBlock names) =
      .ok (declarations.map Declaration.parsed) :=
  mapM_ofBlock_of_each (fun declaration member _ =>
    Declaration.ofBlock_of_isReadAs (writable declaration member)
      (resolved declaration member)) areRead

/-- The names of the blocks of one kind are the names that were written. -/
theorem names_of_isReadAs
    {blocks : List BlockText} {reads : List Block}
    (areRead : List.Forall₂ BlockText.IsReadAs blocks reads)
    (kinds : BlockKind → Bool) :
    (reads.filter fun block => kinds block.kind).map (·.name) =
      (blocks.filter fun block => kinds block.kind).map (·.name) := by
  induction areRead with
  | nil => rfl
  | @cons block read blocks reads isRead _ ih =>
      rw [List.filter_cons, List.filter_cons, isRead.kind]
      split
      · rw [List.map_cons, List.map_cons, ih, isRead.name]
      · exact ih

theorem names_blockTexts (schema : Schema) (kinds : BlockKind → Bool) :
    (schema.blockTexts.filter fun block => kinds block.kind).map (·.name) =
      (if kinds .datasource then schema.datasources.map (·.name) else []) ++
        (if kinds .generator then schema.generators.map (·.name) else []) ++
        (if kinds .model then schema.models.map (·.name) else []) ++
        (if kinds .enum then schema.enums.map (·.name) else []) := by
  have part :
      ∀ {α : Type} (write : α → BlockText) (name : α → Text) (kind : BlockKind)
      (row : List α),
        (∀ item, (write item).kind = kind ∧ (write item).name = name item) →
      ((row.map write).filter fun block => kinds block.kind).map (·.name) =
        if kinds kind then row.map name else [] := by
    intro α write name kind row written
    rw [List.filter_map]
    cases chosen : kinds kind with
    | false => simp [Function.comp_def, written, chosen]
    | true => simp [Function.comp_def, written, chosen]
  rw [blockTexts, declarations]
  simp only [List.map_append, List.filter_append, List.map_map]
  rw [part _ (·.name) .datasource, part _ (·.name) .generator,
    part _ (·.name) .model, part _ (·.name) .enum]
  · exact fun _ => ⟨rfl, rfl⟩
  · exact fun _ => ⟨rfl, rfl⟩
  · exact fun _ => ⟨rfl, rfl⟩
  · exact fun _ => ⟨rfl, rfl⟩

theorem names_ofBlocks
    {reads : List Block}
    (areRead : List.Forall₂ BlockText.IsReadAs schema.blockTexts reads) :
    DeclaredNames.ofBlocks reads = schema.names := by
  have models : (reads.filter (·.kind = .model)).map (·.name) =
      schema.models.map (·.name) :=
    (names_of_isReadAs areRead fun kind => kind = .model).trans
      ((names_blockTexts schema fun kind => kind = .model).trans (by simp))
  have enums : (reads.filter (·.kind = .enum)).map (·.name) =
      schema.enums.map (·.name) :=
    (names_of_isReadAs areRead fun kind => kind = .enum).trans
      ((names_blockTexts schema fun kind => kind = .enum).trans (by simp))
  rw [DeclaredNames.ofBlocks, models, enums]
  rfl

/-- What the generated file of a schema declares, without what is recovered from its
rows. -/
def parsed (schema : Schema) : Schema :=
  { schema.reread with models := schema.models.map Model.parsed }

theorem ofDeclarations_parsed (schema : Schema) :
    ofDeclarations (schema.declarations.map Declaration.parsed) = schema.parsed := by
  simp [ofDeclarations, declarations, Declaration.parsed, List.filterMap_map,
    Function.comp_def, parsed, reread]

theorem names_filter_isNamed
    {reads : List Block}
    (areRead : List.Forall₂ BlockText.IsReadAs schema.blockTexts reads) :
    (reads.filter Block.isNamed).map (·.name) =
      schema.names.models ++ schema.names.enums :=
  (names_of_isReadAs areRead fun kind => kind = .model || kind = .enum).trans
    ((names_blockTexts schema fun kind => kind = .model || kind = .enum).trans
      (by simp [Schema.names]))

/-- A generated file is only accepted if no name is taken twice. -/
theorem nodup_of_parse_generatedFile
    (writable : schema.IsWritable) {read : Schema}
    (accepted : parse schema.generatedFile = .ok read) :
    (schema.names.models ++ schema.names.enums).Nodup := by
  obtain ⟨reads, areRead, split⟩ :=
    Block.split_rows (isReadable_of_mem_blockTexts writable)
  rw [generatedFile_eq writable] at accepted
  obtain ⟨blocks, _, splits, _, distinct, _⟩ := exists_of_parse accepted
  obtain rfl : reads = blocks := Except.ok.inj (split.symm.trans splits)
  rwa [names_filter_isNamed areRead] at distinct

/-- The generated file of a writable schema declares what the schema declares. -/
theorem parse_generatedFile
    (writable : schema.IsWritable)
    (resolved : ∀ model ∈ schema.models, model.IsResolved schema.names)
    (distinct : (schema.names.models ++ schema.names.enums).Nodup) :
    parse schema.generatedFile = .ok schema.parsed := by
  obtain ⟨reads, areRead, split⟩ :=
    Block.split_rows (isReadable_of_mem_blockTexts writable)
  have names := names_ofBlocks areRead
  have declared := mapM_ofBlock writable.declarations
    (forall_mem_declarations (by simp [Declaration.IsResolved])
      (by simp [Declaration.IsResolved]) resolved (by simp [Declaration.IsResolved]))
    areRead
  have named : Block.distinctFrom [] (reads.filter Block.isNamed) = .ok () := by
    rw [Block.distinctFrom_eq_ok, names_filter_isNamed areRead]
    exact ⟨distinct, by simp⟩
  rw [generatedFile_eq writable, parse, split, Reading.ok_bind, ofBlocks, names,
    declared]
  simp only [Reading.ok_bind, named]
  exact congrArg Except.ok (ofDeclarations_parsed schema)

end Schema

end SchemaCompose
