import SchemaCompose.Schema.Declaration

/-!
# Reading a schema

A document is cut into blocks, every block is read, and last no name may be taken
twice among the models and enums.
-/

namespace SchemaCompose

/-- What one block declares. -/
inductive Declaration where
  | model (model : Model)
  | enum (enum : SchemaEnum)
  | datasource (datasource : Datasource)
  | generator (generator : Generator)
deriving DecidableEq, Repr

namespace Declaration

/-- The declaration of a block. -/
def ofBlock (names : DeclaredNames) (block : Block) :
    Except ParseError Declaration :=
  match block.kind with
  | .model => (Model.ofBlock names block).map model
  | .enum => (SchemaEnum.ofBlock block).map enum
  | .datasource => (Datasource.ofBlock block).map datasource
  | .generator => (Generator.ofBlock block).map generator

end Declaration

namespace Block

/-- The block takes part in the names that a document must not repeat. -/
def isNamed (block : Block) : Bool :=
  block.kind = .model || block.kind = .enum

/-- No name is taken twice, where some names are taken before. -/
def distinctFrom (taken : List Text) : List Block → Except ParseError Unit
  | [] => .ok ()
  | block :: rest =>
    if taken.contains block.name then
      .error ⟨.repeatedName block.kind block.name, block.line⟩
    else distinctFrom (block.name :: taken) rest

end Block

namespace Schema

/-- The schema of a row of declarations, each sort in its order. -/
def ofDeclarations (declarations : List Declaration) : Schema where
  models := declarations.filterMap fun | .model model => some model | _ => none
  enums := declarations.filterMap fun | .enum enum => some enum | _ => none
  datasources :=
    declarations.filterMap fun | .datasource source => some source | _ => none
  generators :=
    declarations.filterMap fun | .generator generator => some generator | _ => none

/-- The schema that a row of blocks declares. -/
def ofBlocks (blocks : List Block) : Except ParseError Schema := do
  let declarations ← blocks.mapM
    (Declaration.ofBlock (DeclaredNames.ofBlocks blocks))
  Block.distinctFrom [] (blocks.filter Block.isNamed)
  return ofDeclarations declarations

/-- The schema that a document declares. -/
def parse (text : Text) : Except ParseError Schema :=
  Block.split (Line.ofText text) >>= ofBlocks

end Schema

end SchemaCompose
