import SchemaCompose.Text.Basic

/-!
# Faults of a schema document

Every reason for which a document is refused, with its wording in one place.
-/

namespace SchemaCompose

/-- The kinds of blocks that a document may hold. -/
inductive BlockKind where
  | model
  | enum
  | datasource
  | generator
deriving DecidableEq, Repr, Inhabited

namespace BlockKind

/-- The word that opens a block. -/
def keyword : BlockKind → Text
  | .model => "model"
  | .enum => "enum"
  | .datasource => "datasource"
  | .generator => "generator"

/-- The word that begins a sentence about a block. -/
def title : BlockKind → Text
  | .model => "Model"
  | .enum => "Enum"
  | .datasource => "Datasource"
  | .generator => "Generator"

/-- The kind that a word opens. -/
def ofKeyword? (word : Text) : Option BlockKind :=
  [model, enum, datasource, generator].find? fun kind => kind.keyword = word

@[simp]
theorem ofKeyword?_keyword (kind : BlockKind) :
    ofKeyword? kind.keyword = some kind := by
  cases kind <;> rfl

end BlockKind

/-- Why a line of a schema document is refused. -/
inductive Fault where
  /-- A line outside every block is no header. -/
  | outsideBlock (content : Text)
  /-- A header opens a block of no supported kind. -/
  | unsupportedBlock (keyword : Text)
  /-- The document ends inside a block. -/
  | unclosedBlock (kind : BlockKind) (name : Text)
  /-- A model or an enum takes a name that is in use. -/
  | repeatedName (kind : BlockKind) (name : Text)
  /-- A field takes a name that its model uses already. -/
  | repeatedField (field model : Text)
  /-- A line of a model is no field. -/
  | malformedField (content : Text)
  /-- A type is not built in and names no model or enum. -/
  | unknownType (type : Text)
  /-- A line of an enum is no value. -/
  | malformedEnumValue (content : Text)
  /-- A line of a datasource or generator is no property. -/
  | malformedProperty (kind : BlockKind) (content : Text)
  /-- A datasource or generator has no provider. -/
  | missingProvider (kind : BlockKind) (name : Text)
  /-- Something else stands where an attribute should. -/
  | unexpectedToken (content : Text)
  /-- The arguments of an attribute are never closed. -/
  | unclosedArguments
  /-- A list of arguments ends inside a string or with brackets open. -/
  | unbalancedArguments
  /-- An attribute that needs an argument has none. -/
  | missingArgument (name : Text)
deriving DecidableEq, Repr, Inhabited

namespace Fault

/-- The wording of a fault. -/
def message : Fault → Text
  | .outsideBlock content => "Unexpected content outside of a block: " ++ content
  | .unsupportedBlock keyword => "Unsupported block type '" ++ keyword ++ "'"
  | .unclosedBlock kind name =>
    "Block '" ++ kind.keyword ++ " " ++ name ++ "' is never closed"
  | .repeatedName kind name =>
    "The " ++ kind.keyword ++ " '" ++ name ++ "' cannot be defined more than once"
  | .repeatedField field model =>
    "Field '" ++ field ++ "' is already defined on model '" ++ model ++ "'"
  | .malformedField content => "Invalid field declaration: " ++ content
  | .unknownType type =>
    "Type '" ++ type ++
      "' is neither a built-in type, nor refers to another model or enum"
  | .malformedEnumValue content => "Invalid enum value: " ++ content
  | .malformedProperty kind content =>
    "Invalid " ++ kind.keyword ++ " property: " ++ content
  | .missingProvider kind name =>
    kind.title ++ " '" ++ name ++ "' is missing a provider"
  | .unexpectedToken content => "Unexpected token: " ++ content
  | .unclosedArguments => "Unbalanced parentheses in attribute arguments"
  | .unbalancedArguments => "Unbalanced attribute arguments"
  | .missingArgument name => name ++ " requires an argument"

end Fault

/-- A fault and the number of the line that it is found on. -/
structure ParseError where
  fault : Fault
  line : Nat
deriving DecidableEq, Repr, Inhabited

namespace ParseError

/-- The wording of an error, with its line. -/
def message (error : ParseError) : Text :=
  error.fault.message ++ " (line " ++ Text.ofNat error.line ++ ")"

end ParseError

/-- A reading of one line, placed in the document. -/
def atLine {α : Type} (line : Nat) (reading : Except Fault α) :
    Except ParseError α :=
  reading.mapError fun fault => ⟨fault, line⟩

end SchemaCompose
