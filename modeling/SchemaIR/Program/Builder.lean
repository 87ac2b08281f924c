import SchemaIR.Program

/-!
# Building programs

Declarations grow from left to right, `(TypeDecl.called "A").withSpread "B"`, and a
program takes them in under their own names. Each step adds to what is there; only
a documentation text, a type name and a whole declaration of the same name are
replaced.
-/

namespace SchemaIR

namespace Literal

/-- The literal of a 64-bit integer, in decimal. -/
def ofInt (n : Int64) : Literal := .int (toString n.toInt)

/-- A reference to a constant. -/
def constant (name : String) : Literal := .reference { name }

/-- A reference to a member of an enumeration. -/
def member (enum name : String) : Literal := .reference { name := enum, member := name }

end Literal

/-- The entries of another constant, in place. -/
def LiteralEntry.spreading (name : String) : LiteralEntry := .spread { name }

namespace FieldType

/-- A primitive type by its name. -/
def primitive (name : String) : FieldType := { base := .primitive name }

/-- A declared type or enumeration by its name. -/
def custom (name : String) : FieldType := { base := .custom name }

/-- A map with string keys. -/
def map (value : FieldType) : FieldType := { base := .map value }

/-- An anonymous object. -/
def object (body : InlineObject) : FieldType := { base := .object body }

/-- Puts `dims` more array dimensions around a type. -/
def arrayOf (type : FieldType) (dims : UInt32) : FieldType :=
  { type with arrayDims := type.arrayDims + dims }

end FieldType

namespace FieldDecl

/-- A required field. -/
def called (name : String) (type : FieldType) : FieldDecl := { name, type }

/-- Makes a field optional. -/
def asOptional (field : FieldDecl) : FieldDecl := { field with optional := true }

/-- Documents a field. -/
def withDoc (field : FieldDecl) (doc : String) : FieldDecl := { field with docstring := doc }

/-- Annotates a field. -/
def annotated (field : FieldDecl) (decl : AnnotationDecl) : FieldDecl :=
  { field with annotations := field.annotations ++ [decl] }

end FieldDecl

namespace InlineObject

/-- Adds a field after the others. -/
def withField (body : InlineObject) (field : FieldDecl) : InlineObject :=
  { body with fields := body.fields ++ [field] }

/-- Adds a spread after the others. -/
def withSpread (body : InlineObject) (name : String) : InlineObject :=
  { body with spreads := body.spreads ++ [{ name }] }

end InlineObject

namespace TypeDecl

/-- A type without fields. -/
def called (name : String) : TypeDecl := { name }

/-- Documents a type. -/
def withDoc (type : TypeDecl) (doc : String) : TypeDecl := { type with docstring := doc }

/-- Annotates a type. -/
def annotated (type : TypeDecl) (decl : AnnotationDecl) : TypeDecl :=
  { type with annotations := type.annotations ++ [decl] }

/-- Adds a field after the others. -/
def withField (type : TypeDecl) (field : FieldDecl) : TypeDecl :=
  { type with fields := type.fields ++ [field] }

/-- Adds a spread after the others. -/
def withSpread (type : TypeDecl) (name : String) : TypeDecl :=
  { type with spreads := type.spreads ++ [{ name }] }

end TypeDecl

namespace EnumDecl

/-- An enumeration without members. -/
def called (name : String) (valueType : ValueType) : EnumDecl := { name, valueType }

/-- Documents an enumeration. -/
def withDoc (enum : EnumDecl) (doc : String) : EnumDecl := { enum with docstring := doc }

/-- Annotates an enumeration. -/
def annotated (enum : EnumDecl) (decl : AnnotationDecl) : EnumDecl :=
  { enum with annotations := enum.annotations ++ [decl] }

/-- Adds a member after the others. -/
def withMember (enum : EnumDecl) (name value : String) : EnumDecl :=
  { enum with members := enum.members ++ [{ name, value }] }

/-- Adds a member whose value is its own name. -/
def withName (enum : EnumDecl) (name : String) : EnumDecl := enum.withMember name name

/-- Adds a spread after the others. -/
def withSpread (enum : EnumDecl) (name : String) : EnumDecl :=
  { enum with spreads := enum.spreads ++ [{ name }] }

end EnumDecl

namespace ConstDecl

/-- A constant whose type is left to its value. -/
def called (name : String) (value : Literal) : ConstDecl := { name, value }

/-- Gives a constant a type by name. -/
def typed (const : ConstDecl) (typeName : String) : ConstDecl :=
  { const with explicitType := typeName }

/-- Documents a constant. -/
def withDoc (const : ConstDecl) (doc : String) : ConstDecl := { const with docstring := doc }

/-- Annotates a constant. -/
def annotated (const : ConstDecl) (decl : AnnotationDecl) : ConstDecl :=
  { const with annotations := const.annotations ++ [decl] }

end ConstDecl

namespace Program

/-- Declares a type under its own name. -/
def declareType (program : Program) (type : TypeDecl) : Program :=
  { program with types := program.types.insert type.name type }

/-- Declares an enumeration under its own name. -/
def declareEnum (program : Program) (enum : EnumDecl) : Program :=
  { program with enums := program.enums.insert enum.name enum }

/-- Declares a constant under its own name. -/
def declareConst (program : Program) (const : ConstDecl) : Program :=
  { program with consts := program.consts.insert const.name const }

/-- Adds a block of documentation, for the whole schema when it has no scope. -/
def document (program : Program) (content : String) (scope : Option String := none) : Program :=
  { program with standaloneDocs := program.standaloneDocs ++ [{ scope, content }] }

end Program

end SchemaIR
