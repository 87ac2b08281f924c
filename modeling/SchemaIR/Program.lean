import SchemaIR.Primitive
import SchemaIR.Table

/-!
# Declared programs

The symbol tables of a schema that has passed semantic analysis, as the analysis
hands them over: declarations still refer to each other by name, spreads are not
expanded and number literals are texts. Nothing here is checked. A reference may
dangle, constants may refer to each other in a circle, and a table may hold a
declaration under a key that is not its name.
-/

namespace SchemaIR

/-- `Name` or `Name.Member`: a constant, an enum member or the target of a spread. -/
structure Reference where
  name : String
  member : Option String := none
deriving DecidableEq, Repr, Inhabited

mutual

/-- A literal expression. Numbers keep the text they were written as. -/
inductive Literal where
  | string (text : String)
  | int (raw : String)
  | float (raw : String)
  | bool (flag : Bool)
  | reference (target : Reference)
  | object (entries : List LiteralEntry)
  | array (elements : List Literal)

/-- An entry of an object literal: a field, or the entries of another constant. -/
inductive LiteralEntry where
  | spread (source : Reference)
  | field (key : String) (value : Literal)

end

deriving instance BEq for Literal, LiteralEntry
deriving instance Repr for Literal, LiteralEntry
deriving instance Inhabited for Literal, LiteralEntry

/-- An annotation with the literal it is given. -/
structure AnnotationDecl where
  name : String
  argument : Option Literal := none
deriving BEq, Repr, Inhabited

mutual

/-- A declared type without its array dimensions. -/
inductive BaseType where
  | primitive (name : String)
  /-- The name of a declared type or enumeration. -/
  | custom (name : String)
  /-- A map with string keys. -/
  | map (value : FieldType)
  | object (body : InlineObject)

/-- A declared type: a base and a number of array dimensions over it. -/
structure FieldType where
  base : BaseType
  arrayDims : UInt32 := 0

/-- An anonymous object. -/
structure InlineObject where
  fields : List FieldDecl := []
  spreads : List Reference := []

/-- A declared field. -/
structure FieldDecl where
  name : String
  docstring : Option String := none
  annotations : List AnnotationDecl := []
  optional : Bool := false
  type : FieldType

end

deriving instance BEq for BaseType, FieldType, InlineObject, FieldDecl
deriving instance Repr for BaseType, FieldType, InlineObject, FieldDecl
deriving instance Inhabited for BaseType, FieldType, InlineObject, FieldDecl

/-- A declared type with the types that it spreads. -/
structure TypeDecl where
  name : String
  docstring : Option String := none
  annotations : List AnnotationDecl := []
  fields : List FieldDecl := []
  spreads : List Reference := []
deriving BEq, Repr, Inhabited

/-- A declared member of an enumeration. -/
structure MemberDecl where
  name : String
  value : String
  docstring : Option String := none
  annotations : List AnnotationDecl := []
deriving BEq, Repr, Inhabited

/-- A declared enumeration with the enumerations that it spreads. -/
structure EnumDecl where
  name : String
  docstring : Option String := none
  annotations : List AnnotationDecl := []
  valueType : ValueType := .string
  members : List MemberDecl := []
  spreads : List Reference := []
deriving BEq, Repr, Inhabited

/-- A declared constant. One without a value never resolves. -/
structure ConstDecl where
  name : String
  docstring : Option String := none
  annotations : List AnnotationDecl := []
  explicitType : Option String := none
  value : Option Literal := none
deriving BEq, Repr, Inhabited

/-- A block of documentation of its own, for the schema when it has no scope. -/
structure DocDecl where
  scope : Option String := none
  content : String
deriving BEq, Repr, Inhabited

/-- A declared program. -/
structure Program where
  types : Table TypeDecl := .empty
  enums : Table EnumDecl := .empty
  consts : Table ConstDecl := .empty
  standaloneDocs : List DocDecl := []
deriving BEq, Inhabited

/-- Whether a program declares nothing at all. -/
def Program.isEmpty (program : Program) : Bool :=
  program.types.isEmpty && program.enums.isEmpty && program.consts.isEmpty &&
    program.standaloneDocs.isEmpty

end SchemaIR
