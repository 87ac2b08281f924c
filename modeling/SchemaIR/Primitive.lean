/-!
# Built-in types

The primitive types of the schema language and the two kinds of values that an
enumeration can have. Both are spelled in documents by their keyword.
-/

namespace SchemaIR

/-- A built-in type of the schema language. -/
inductive Primitive where
  | string
  | int
  | float
  | bool
  | datetime
deriving DecidableEq, Repr, Inhabited

namespace Primitive

/-- All primitives, in the order in which documents list them. -/
def all : List Primitive := [.string, .int, .float, .bool, .datetime]

/-- The keyword of a primitive. -/
def name : Primitive → String
  | .string => "string"
  | .int => "int"
  | .float => "float"
  | .bool => "bool"
  | .datetime => "datetime"

/-- The primitive with the given keyword. -/
def ofName? (name : String) : Option Primitive :=
  all.find? (fun p => p.name = name)

end Primitive

/-- Whether the members of an enumeration stand for strings or for integers. -/
inductive ValueType where
  | string
  | int
deriving DecidableEq, Repr, Inhabited

namespace ValueType

/-- Both value types, in the order in which documents list them. -/
def all : List ValueType := [.string, .int]

/-- The keyword of a value type. -/
def name : ValueType → String
  | .string => "string"
  | .int => "int"

/-- The value type with the given keyword. -/
def ofName? (name : String) : Option ValueType :=
  all.find? (fun t => t.name = name)

end ValueType

end SchemaIR
