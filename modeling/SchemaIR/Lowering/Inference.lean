import SchemaIR.Program
import SchemaIR.TypeRef

/-!
# Types of constants

A constant whose declared type names a primitive, an enumeration or a type has that
type. Any other constant has the type that its value shows: an object has one required
field for each entry, and an array is typed by its first item. An array of arrays is one
array with the dimensions added up, and an empty array counts as one of strings.
-/

namespace SchemaIR

/-- The array of a type, which merges with the dimensions of an array type. -/
def TypeRef.arrayOf : TypeRef → TypeRef
  | .array item dims => .array item (dims + 1)
  | item => .array item 1

mutual

/-- The type that a value shows. -/
def Value.inferType : Value → TypeRef
  | .string _ => .primitive .string
  | .int _ => .primitive .int
  | .float _ => .primitive .float
  | .bool _ => .primitive .bool
  | .object entries => .object (inferFields entries)
  | .array [] => .array (.primitive .string) 1
  | .array (item :: _) => item.inferType.arrayOf

/-- One required field for each entry. -/
def inferFields : List (String × Value) → List Field
  | [] => []
  | (key, value) :: rest => ⟨key, none, false, [], value.inferType⟩ :: inferFields rest

end

namespace Program

/-- The type of a name, where an enumeration hides a type. A name that is not declared
counts as a type. -/
def namedType (program : Program) (name : String) : TypeRef :=
  match program.enums.find? name with
  | some decl => .enumeration name decl.valueType
  | none => .named name

/-- The type that a name declares, if it is known. -/
def declaredType? (program : Program) (name : String) : Option TypeRef :=
  match Primitive.ofName? name with
  | some primitive => some (.primitive primitive)
  | none =>
    if program.enums.contains name || program.types.contains name then
      some (program.namedType name)
    else none

/-- The type of a constant that has the given value. -/
def constantType (program : Program) (decl : ConstDecl) (value : Value) : TypeRef :=
  (decl.explicitType.bind program.declaredType?).getD value.inferType

end Program

end SchemaIR
