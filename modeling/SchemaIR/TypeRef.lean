import SchemaIR.Primitive
import SchemaIR.Value

/-!
# Type references

The normalized type of a field or a constant. Arrays of any number of dimensions
are one node that carries the count, maps always have string keys, and an inline
object lists its fields in full.
-/

namespace SchemaIR

/-- An annotation with its argument resolved. -/
structure Annotation where
  name : String
  argument : Option Value
deriving BEq, Repr, Inhabited

mutual

/-- A normalized type. -/
inductive TypeRef where
  | primitive (primitive : Primitive)
  /-- A declared type, by its name. -/
  | named (name : String)
  /-- A declared enumeration, by its name, with the values that it has. -/
  | enumeration (name : String) (valueType : ValueType)
  | array (item : TypeRef) (dims : UInt32)
  | map (value : TypeRef)
  | object (fields : List Field)

/-- A field with its type fully resolved. -/
structure Field where
  name : String
  doc : Option String
  optional : Bool
  annotations : List Annotation
  type : TypeRef

end

deriving instance BEq for TypeRef, Field
deriving instance Repr for TypeRef, Field
deriving instance Inhabited for TypeRef, Field

/-- The word for the kind of a type reference. -/
def TypeRef.kind : TypeRef → String
  | .primitive _ => "primitive"
  | .named _ => "type"
  | .enumeration _ _ => "enum"
  | .array _ _ => "array"
  | .map _ => "map"
  | .object _ => "object"

end SchemaIR
