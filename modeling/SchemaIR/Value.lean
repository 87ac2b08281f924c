/-!
# Resolved values

What a constant or an annotation argument stands for once every reference in it
has been followed: scalars, and objects and arrays of values. The entries of an
object keep their order and may repeat a key.
-/

namespace SchemaIR

/-- A literal with nothing left to resolve in it. -/
inductive Value where
  | string (text : String)
  | int (number : Int64)
  | float (number : Float)
  | bool (flag : Bool)
  | object (entries : List (String × Value))
  | array (items : List Value)
deriving BEq, Repr, Inhabited

namespace Value

/-- The word for the kind of a value. -/
def kind : Value → String
  | .string _ => "string"
  | .int _ => "int"
  | .float _ => "float"
  | .bool _ => "bool"
  | .object _ => "object"
  | .array _ => "array"

mutual

/-- How deep a value nests. Scalars and empty containers count one level. -/
def depth : Value → Nat
  | .object entries => 1 + entriesDepth entries
  | .array items => 1 + itemsDepth items
  | .string _ => 1
  | .int _ => 1
  | .float _ => 1
  | .bool _ => 1

/-- The greatest depth among the values of some entries. -/
def entriesDepth : List (String × Value) → Nat
  | [] => 0
  | (_, value) :: rest => max value.depth (entriesDepth rest)

/-- The greatest depth among some items. -/
def itemsDepth : List Value → Nat
  | [] => 0
  | item :: rest => max item.depth (itemsDepth rest)

end

end Value

end SchemaIR
