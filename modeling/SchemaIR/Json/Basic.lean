import SchemaIR.Document.Node

/-!
# JSON values

The values that the program writes. Members of an object keep their order. Integers and
floats are told apart, since readers tell them apart by their spelling.
-/

namespace SchemaIR

/-- A JSON value. -/
inductive Json where
  | null
  | bool (flag : Bool)
  | int (number : Int)
  | float (number : Float)
  | string (text : String)
  | array (items : List Json)
  | object (members : List (String × Json))
deriving BEq, Repr, Inhabited

namespace Json

/-- The object of the members whose value is there. -/
def record (members : List (String × Option Json)) : Json :=
  .object (members.filterMap fun (key, value?) => value?.map (key, ·))

/-- A text, or null. -/
def ofText? : Option String → Json
  | some text => .string text
  | none => .null

mutual

/-- How deep arrays and objects nest. A scalar has depth zero. -/
def depth : Json → Nat
  | .array items => 1 + itemsDepth items
  | .object members => 1 + membersDepth members
  | .null => 0
  | .bool _ => 0
  | .int _ => 0
  | .float _ => 0
  | .string _ => 0

/-- The greatest depth among some values. -/
def itemsDepth : List Json → Nat
  | [] => 0
  | item :: rest => max item.depth (itemsDepth rest)

/-- The greatest depth among the values of some members. -/
def membersDepth : List (String × Json) → Nat
  | [] => 0
  | (_, value) :: rest => max value.depth (membersDepth rest)

end

mutual

/-- A JSON value as a document. -/
def toNode : Json → Node
  | .null => .null
  | .bool flag => .bool flag
  | .int number => .int number
  | .float number => .float number
  | .string text => .string text
  | .array items => .seq (itemNodes items)
  | .object members => .map (memberNodes members)

/-- The items as documents. -/
def itemNodes : List Json → List Node
  | [] => []
  | item :: rest => item.toNode :: itemNodes rest

/-- The members as documents. -/
def memberNodes : List (String × Json) → List (Node × Node)
  | [] => []
  | (key, value) :: rest => (.string key, value.toNode) :: memberNodes rest

end

end Json

end SchemaIR
