import SchemaIR.Document.Plain

/-!
# Documents

A document is what a text in one of the data formats says before anything is asked of
it: scalars, sequences and mappings. Two constructors are there for what a text may
hold without any value being fixed by it. A `plain` scalar is one whose type the reader
chooses, as in formats where `5` may be a text or a number. An `unreadable` scalar is
well formed but has no value, such as a number beyond every float; it does no harm as
long as nobody looks at it.
-/

namespace SchemaIR

/-- A document, or a part of one. -/
inductive Node where
  | null
  | bool (flag : Bool)
  | int (number : Int)
  | float (number : Float)
  | string (text : String)
  | plain (text : String)
  | unreadable
  | seq (items : List Node)
  | map (entries : List (Node × Node))
deriving BEq, Repr, Inhabited

namespace Node

mutual

/-- How deep sequences and mappings nest. A scalar has depth zero. -/
def depth : Node → Nat
  | .seq items => 1 + itemsDepth items
  | .map entries => 1 + entriesDepth entries
  | .null => 0
  | .bool _ => 0
  | .int _ => 0
  | .float _ => 0
  | .string _ => 0
  | .plain _ => 0
  | .unreadable => 0

/-- The greatest depth among some nodes. -/
def itemsDepth : List Node → Nat
  | [] => 0
  | item :: rest => max item.depth (itemsDepth rest)

/-- The greatest depth among keys and values. -/
def entriesDepth : List (Node × Node) → Nat
  | [] => 0
  | (key, value) :: rest => max (max key.depth value.depth) (entriesDepth rest)

end

/-- The node that a plain scalar stands for when no reader chooses. -/
def ofPlain (text : String) : Node :=
  match Plain.classify text with
  | .null => .null
  | .bool flag => .bool flag
  | .int number => .int number
  | .hugeInt => .unreadable
  | .float number => .float number
  | .text => .string text

mutual

/-- The document with a value for every scalar in it; nothing if one has none. -/
def settle : Node → Option Node
  | .plain text =>
    match ofPlain text with
    | .unreadable => none
    | node => some node
  | .unreadable => none
  | .seq items => (settleItems items).map .seq
  | .map entries => (settleEntries entries).map .map
  | .null => some .null
  | .bool flag => some (.bool flag)
  | .int number => some (.int number)
  | .float number => some (.float number)
  | .string text => some (.string text)

/-- Settles every item. -/
def settleItems : List Node → Option (List Node)
  | [] => some []
  | item :: rest => do
    let item ← item.settle
    let rest ← settleItems rest
    return item :: rest

/-- Settles every key and value. -/
def settleEntries : List (Node × Node) → Option (List (Node × Node))
  | [] => some []
  | (key, value) :: rest => do
    let key ← key.settle
    let value ← value.settle
    let rest ← settleEntries rest
    return (key, value) :: rest

end

/-- The text of a scalar that can be read as text. -/
def text? : Node → Option String
  | .string text => some text
  | .plain text => some text
  | _ => none

/-- Whether a node says that there is no value. -/
def isNull : Node → Bool
  | .null => true
  | .plain text => Plain.isNull text
  | _ => false

end Node

end SchemaIR
