import SchemaIR.Json.Basic
import SchemaIR.Number.FloatText

/-!
# JSON texts

A value is written either compactly, without any white space, or with every item and
member on a line of its own, indented by two spaces for each level. Empty containers
stay closed in both layouts. In strings only the quote, the backslash and control
characters are escaped.
-/

namespace SchemaIR.Json

/-- How a value is laid out. -/
inductive Layout where
  | compact
  | indented
deriving DecidableEq, Repr

/-- A digit of base sixteen. -/
def hexDigit (n : Nat) : Char :=
  if n < 10 then Char.ofNat ('0'.toNat + n) else Char.ofNat ('a'.toNat + (n - 10))

/-- A character as it stands in a string. -/
def escape (c : Char) : List Char :=
  if c = '"' then ['\\', '"']
  else if c = '\\' then ['\\', '\\']
  else if c = '\x08' then ['\\', 'b']
  else if c = '\t' then ['\\', 't']
  else if c = '\n' then ['\\', 'n']
  else if c = '\x0c' then ['\\', 'f']
  else if c = '\r' then ['\\', 'r']
  else if c.toNat < 0x20 then
    ['\\', 'u', '0', '0', hexDigit (c.toNat / 16), hexDigit (c.toNat % 16)]
  else [c]

/-- A string with its quotes. -/
def quote (text : String) : List Char :=
  '"' :: (text.toList.flatMap escape ++ ['"'])

/-- The text of an integer. -/
def intText (n : Int) : List Char :=
  if n < 0 then '-' :: Nat.toDigits 10 n.natAbs else Nat.toDigits 10 n.natAbs

namespace Layout

/-- The start of a new line at the given level. -/
def newline (layout : Layout) (level : Nat) : List Char :=
  match layout with
  | .compact => []
  | .indented => '\n' :: List.replicate (2 * level) ' '

/-- What stands between a key and its value. -/
def colon : Layout → List Char
  | .compact => [':']
  | .indented => [':', ' ']

end Layout

mutual

/-- The text of a value that starts at the given level. A float that is not finite has no
number to write. -/
def write (layout : Layout) (level : Nat) : Json → List Char
  | .null => "null".toList
  | .bool true => "true".toList
  | .bool false => "false".toList
  | .int number => intText number
  | .float number => if number.isFinite then Number.floatText number else "null".toList
  | .string text => quote text
  | .array [] => ['[', ']']
  | .array (item :: rest) =>
    '[' :: (layout.newline (level + 1) ++ item.write layout (level + 1) ++
      writeItems layout (level + 1) rest ++ layout.newline level ++ [']'])
  | .object [] => ['{', '}']
  | .object ((key, value) :: rest) =>
    '{' :: (layout.newline (level + 1) ++ quote key ++ layout.colon ++
      value.write layout (level + 1) ++
      writeMembers layout (level + 1) rest ++ layout.newline level ++ ['}'])

/-- The items behind the first, each with the comma in front of it. -/
def writeItems (layout : Layout) (level : Nat) : List Json → List Char
  | [] => []
  | item :: rest =>
    ',' :: (layout.newline level ++ item.write layout level ++ writeItems layout level rest)

/-- The members behind the first, each with the comma in front of it. -/
def writeMembers (layout : Layout) (level : Nat) : List (String × Json) → List Char
  | [] => []
  | (key, value) :: rest =>
    ',' :: (layout.newline level ++ quote key ++ layout.colon ++ value.write layout level ++
      writeMembers layout level rest)

end

/-- The text of a document. -/
def render (layout : Layout) (json : Json) : String :=
  String.ofList (json.write layout 0)

end SchemaIR.Json
