import SchemaIR.Text.Printable

/-!
# Quoted texts

A text that is shown inside a message stands in double quotes, and whatever would not be
seen in it is escaped: quotes and backslashes, the usual white space by its letter, and
everything else that is not printable by its code point.
-/

namespace SchemaIR.Text

/-- How a character is shown between quotes. -/
def quotedChar (c : Char) : List Char :=
  match c with
  | '"' => ['\\', '"']
  | '\\' => ['\\', '\\']
  | '\t' => ['\\', 't']
  | '\n' => ['\\', 'n']
  | '\r' => ['\\', 'r']
  | '\x00' => ['\\', '0']
  | c =>
    if isPrintable c then [c]
    else ['\\', 'u', '\x7b'] ++ Nat.toDigits 16 c.toNat ++ ['\x7d']

/-- A text in quotes. -/
def quoted (text : String) : String :=
  String.ofList ('"' :: text.toList.flatMap quotedChar ++ ['"'])

end SchemaIR.Text
