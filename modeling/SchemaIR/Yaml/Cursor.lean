/-!
# Positions in a YAML text

Layout carries meaning in YAML, so a reader has to know the line and the column it is
at. The usual line breaks are made plain newlines before reading starts; the two Unicode
separators break lines too, but stay what they are.
-/

namespace SchemaIR.Yaml

/-- What is left to read and where it starts. -/
structure Cursor where
  rest : List Char
  index : Nat := 0
  line : Nat := 0
  column : Nat := 0

/-- Whether a character is a space or a tab. -/
def isBlank (c : Char) : Bool := c = ' ' || c = '\t'

/-- Whether a character ends a line. -/
def isBreak (c : Char) : Bool := c = '\n' || c = '\u2028' || c = '\u2029'

/-- Whether a character is white space. -/
def isSpace (c : Char) : Bool := isBlank c || isBreak c

/-- Whether a text ends here or goes on with white space. -/
def startsBlank : List Char → Bool
  | [] => true
  | c :: _ => isSpace c

/-- Whether a line ends here. -/
def endsLine : List Char → Bool
  | [] => true
  | c :: _ => isBreak c

/-- Whether a character may occur in a text at all. -/
def isAllowed (c : Char) : Bool :=
  let n := c.toNat
  n = 0x09 || n = 0x0A || n = 0x0D || (0x20 ≤ n && n ≤ 0x7E) || n = 0x85 ||
    (0xA0 ≤ n && n ≤ 0xD7FF) || (0xE000 ≤ n && n ≤ 0xFFFD && n ≠ 0xFEFF) || 0x10000 ≤ n

/-- Makes the usual line breaks newlines. -/
def unifyBreaks : List Char → List Char
  | [] => []
  | '\r' :: '\n' :: rest => '\n' :: unifyBreaks rest
  | c :: rest => (if c = '\r' || c = '\u0085' then '\n' else c) :: unifyBreaks rest

namespace Cursor

/-- Moves over characters that the text starts with. -/
def past (cur : Cursor) : List Char → Cursor
  | [] => cur
  | c :: cs =>
    let next : Cursor :=
      if isBreak c then ⟨cur.rest.drop 1, cur.index + 1, cur.line + 1, 0⟩
      else ⟨cur.rest.drop 1, cur.index + 1, cur.line, cur.column + 1⟩
    next.past cs

/-- Moves over a number of characters of one line. -/
def skip (cur : Cursor) (n : Nat) : Cursor :=
  ⟨cur.rest.drop n, cur.index + n, cur.line, cur.column + n⟩

/-- Moves over the characters in front that pass a test. -/
def skipWhile (cur : Cursor) (test : Char → Bool) : Cursor :=
  cur.past (cur.rest.takeWhile test)

/-- Moves over a comment, if there is one. -/
def skipComment (cur : Cursor) : Cursor :=
  if cur.rest.head? = some '#' then cur.skipWhile (!isBreak ·) else cur

/-- Whether three times the given character stands at the start of a line, as the mark of
a document. -/
def atMark (cur : Cursor) (mark : Char) : Bool :=
  cur.column = 0 &&
    match cur.rest with
    | a :: b :: c :: rest => a = mark && b = mark && c = mark && startsBlank rest
    | _ => false

/-- Whether a document starts or ends here. -/
def atDocumentMark (cur : Cursor) : Bool := cur.atMark '-' || cur.atMark '.'

end Cursor

end SchemaIR.Yaml
