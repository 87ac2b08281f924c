import SchemaIR.Toml.Scalar
import SchemaIR.Toml.Table

/-!
# Reading TOML

A text is a sequence of lines: headers, assignments and comments. An assignment adds to
the table of the last header. Arrays and inline tables nest less than `nestingLimit`
deep, and a dotted key has fewer parts than that.
-/

namespace SchemaIR.Toml

/-- How deep values may not nest. -/
def nestingLimit : Nat := 80

/-! ## Keys -/

/-- Whether a character may stand in a key without quotes. -/
def isBare (c : Char) : Bool :=
  c.isAlphanum || c = '_' || c = '-'

/-- A key without dots. -/
def simpleKey : Reader String := fun text =>
  match text.takeWhile isBare with
  | [] => lineString text
  | name => some (String.ofList name, text.drop name.length)

/-- A key with its dots, and the space around it. -/
def keyParts : Nat → Reader (List String)
  | 0, _ => none
  | fuel + 1, text => do
    let (part, rest) ← simpleKey (skipSpace text)
    match skipSpace rest with
    | '.' :: rest =>
      let (parts, rest) ← keyParts fuel rest
      return (part :: parts, rest)
    | rest => return ([part], rest)

/-- A key as the path to a table and the name in it. -/
def keyPath : Reader (List String × String) := fun text => do
  let (parts, rest) ← keyParts (nestingLimit - 1) text
  let name ← parts.getLast?
  return ((parts.dropLast, name), rest)

/-! ## Values -/

/-- Drops a comment, if there is one. -/
def skipComment : List Char → List Char
  | '#' :: rest => rest.dropWhile isAllowed
  | text => text

/-- Drops white space, line breaks and comments that end in one. -/
def skipBlank : Nat → List Char → List Char
  | 0, text => text
  | fuel + 1, text =>
    let text := skipSpace text
    match lineBreak? (skipComment text) with
    | some rest => skipBlank fuel rest
    | none => text

/-- The items of an array from behind its opening bracket or a comma. -/
def arrayItems (value : Reader Node) : Nat → Reader (List Node)
  | 0, _ => none
  | fuel + 1, text =>
    match skipBlank text.length text with
    | ']' :: rest => some ([], rest)
    | text =>
      match value text with
      | none => none
      | some (item, rest) =>
        match skipBlank rest.length rest with
        | ']' :: rest => some ([item], rest)
        | ',' :: rest => (arrayItems value fuel rest).map fun (items, rest) => (item :: items, rest)
        | _ => none

/-- A key and its value. -/
def assignment (value : Reader Node) : Reader (List String × String × Node) := fun text => do
  let ((path, key), rest) ← keyPath text
  let (_, rest) ← mark '=' rest
  let (node, rest) ← value (skipSpace rest)
  return ((path, key, node), rest)

/-- The entries of an inline table that has some, added to those before. -/
def inlineEntries (value : Reader Node) : Nat → Entries → Reader Entries
  | 0, _, _ => none
  | fuel + 1, entries, text =>
    match assignment value text with
    | none => none
    | some ((path, key, node), rest) =>
      match Entries.assign path key node .header entries, skipSpace rest with
      | some entries, '}' :: rest => some (entries, rest)
      | some entries, ',' :: rest => inlineEntries value fuel entries rest
      | _, _ => none

/-- An inline table from behind its opening brace. -/
def inlineTable (value : Reader Node) : Reader Node := fun text =>
  match skipSpace text with
  | '}' :: rest => some (.map [], rest)
  | text => (inlineEntries value (text.length + 1) [] text).map fun (entries, rest) =>
      (.map (Item.entriesToNodes entries), rest)

/-- A value that opens at most so many arrays and inline tables inside each other. -/
def value : Nat → Reader Node
  | 0, text => scalar text
  | levels + 1, text =>
    match text with
    | '[' :: rest =>
      (arrayItems (value levels) (rest.length + 1) rest).map fun (items, rest) =>
        (.seq items, rest)
    | '{' :: rest => inlineTable (value levels) rest
    | _ => scalar text

/-! ## Lines -/

/-- What stands behind the end of a line that has nothing more to say. -/
def lineEnd? (text : List Char) : Option (List Char) :=
  match skipComment (skipSpace text) with
  | [] => some []
  | text => lineBreak? text

/-- What has been read: the root table and the header under which the text goes on. -/
structure Document where
  root : Entries := []
  header : List String := []

namespace Document

/-- Reads a header from behind its first bracket. -/
def readHeader (document : Document) (text : List Char) : Option (Document × List Char) :=
  match text with
  | '[' :: text => do
    let ((path, key), rest) ← keyPath text
    let (_, rest) ← mark ']' rest
    let (_, rest) ← mark ']' rest
    let root ← Entries.openElement path key .header document.root
    return (⟨root, path ++ [key]⟩, rest)
  | _ => do
    let ((path, key), rest) ← keyPath text
    let (_, rest) ← mark ']' rest
    let root ← Entries.openTable path key .header document.root
    return (⟨root, path ++ [key]⟩, rest)

/-- Reads an assignment into the table of the last header. -/
def readAssignment (document : Document) (text : List Char) : Option (Document × List Char) := do
  let ((path, key, node), rest) ← assignment (value (nestingLimit - 1)) text
  let root ← Entries.within false (Entries.assign path key node) document.header .header
    document.root
  return ({ document with root }, rest)

/-- Reads what a line says, from behind the space in front of it. -/
def readLine (document : Document) (text : List Char) : Option (Document × List Char) :=
  match text with
  | [] => some (document, text)
  | '[' :: rest => document.readHeader rest
  | c :: _ =>
    if c = '#' || (lineBreak? text).isSome then some (document, text)
    else document.readAssignment text

/-- Reads all lines. -/
def readLines : Nat → Document → List Char → Option Document
  | 0, document, text => if text.isEmpty then some document else none
  | fuel + 1, document, text =>
    if text.isEmpty then some document
    else
      match document.readLine (skipSpace text) with
      | none => none
      | some (document, rest) =>
        match lineEnd? rest with
        | none => none
        | some rest => readLines fuel document rest

end Document

/-- Reads a TOML text. -/
def parse? (text : String) : Option Node :=
  let chars :=
    match text.toList with
    | '\ufeff' :: rest => rest
    | chars => chars
  (Document.readLines chars.length {} chars).map fun document =>
    .map (Item.entriesToNodes document.root)

end SchemaIR.Toml
