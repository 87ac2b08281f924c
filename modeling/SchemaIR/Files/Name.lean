/-!
# File names

A name is a sequence of pieces between slashes. Some pieces say nothing: empty ones, and
single dots except at the very front. What a name says about its parent and its extension
is read off the text and does not depend on which files there are.
-/

namespace SchemaIR.FileName

/-- The pieces between the slashes of a name, of which there is at least one. -/
def splitPieces : List Char → List (List Char)
  | [] => [[]]
  | '/' :: rest => [] :: splitPieces rest
  | c :: rest =>
    match splitPieces rest with
    | [] => [[c]]
    | piece :: pieces => (c :: piece) :: pieces

/-- The pieces between the slashes of a name, of which there is at least one. -/
def pieces (name : String) : List String :=
  (splitPieces name.toList).map String.ofList

/-- Puts slashes between pieces. -/
def ofPieces (pieces : List String) : String := "/".intercalate pieces

/-- Whether a name starts at the root. -/
def isAbsolute (name : String) : Bool := name.toList.head? = some '/'

/-- Whether a piece says nothing. -/
def isSilent (piece : String) : Bool := piece = "" || piece = "."

/-- Drops the pieces at the end that say nothing. -/
def trimEnd (pieces : List String) : List String :=
  (pieces.reverse.dropWhile isSilent).reverse

/-- What a name starts from: the root, the current directory by its dot, or nothing. -/
inductive Start where
  | root
  | dot
  | none
deriving DecidableEq

/-- A name cut into where it starts and the pieces after that, up to the last one that
says something. -/
def body (name : String) : Start × List String :=
  match pieces name with
  | [] => (.none, [])
  | first :: rest =>
    if isAbsolute name then (.root, trimEnd rest)
    else if first = "." then (.dot, trimEnd rest)
    else (.none, trimEnd (first :: rest))

/-- The name without its last piece; the root and the empty name have no parent. -/
def parent? (name : String) : Option String :=
  match body name with
  | (.root, []) => none
  | (.none, []) => none
  | (.dot, []) => some ""
  | (.root, pieces) => some ("/" ++ ofPieces (trimEnd pieces.dropLast))
  | (.dot, pieces) => some (ofPieces ("." :: trimEnd pieces.dropLast))
  | (.none, pieces) => some (ofPieces (trimEnd pieces.dropLast))

/-- The last piece, unless it leads upwards. -/
def last? (name : String) : Option String :=
  (body name).2.getLast?.filter (· ≠ "..")

/-- The part of a piece behind its last dot. A dot at the very front does not count. -/
def extensionOf? (piece : List Char) : Option (List Char) :=
  let behind := (piece.reverse.takeWhile (· ≠ '.')).reverse
  if behind.length + 1 < piece.length then some behind else none

/-- The extension of the last piece. -/
def extension? (name : String) : Option String := do
  let piece ← last? name
  let extension ← extensionOf? piece.toList
  return String.ofList extension

/-- A name inside a directory. An absolute name stays what it is. -/
def join (directory name : String) : String :=
  if isAbsolute name then name
  else
    match directory.toList.getLast? with
    | none => name
    | some '/' => directory ++ name
    | some _ => directory ++ "/" ++ name

end SchemaIR.FileName
