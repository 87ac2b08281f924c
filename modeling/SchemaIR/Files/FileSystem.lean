import SchemaIR.Files.Disk
import SchemaIR.Files.Name
import SchemaIR.Table

/-!
# File systems

A file system is a table of files and directories by their place, which is the list of
the names on the way from the root. Names are followed piece by piece from the current
directory; a piece in the middle has to be a directory, and so has everything in front of
a slash.
-/

namespace SchemaIR

/-- The bytes of a text. -/
def textBytes (text : String) : List UInt8 := text.toUTF8.data.toList

/-- The text that bytes spell, if they are a text. -/
def bytesText? (bytes : List UInt8) : Option String := String.fromUTF8? ⟨bytes.toArray⟩

/-- What can be found at a place. -/
inductive Entry where
  | file (content : List UInt8)
  | directory
deriving DecidableEq, Inhabited

/-- Files and directories. The root is always there. -/
structure FileSystem where
  entries : Table Entry := .empty
  /-- The current directory. -/
  here : List String := []
deriving Inhabited

namespace FileSystem

/-- The key of a place in the table. -/
def key (place : List String) : String := FileName.ofPieces place

/-- What is at a place. -/
def entry? (fs : FileSystem) (place : List String) : Option Entry :=
  if place.isEmpty then some .directory else fs.entries.find? (key place)

/-- Puts something at a place. -/
def put (fs : FileSystem) (place : List String) (entry : Entry) : FileSystem :=
  { fs with entries := fs.entries.insert (key place) entry }

/-- How many bytes a name may have. -/
def nameLimit : Nat := 4095

/-- How many bytes a piece of a name may have. -/
def pieceLimit : Nat := 255

/-- Follows pieces from a directory to a place and what is there. -/
def follow (fs : FileSystem) : List String → List String → Except FileFault (List String × Entry)
  | place, [] => .ok (place, .directory)
  | place, piece :: rest =>
    if FileName.isSilent piece then fs.follow place rest
    else if piece = ".." then fs.follow place.dropLast rest
    else if pieceLimit < piece.utf8ByteSize then .error .nameTooLong
    else
      match fs.entry? (place ++ [piece]), rest with
      | none, _ => .error .notFound
      | some .directory, rest => fs.follow (place ++ [piece]) rest
      | some (.file content), [] => .ok (place ++ [piece], .file content)
      | some (.file _), _ :: _ => .error .notDirectory

/-- Refuses what no file can be called. -/
def checkName (name : String) : Except FileFault Unit :=
  if name.isEmpty then .error .notFound
  else if '\x00' ∈ name.toList then .error .invalidName
  else if nameLimit < name.utf8ByteSize then .error .nameTooLong
  else .ok ()

/-- Where a name starts from. -/
def start (fs : FileSystem) (name : String) : List String :=
  if FileName.isAbsolute name then [] else fs.here

/-- What a name stands for. -/
def find (fs : FileSystem) (name : String) : Except FileFault (List String × Entry) := do
  checkName name
  fs.follow (fs.start name) (FileName.pieces name)

/-- Whether a name is that of a directory. -/
def isDirectory (fs : FileSystem) (name : String) : Bool :=
  match fs.find name with
  | .ok (_, .directory) => true
  | _ => false

/-- Whether a name is that of a file. -/
def isFile (fs : FileSystem) (name : String) : Bool :=
  match fs.find name with
  | .ok (_, .file _) => true
  | _ => false

/-- The text of a file. -/
def readText (fs : FileSystem) (name : String) : Except FileFault String :=
  match fs.find name with
  | .error fault => .error fault
  | .ok (_, .directory) => .error .isDirectory
  | .ok (_, .file content) =>
    match bytesText? content with
    | some text => .ok text
    | none => .error .invalidData

/-- The place that a name gives to something new: the directory around it, the name in
there and whether a slash follows. The name is missing when the last piece says that a
directory is meant. -/
structure Target where
  directory : List String
  name : Option String
  slash : Bool

/-- Where something new of a name goes. -/
def target (fs : FileSystem) (name : String) : Except FileFault Target := do
  checkName name
  let pieces := FileName.pieces name
  let body := (pieces.reverse.dropWhile (· = "")).reverse
  let (place, entry) ← fs.follow (fs.start name) body.dropLast
  if entry ≠ .directory then throw .notDirectory
  let last := body.getLast?.filter fun piece => !FileName.isSilent piece && piece ≠ ".."
  if (last.getD "").utf8ByteSize > pieceLimit then throw .nameTooLong
  return ⟨place, last, body.length < pieces.length⟩

/-- Makes a directory. -/
def makeDirectory (fs : FileSystem) (name : String) : Except FileFault FileSystem := do
  let target ← fs.target name
  match target.name with
  | none => throw .alreadyExists
  | some last =>
    let place := target.directory ++ [last]
    if (fs.entry? place).isSome then throw .alreadyExists
    return fs.put place .directory

/-- Makes a file with the given content, or replaces the content of a file. -/
def writeBytes (fs : FileSystem) (name : String) (content : List UInt8) :
    Except FileFault FileSystem := do
  let target ← fs.target name
  match target.name with
  | none => throw .isDirectory
  | some last =>
    let place := target.directory ++ [last]
    if target.slash || fs.entry? place = some .directory then throw .isDirectory
    return fs.put place (.file content)

/-- Makes a directory that may be there already. -/
def ensureDirectory (fs : FileSystem) (name : String) : Except FileFault FileSystem :=
  match fs.makeDirectory name with
  | .ok fs => .ok fs
  | .error fault => if fs.isDirectory name then .ok fs else .error fault

/-- Makes a directory and its parents up to a number of them. Those that were made stay,
also if a later one is refused. -/
def createParents : Nat → String → FileSystem → Except FileFault Unit × FileSystem
  | 0, _, fs => (.error .other, fs)
  | n + 1, name, fs =>
    if name.isEmpty then (.ok (), fs)
    else
      match fs.ensureDirectory name, FileName.parent? name with
      | .ok fs, _ => (.ok (), fs)
      | .error .notFound, some parent =>
        match createParents n parent fs with
        | (.error fault, fs) => (.error fault, fs)
        | (.ok (), fs) =>
          match fs.ensureDirectory name with
          | .ok fs => (.ok (), fs)
          | .error fault => (.error fault, fs)
      | .error .notFound, none => (.error .other, fs)
      | .error fault, _ => (.error fault, fs)

/-- Makes a directory and all directories on the way to it that are not there. -/
def createDirectories (name : String) (fs : FileSystem) : Except FileFault Unit × FileSystem :=
  createParents (name.length + 1) name fs

/-- Makes a file with the given text, or replaces the text of a file. -/
def writeText (name text : String) (fs : FileSystem) : Except FileFault Unit × FileSystem :=
  match fs.writeBytes name (textBytes text) with
  | .ok fs => (.ok (), fs)
  | .error fault => (.error fault, fs)

instance : Disk (StateM FileSystem) where
  readText name := fun fs => (fs.readText name, fs)
  isFile name := fun fs => (fs.isFile name, fs)
  createDirectories name := fun fs => createDirectories name fs
  writeText name text := fun fs => writeText name text fs

/-- A file system in which there is nothing but the current directory. -/
def empty (here : List String) : FileSystem :=
  { here
    entries := .ofList ((List.range here.length).map fun n =>
      (key (here.take (n + 1)), .directory)) }

/-- The files under the current directory, by their names there. -/
def files (fs : FileSystem) : List (String × List UInt8) :=
  let home := key fs.here ++ "/"
  fs.entries.entries.filterMap fun
    | (name, .file content) =>
      if home.toList.isPrefixOf name.toList then
        some (String.ofList (name.toList.drop home.length), content)
      else none
    | (_, .directory) => none

/-- The files under the current directory that are new or have another content. -/
def changes (before after : FileSystem) : List (String × List UInt8) :=
  let old := before.files
  after.files.filter fun (name, content) => old.lookup name ≠ some content

end FileSystem

end SchemaIR
