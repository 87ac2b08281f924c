import SchemaIR.Error

/-!
# Disks

What the program asks of the place where files are kept. Every request may be refused,
and a refusal is an answer like any other.
-/

namespace SchemaIR

/-- Somewhere to read from and to write to. -/
class Disk (m : Type → Type) where
  /-- The text of a file. -/
  readText : String → m (Except FileFault String)
  /-- Whether a name is that of a file. -/
  isFile : String → m Bool
  /-- Makes a directory and all directories on the way to it that are not there. -/
  createDirectories : String → m (Except FileFault Unit)
  /-- Makes a file with the given text, or replaces the text of a file. -/
  writeText : String → String → m (Except FileFault Unit)

end SchemaIR
