import SchemaIR.Text.Blank
import SchemaIR.Text.Lines

/-!
# Documentation texts

Documentation is written indented, to line up with the declaration it belongs
to. The indentation of the first line that has any content is taken to be that
of the whole text and is removed from every line that starts with it; lines
indented less or otherwise stay as they are. A text with no content at all is
no documentation.
-/

namespace SchemaIR.Doc

open SchemaIR.Text

/-- The white space in front of the first line that is not blank; empty when
there is no such line. -/
def indentation (lines : List (List Char)) : List Char :=
  match lines.find? (fun line => !line.all isBlank) with
  | some line => line.takeWhile isBlank
  | none => []

/-- Removes the indentation of the first non-blank line from every line that
starts with it. -/
def unindent (text : List Char) : List Char :=
  let lines := splitLines text
  joinLines (lines.map (dropLead (indentation lines)))

/-- Removes the common indentation of a text. -/
def normalizeIndent (text : String) : String :=
  String.ofList (unindent text.toList)

/-- The text unindented and trimmed, or nothing when it is blank. -/
def normalize (text : String) : Option String :=
  match trim (unindent text.toList) with
  | [] => none
  | content => some (String.ofList content)

/-- `normalize` for a text that may be absent. -/
def normalize? (text : Option String) : Option String :=
  text.bind normalize

end SchemaIR.Doc
