/-!
# Lines

A text is a non-empty list of lines with a newline between each two of them.
Splitting and joining are inverse to each other on lists of newline-free lines,
which is what lets a text be edited line by line.
-/

namespace SchemaIR.Text

/-- The lines of a text; the empty text is one empty line. -/
def splitLines : List Char → List (List Char)
  | [] => [[]]
  | c :: rest =>
    if c = '\n' then [] :: splitLines rest
    else
      match splitLines rest with
      | [] => [[c]]
      | line :: lines => (c :: line) :: lines

/-- Puts a newline between each two lines. -/
def joinLines : List (List Char) → List Char
  | [] => []
  | [line] => line
  | line :: next :: lines => line ++ '\n' :: joinLines (next :: lines)

/-- The text without a leading `lead`, or the whole text where it does not
start with it. -/
def dropLead (lead line : List Char) : List Char :=
  if lead.isPrefixOf line then line.drop lead.length else line

end SchemaIR.Text
