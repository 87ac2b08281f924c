import SchemaIR.Files.Disk
import SchemaIR.Files.Name
import SchemaIR.Json.Parser
import SchemaIR.Program.Decoding
import SchemaIR.Text.Quoted
import SchemaIR.Yaml.Parser

/-!
# Program files

A program is handed over as JSON or as YAML. The extension of a file says which of them
it is, and the file is read before its extension is looked at.
-/

namespace SchemaIR

/-- The formats of program files. -/
inductive Format where
  | json
  | yaml
deriving DecidableEq, Repr

namespace Format

/-- The usual extension of a format. -/
def extension : Format → String
  | .json => "json"
  | .yaml => "yaml"

/-- The format that an extension stands for. -/
def ofExtension? : String → Option Format
  | "json" => some .json
  | "yaml" => some .yaml
  | "yml" => some .yaml
  | _ => none

end Format

namespace Program

/-- Reads the JSON text of a program. -/
def ofJson (text : String) : Except Cause Program :=
  match (Json.parse? text).bind (Program.decode .json) with
  | some program => .ok program
  | none => .error .json

/-- Reads the YAML text of a program. -/
def ofYaml (text : String) : Except Cause Program :=
  match (Yaml.parse? text).bind (Program.decode .yaml) with
  | some program => .ok program
  | none => .error .yaml

/-- Reads the text of a program in a format. -/
def ofText : Format → String → Except Cause Program
  | .json => ofJson
  | .yaml => ofYaml

/-- Reads the text of a program file, in the format that the name of the file asks for. -/
def ofFile (name text : String) : Except Cause Program :=
  let extension := (FileName.extension? name).getD ""
  match Format.ofExtension? extension with
  | some format => ofText format text
  | none => .error (.unsupportedFormat s!"{name} (extension {Text.quoted extension})")

/-- Loads a program file. -/
def load {m : Type → Type} [Monad m] [Disk m] (name : String) : m (Except Cause Program) := do
  match ← Disk.readText name with
  | .ok text => return ofFile name text
  | .error fault => return .error (.file fault)

end Program

end SchemaIR
