import SchemaIR.Files.Name
import SchemaIR.Run
import SchemaIR.Settings
import SchemaIR.Toml.Parser

/-!
# Settings files

Settings are kept in a TOML file. A run that names none takes the one beside the program,
if there is one.
-/

namespace SchemaIR.Settings

/-- The settings file that is looked for when none is named. -/
def defaultFile : String := "vdl.toml"

/-- Reads the text of a settings file. -/
def ofToml (text : String) : Except Cause Settings :=
  match (Toml.parse? text).bind (Settings.decode .toml) with
  | some settings => .ok settings
  | none => .error .toml

variable {m : Type → Type} [Monad m] [Disk m]

/-- Loads a settings file. -/
def loadFile (name : String) : Run m Settings := do
  let text ← Run.ask s!"Failed to read config file: {name}" (Disk.readText name)
  match ofToml text with
  | .ok settings => return settings
  | .error cause => throw ((Failure.of cause).inside s!"Failed to parse config file: {name}")

/-- Loads the settings file that is named, or else the one in a directory, or else the
defaults. -/
def load (name? : Option String) (directory : String) : Run m Settings := do
  match name? with
  | some name => loadFile name
  | none =>
    let name := FileName.join directory defaultFile
    if ← (Disk.isFile name : m Bool) then
      Run.report (.usingConfig name)
      loadFile name
    else return {}

end SchemaIR.Settings
