import SchemaIR.Document.Reading
import SchemaIR.Error
import SchemaIR.Json.Basic
import SchemaIR.Lowering

/-!
# Settings

What can be configured: how deep lowering may nest and how the schema is written. Every
setting has a default. The only thing that can be wrong with settings is a limit of zero,
under which nothing can be lowered; it is not refused before the settings are used.
-/

namespace SchemaIR

/-- How a program is lowered. -/
structure BuildSettings where
  /-- The nesting limit of literals, spreads and inline objects. -/
  maxDepth : Nat := defaultLimit
deriving DecidableEq, Repr, Inhabited

/-- How a schema is written. -/
structure EmitSettings where
  /-- Whether the text has no white space. -/
  minify : Bool := false
  /-- The name of the file. -/
  filename : String := "ir.json"
deriving DecidableEq, Repr, Inhabited

/-- All settings. -/
structure Settings where
  build : BuildSettings := {}
  ir : EmitSettings := {}
deriving DecidableEq, Repr, Inhabited

namespace BuildSettings

/-- Refuses a limit of zero. -/
def validate (settings : BuildSettings) : Except Cause Unit :=
  if settings.maxDepth = 0 then .error (.invalidConfig "max_depth must be at least 1") else .ok ()

/-- Reads build settings. -/
def decode : Decoder BuildSettings := fun r node => do
  let record ← Record.read? ["max_depth"] r node
  let maxDepth ← record.withDefault "max_depth" defaultLimit (.natUpTo (UInt64.size - 1))
  return ⟨maxDepth⟩

/-- Build settings as JSON. -/
def toJson (settings : BuildSettings) : Json :=
  .object [("max_depth", .int settings.maxDepth)]

end BuildSettings

namespace EmitSettings

/-- Names another file; an empty name changes nothing. -/
def withFilename (settings : EmitSettings) (filename : String) : EmitSettings :=
  if filename.isEmpty then settings else { settings with filename }

/-- Reads emit settings. -/
def decode : Decoder EmitSettings := fun r node => do
  let record ← Record.read? ["minify", "filename"] r node
  let minify ← record.withDefault "minify" false .bool
  let filename ← record.withDefault "filename" "ir.json" .text
  return ⟨minify, filename⟩

/-- Emit settings as JSON. -/
def toJson (settings : EmitSettings) : Json :=
  .object [("minify", .bool settings.minify), ("filename", .string settings.filename)]

end EmitSettings

namespace Settings

/-- Reads settings. -/
def decode : Decoder Settings := fun r node => do
  let record ← Record.read? ["build", "ir"] r node
  let build ← record.withDefault "build" {} BuildSettings.decode
  let ir ← record.withDefault "ir" {} EmitSettings.decode
  return ⟨build, ir⟩

/-- Settings as JSON. -/
def toJson (settings : Settings) : Json :=
  .object [("build", settings.build.toJson), ("ir", settings.ir.toJson)]

/-- Applies what a command line asks for. It can turn minification on but not off. -/
def override (settings : Settings) (minify : Bool) (maxDepth : Option Nat) : Settings :=
  { build := { settings.build with maxDepth := maxDepth.getD settings.build.maxDepth }
    ir := { settings.ir with minify := settings.ir.minify || minify } }

/-- Refuses settings that cannot be used. -/
def validate (settings : Settings) : Except Failure Unit :=
  match settings.build.validate with
  | .ok () => .ok ()
  | .error cause => .error ((Failure.of cause).inside "Invalid [build] section")

end Settings

end SchemaIR
