import SchemaIR.Program.Loading
import SchemaIR.Run
import SchemaIR.Schema.Published
import SchemaIR.Schema.Text
import SchemaIR.Settings

/-!
# Generated files

The two things that are written: the schema of a program, and the JSON Schema that
describes such schemas. Nothing is written before everything that can be wrong with the
input has been checked.
-/

namespace SchemaIR

variable {m : Type → Type} [Monad m] [Disk m]

/-- Puts a failure into a context. -/
def inContext {α : Type} (context : String) : Except Cause α → Run m α
  | .ok a => pure a
  | .error cause => throw ((Failure.of cause).inside context)

/-- Reports what happened while a program was lowered, and what came of it. -/
def reportLowered (program : Program) (limit : Nat) (lowered : Lowered) : Run m Unit := do
  Run.reportWithin ⟨program.types.size, program.enums.size, program.consts.size⟩ lowered.log
  let schema := lowered.schema
  Run.report (.loweredSummary schema.types.length schema.enums.length schema.constants.length)
  let stats := lowered.stats
  if stats.cyclesBroken > 0 || stats.depthExceeded > 0 then
    Run.report (.cutSummary stats.cyclesBroken stats.depthExceeded limit)

/-- Lowers the program in a file and writes its schema into a directory. The answer is the
name of the file that was written. -/
def generate (input directory : String) (settings : Settings) : Run m String := do
  match settings.validate with
  | .ok () => pure ()
  | .error failure => throw failure
  Run.report (.loading input)
  let program ← inContext s!"Failed to load program: {input}" (← (Program.load input : m _))
  let lowered := program.lower settings.build.maxDepth
  reportLowered program settings.build.maxDepth lowered
  let text := lowered.schema.render settings.ir
  Run.ask s!"Failed to create output directory: {directory}" (Disk.createDirectories directory)
  let name := FileName.join directory settings.ir.filename
  Run.ask s!"Failed to write IR: {name}" (Disk.writeText name text)
  Run.report (.wroteSchema name)
  return name

/-- Writes the JSON Schema of schemas into a file. -/
def writePublished (name : String) : Run m Unit := do
  match (FileName.parent? name).filter (· ≠ "") with
  | some parent =>
    Run.ask s!"Failed to create directory: {parent}" (Disk.createDirectories parent)
  | none => pure ()
  Run.ask s!"Failed to write schema: {name}" (Disk.writeText name Schema.Published.text)
  Run.report (.wroteJsonSchema name)

end SchemaIR
