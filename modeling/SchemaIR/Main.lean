import SchemaIR.CommandLine

/-!
# The program

Runs the command line on the files of the machine.
-/

namespace SchemaIR

/-- The number of a fault, which some calls of the machine give with a minus sign. -/
def faultNumber (code : UInt32) : UInt32 := min code (0 - code)

/-- What the machine refuses. Where one kind of error stands for several faults, its number
says which of them it is. -/
def FileFault.ofError : IO.Error → FileFault
  | .noFileOrDirectory .. => .notFound
  | .alreadyExists .. => .alreadyExists
  | .inappropriateType _ code _ =>
    if faultNumber code = 20 then .notDirectory else .isDirectory
  | .invalidArgument _ code _ =>
    if faultNumber code = 36 then .nameTooLong
    else if faultNumber code = 22 then .invalidName
    else .other
  | .userError _ => .invalidData
  | _ => .other

/-- An answer of the machine. -/
def answer {α : Type} (action : IO α) : IO (Except FileFault α) := do
  try
    return .ok (← action)
  catch error =>
    return .error (.ofError error)

/-- Whether the machine has a file of a name, once links are followed. -/
def hasFile (name : String) : IO Bool := do
  try
    let path ← IO.FS.realPath name
    let metadata ← path.metadata
    return metadata.type == .file
  catch _ =>
    return false

instance : Disk IO where
  readText name := answer (IO.FS.readFile name)
  isFile := hasFile
  createDirectories name := answer (unless name.isEmpty do IO.FS.createDirAll name)
  writeText name text := answer (IO.FS.writeFile name text)

/-- How the program is to be called. -/
def usage : String :=
  "Usage: vdl [-v|--verbose] [-d|--debug] ir -i INPUT [-o DIRECTORY] [-c CONFIG] [--minify] " ++
  "[--max-depth LIMIT]\n       vdl [-v|--verbose] [-d|--debug] schema [-o OUTPUT]"

end SchemaIR

open SchemaIR in
/-- Runs the command that the arguments ask for. -/
def main (args : List String) : IO UInt32 := do
  let names := ["VDL_CONFIG", "VDL_MINIFY", "VDL_MAX_DEPTH", "RUST_LOG"]
  let values ← names.mapM fun name => return (name, ← IO.getEnv name)
  let env := CommandLine.Environment.ofLookup fun name => (values.lookup name).join
  let outcome ← CommandLine.execute env args
  for line in outcome.messages do
    IO.eprintln line
  if outcome.exitCode == 2 then
    IO.eprintln usage
  IO.print outcome.output
  return outcome.exitCode.toUInt32
