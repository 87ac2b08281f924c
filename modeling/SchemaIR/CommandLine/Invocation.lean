import SchemaIR.CommandLine.Options
import SchemaIR.Log
import SchemaIR.Number.Integer

/-!
# Invocations

What the arguments and the environment ask for. An environment variable counts only where
the option that it stands for is not given, and is not looked at otherwise.
-/

namespace SchemaIR.CommandLine

/-- The environment variables that are looked at. -/
structure Environment where
  config : Option String := none
  minify : Option String := none
  maxDepth : Option String := none
  log : Option String := none

/-- The variable behind each part of the environment. -/
def Environment.ofLookup (value? : String → Option String) : Environment where
  config := value? "VDL_CONFIG"
  minify := value? "VDL_MINIFY"
  maxDepth := value? "VDL_MAX_DEPTH"
  log := value? "RUST_LOG"

/-- What is to be done. -/
inductive Command where
  /-- Lowers a program into the schema. -/
  | ir (input output : String) (config : Option String) (minify : Bool) (maxDepth : Option Nat)
  /-- Prints or writes the JSON Schema of schemas. -/
  | schema (output : Option String)
deriving DecidableEq, Repr

/-- What is to be done and how much is told about it. -/
structure Invocation where
  verbose : Bool
  debug : Bool
  command : Command
deriving DecidableEq, Repr

/-- The least important level that is shown when nothing else is asked for. -/
def Invocation.level (invocation : Invocation) : Level :=
  if invocation.debug then .trace else if invocation.verbose then .debug else .info

/-- The options in front of the command. -/
def globalOptions : List Known :=
  [{ name := "verbose", letter := 'v', takesValue := false },
   { name := "debug", letter := 'd', takesValue := false }]

/-- The options of `ir`. -/
def irOptions : List Known :=
  [{ name := "input", letter := 'i' }, { name := "output", letter := 'o' },
   { name := "config", letter := 'c' }, { name := "minify", takesValue := false },
   { name := "max-depth" }]

/-- The options of `schema`. -/
def schemaOptions : List Known := [{ name := "output", letter := 'o' }]

/-- A file name, which may not be empty. -/
def fileName? (text : String) : Option String := if text.isEmpty then none else some text

/-- A file name that may be missing. -/
def fileNameIfAny? : Option String → Option (Option String)
  | none => some none
  | some text => (fileName? text).map some

/-- A truth value in words. -/
def truth? : String → Option Bool
  | "true" => some true
  | "false" => some false
  | _ => none

/-- An unsigned number of 64 bits. -/
def limit? (text : String) : Option Nat :=
  if text.toList.head? = some '-' then none
  else
    match Number.readInteger Number.unsigned64 text.toList with
    | .ok n => some n.toNat
    | .error _ => none

/-- Reads the arguments of `ir`. -/
def irCommand? (env : Environment) (args : List String) : Option Command := do
  let given ← readOptions irOptions args
  let input ← (given.lookup "input").bind fileName?
  let output ← fileName? ((given.lookup "output").getD ".")
  let config ← fileNameIfAny? ((given.lookup "config").or env.config)
  let minify ←
    match given.lookup "minify", env.minify with
    | some _, _ => some true
    | none, some text => truth? text
    | none, none => some false
  let maxDepth ←
    match (given.lookup "max-depth").or env.maxDepth with
    | some text => (limit? text).map some
    | none => some none
  return .ir input output config minify maxDepth

/-- Reads the arguments of `schema`. -/
def schemaCommand? (args : List String) : Option Command := do
  let given ← readOptions schemaOptions args
  let output ← fileNameIfAny? (given.lookup "output")
  return .schema output

/-- Reads a command with its arguments. -/
def command? (env : Environment) : List String → Option Command
  | "ir" :: args => irCommand? env args
  | "schema" :: args => schemaCommand? args
  | _ => none

/-- Reads all arguments. There is no answer if they are not understood. -/
def invocation? (env : Environment) (args : List String) : Option Invocation := do
  let front := args.takeWhile isOption
  if "--" ∈ front then none
  let given ← readOptions globalOptions front
  let command ← command? env (args.drop front.length)
  return ⟨(given.lookup "verbose").isSome, (given.lookup "debug").isSome, command⟩

end SchemaIR.CommandLine
