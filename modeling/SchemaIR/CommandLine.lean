import SchemaIR.CommandLine.Invocation
import SchemaIR.Generation
import SchemaIR.Log.Filter
import SchemaIR.Settings.Loading

/-!
# The command line

A command either does its work, fails, or is not understood. The three are told apart by
the exit code.
-/

namespace SchemaIR.CommandLine

/-- What a command leaves behind besides files. -/
structure Outcome where
  exitCode : Nat
  output : String := ""
  /-- The lines of the log and of the error. -/
  messages : List String := []

/-- The lowering of a program as log lines name it. -/
def spanText (span : Span) : String :=
  s!"lower_with_stats\x7btypes={span.types} enums={span.enums} consts={span.consts}\x7d"

/-- A report as a log line without the time. -/
def reportLine (filter : Filter) (showTarget : Bool) (report : Report) : String :=
  let event := report.event
  let span :=
    match report.span with
    | some span =>
      if filter.shows Component.lowering.path .info then spanText span ++ ": " else ""
    | none => ""
  let target := if showTarget then event.component.path ++ ": " else ""
  event.level.name ++ " " ++ span ++ target ++ event.message

/-- The log lines of the reports that are shown. -/
def reportLines (filter : Filter) (showTarget : Bool) (reports : List Report) : List String :=
  (reports.filter fun report =>
    filter.shows report.event.component.path report.event.level).map
      (reportLine filter showTarget)

variable {m : Type → Type} [Monad m] [Disk m]

/-- Does what a command asks for; the answer is what is printed. -/
def Command.run : Command → Run m String
  | .ir input output config minify maxDepth => do
    let directory := (FileName.parent? input).getD "."
    let settings ← Settings.load config directory
    let _ ← generate input output (settings.override minify maxDepth)
    return ""
  | .schema (some output) => do
    writePublished output
    return ""
  | .schema none => return Schema.Published.text ++ "\n"

/-- Carries out what the arguments ask for. -/
def execute (env : Environment) (args : List String) : m Outcome := do
  match invocation? env args with
  | none => return { exitCode := 2 }
  | some invocation =>
    let (result, reports) ← Run.perform (m := m) invocation.command.run
    let filter := Filter.ofText invocation.level (env.log.getD "")
    let lines := reportLines filter invocation.debug reports.toList
    match result with
    | .ok output => return { exitCode := 0, output, messages := lines }
    | .error failure =>
      return { exitCode := 1, messages := lines ++ ["Error: " ++ failure.headline] }

end SchemaIR.CommandLine
