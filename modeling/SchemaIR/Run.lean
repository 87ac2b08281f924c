import SchemaIR.Files.Disk
import SchemaIR.Log

/-!
# Runs

A run works on a disk, reports events and may fail. What it reported and wrote before it
failed stays.
-/

namespace SchemaIR

/-- The lowering of a program in which an event happened, told by the sizes of the tables
of the program. -/
structure Span where
  types : Nat
  enums : Nat
  consts : Nat
deriving DecidableEq, Repr

/-- An event and the lowering inside which it happened. -/
structure Report where
  event : Event
  span : Option Span := none
deriving Repr

/-- Work on a disk that is reported and may fail. -/
abbrev Run (m : Type → Type) := ExceptT Failure (StateT (Array Report) m)

namespace Run

variable {m : Type → Type} [Monad m] {α : Type}

/-- Reports an event. -/
def report (event : Event) : Run m Unit := modify (·.push { event })

/-- Reports the events of a lowering. -/
def reportWithin (span : Span) (log : Log) : Run m Unit :=
  modify (· ++ log.map fun event => { event, span := some span })

/-- Asks a disk for something; a refusal fails in the given context. -/
def ask (context : String) (request : m (Except FileFault α)) : Run m α := do
  match ← request with
  | .ok a => return a
  | .error fault => throw ((Failure.of (.file fault)).inside context)

/-- Performs a run. -/
def perform (run : Run m α) : m (Except Failure α × Array Report) :=
  StateT.run (ExceptT.run run) #[]

end Run

end SchemaIR
