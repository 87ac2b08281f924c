import SchemaIR.Log

/-!
# Log filters

A filter says which events are shown. It is a list of directives, each of which sets how
much is shown of the components whose path starts with its target. Of the directives for
a component the one with the longest target counts, and of equal targets the last one.
-/

namespace SchemaIR

/-- How much is shown of some components. -/
structure Directive where
  /-- How the paths of the components start. -/
  target : String := ""
  /-- The rank of the least important level that is shown. -/
  rank : Nat
deriving DecidableEq, Repr

/-- Which events are shown. -/
abbrev Filter := List Directive

namespace Filter

/-- The rank that a word for a level stands for, in capitals or not. -/
def rank? (word : String) : Option Nat :=
  match word.toLower with
  | "off" | "0" => some 0
  | "error" | "1" => some 1
  | "warn" | "2" => some 2
  | "info" | "3" => some 3
  | "debug" | "4" => some 4
  | "trace" | "5" => some 5
  | _ => none

/-- Whether a text can be the target of a directive. -/
def isTarget (text : List Char) : Bool :=
  !text.isEmpty && text.all fun c => c.isAlphanum || c = '_' || c = ':' || c = '-'

/-- Reads a directive: a level, a target, or both with an equals sign between them. A
target without a level shows everything. -/
def directive? (text : String) : Option Directive :=
  match rank? text with
  | some rank => some { rank }
  | none =>
    let target := text.toList.takeWhile (· ≠ '=')
    let level := text.toList.drop (target.length + 1)
    if !isTarget target then none
    else if level.isEmpty then some ⟨String.ofList target, Level.trace.rank⟩
    else (rank? (String.ofList level)).map (⟨String.ofList target, ·⟩)

/-- The parts of a text between commas. -/
def parts : List Char → List (List Char)
  | [] => [[]]
  | ',' :: rest => [] :: parts rest
  | c :: rest =>
    match parts rest with
    | [] => [[c]]
    | part :: more => (c :: part) :: more

/-- Reads a filter. What is no directive is passed over, and without any directive
everything up to the given level is shown. -/
def ofText (default : Level) (text : String) : Filter :=
  match (parts text.toList).filterMap (directive? ∘ String.ofList) with
  | [] => [{ rank := default.rank }]
  | filter => filter

/-- The directive that counts for a path. -/
def directiveFor? (filter : Filter) (path : String) : Option Directive :=
  (filter.filter (·.target.toList.isPrefixOf path.toList)).foldl (fun best? directive =>
    match best? with
    | none => some directive
    | some best =>
      if best.target.length ≤ directive.target.length then some directive else some best) none

/-- Whether a level is shown of the component with a path. -/
def shows (filter : Filter) (path : String) (level : Level) : Bool :=
  match filter.directiveFor? path with
  | some directive => level.rank ≤ directive.rank
  | none => false

end Filter

end SchemaIR
