import SchemaIR.Lowering.Members
import SchemaIR.Value

/-!
# Evaluation of literals

A literal is evaluated by following the references in it. Nothing fails as a whole:
a sub-expression without a value is left out of the array or object it stands in.

Three things make this more than a fold over literals. A constant that has a value is
evaluated once; later look-ups are answered from a cache, provided that the value still
fits under the nesting limit where it is wanted. A constant that is being evaluated has
no value for the references inside it, which cuts circles. And every literal other than
a reference opens a level of nesting, of which there are only `limit`.

Evaluation of a literal is recursive in the literal and leaves the look-up of names to
its `Scope`; looking up a constant is recursive in the number of constants that may
still be opened. Since a constant is opened only when it is not being evaluated, the
number of declared constants is enough.
-/

namespace SchemaIR

/-- A cached value with its nesting depth. -/
structure Cached where
  value : Value
  depth : Nat
deriving Inhabited

/-- The state of an evaluation. -/
structure Resolver where
  /-- The constants that have a value already. -/
  cache : List (String × Cached) := []
  /-- The constants being evaluated. -/
  active : List String := []
  /-- The levels of nesting that are open. -/
  depth : Nat := 0
  stats : Stats := {}
  log : Log := #[]
deriving Inhabited

namespace Resolver

/-- Reports an event. -/
def note (st : Resolver) (event : Event) : Resolver :=
  { st with log := st.log.push event }

/-- Counts something dropped for nesting too deep. -/
def countCut (st : Resolver) : Resolver :=
  { st with stats := { st.stats with depthExceeded := st.stats.depthExceeded + 1 } }

/-- Counts a circle that was cut. -/
def countCycle (st : Resolver) : Resolver :=
  { st with stats := { st.stats with cyclesBroken := st.stats.cyclesBroken + 1 } }

/-- Counts an answer from the cache. -/
def countHit (st : Resolver) : Resolver :=
  { st with stats := { st.stats with cacheHits := st.stats.cacheHits + 1 } }

/-- Marks a constant as being evaluated. -/
def start (st : Resolver) (name : String) : Resolver :=
  { st with
    active := name :: st.active
    stats := { st.stats with evaluations := st.stats.evaluations + 1 } }

/-- Takes back the mark of a constant. -/
def finish (st : Resolver) (name : String) : Resolver :=
  { st with active := st.active.filter (· ≠ name) }

/-- Keeps the value of a constant. -/
def store (st : Resolver) (name : String) (value : Value) : Resolver :=
  { st with cache := (name, ⟨value, value.depth⟩) :: st.cache }

/-- Runs `body` one level deeper, or drops it when no level is left. -/
def within (limit : Nat) (body : Resolver → Option Value × Resolver) (st : Resolver) :
    Option Value × Resolver :=
  if limit ≤ st.depth then (none, (st.note (.literalTooDeep limit)).countCut)
  else
    let (value, st) := body { st with depth := st.depth + 1 }
    (value, { st with depth := st.depth - 1 })

end Resolver

/-- An evaluation that may come out empty. -/
abbrev Evaluation := Resolver → Option Value × Resolver

/-- What a literal is evaluated in: the nesting limit and the look-up of names. -/
structure Scope where
  limit : Nat
  constant : String → Evaluation
  member : String → String → Evaluation

namespace Scope

/-- The value of a reference: a constant, or a member of an enumeration. -/
def reference (scope : Scope) (target : Reference) : Evaluation :=
  match target.member with
  | none => scope.constant target.name
  | some member => scope.member target.name member

/-- The entries that a spread adds to an object. Only constants can be spread, and
only those that are objects add anything. -/
def spread (scope : Scope) (source : Reference) (st : Resolver) :
    List (String × Value) × Resolver :=
  if source.member.isSome then ([], st)
  else
    match scope.constant source.name st with
    | (some (.object entries), st) => (entries, st)
    | (some value, st) => ([], st.note (.spreadOfNonObject source.name value.kind))
    | (none, st) => ([], st.note (.spreadUnresolved source.name))

end Scope

/-- The value of an integer literal. -/
def evaluateInt (raw : String) : Evaluation := fun st =>
  match Number.readInt64 raw with
  | .ok n => (some (.int n), st)
  | .error fault => (none, st.note (.badInteger raw fault))

/-- The value of a float literal, which has to be finite. -/
def evaluateFloat (raw : String) : Evaluation := fun st =>
  match Number.readFloat raw with
  | .ok x => if x.isFinite then (some (.float x), st) else (none, st.note (.floatOutOfRange raw))
  | .error fault => (none, st.note (.badFloat raw fault))

mutual

/-- The value of a literal. A reference stands for its target and opens no level. -/
def Literal.evaluate (scope : Scope) : Literal → Evaluation
  | .reference target, st => scope.reference target st
  | .string text, st => st.within scope.limit fun st => (some (.string text), st)
  | .int raw, st => st.within scope.limit (evaluateInt raw)
  | .float raw, st => st.within scope.limit (evaluateFloat raw)
  | .bool flag, st => st.within scope.limit fun st => (some (.bool flag), st)
  | .object entries, st => st.within scope.limit fun st =>
    let (entries, st) := evaluateEntries scope entries st
    (some (.object entries), st)
  | .array elements, st => st.within scope.limit fun st =>
    let (items, st) := evaluateElements scope elements st
    (some (.array items), st)

/-- The values of the elements that have one, in order. -/
def evaluateElements (scope : Scope) : List Literal → Resolver → List Value × Resolver
  | [], st => ([], st)
  | element :: rest, st =>
    let (value?, st) := element.evaluate scope st
    let (others, st) := evaluateElements scope rest st
    (value?.toList ++ others, st)

/-- The entries of an object: fields that have a value, and whatever spreads add. -/
def evaluateEntries (scope : Scope) :
    List LiteralEntry → Resolver → List (String × Value) × Resolver
  | [], st => ([], st)
  | .spread source :: rest, st =>
    let (added, st) := scope.spread source st
    let (others, st) := evaluateEntries scope rest st
    (added ++ others, st)
  | .field key value :: rest, st =>
    let (value?, st) := value.evaluate scope st
    let (others, st) := evaluateEntries scope rest st
    (value?.toList.map (key, ·) ++ others, st)

end

/-- The value that the text of an enum member stands for. -/
def memberValue (valueType : ValueType) (text : String) : Option Value :=
  match valueType with
  | .string => some (.string text)
  | .int => (Number.readInt64 text).toOption.map .int

namespace Program

/-- The value of `Enum.Member`: the first member of that name, inherited ones first. -/
def memberConstant (program : Program) (limit : Nat) (enum member : String) : Evaluation :=
  fun st =>
    match program.enums.find? enum with
    | none => (none, st)
    | some decl =>
      let (members, events) := program.enumMembers limit decl
      let value? := (members.find? (·.name = member)).bind (memberValue decl.valueType ·.value)
      (value?, { st with log := st.log ++ events })

/-- A look-up that the cache answers. The value is withheld where it would nest too
deep. -/
def reuse (limit : Nat) (name : String) (known : Cached) : Evaluation := fun st =>
  let st := (st.note (.cacheHit name)).countHit
  if limit < st.depth + known.depth then
    (none, (st.note (.constantTooDeep name known.depth limit)).countCut)
  else (some known.value, st)

/-- Evaluates the literal of a constant that is not being evaluated yet, by `evaluate`,
and keeps the value if there is one. -/
def visit (name : String) (evaluate : Evaluation) : Evaluation := fun st =>
  let (value?, st) := evaluate (st.start name)
  let st := st.finish name
  match value? with
  | some value => (value?, (st.note (.constantResolved name value.kind)).store name value)
  | none => (none, st.note (.constantUnresolved name))

/-- The value of a constant, where at most `budget` more constants may be opened
inside one another. -/
def constant (program : Program) (limit : Nat) : Nat → String → Evaluation
  | budget, name, st =>
    match st.cache.lookup name with
    | some known => reuse limit name known st
    | none =>
      match program.consts.find? name with
      | none => (none, st)
      | some decl =>
        if name ∈ st.active then (none, (st.note (.cycleBroken name)).countCycle)
        else
          match decl.value, budget with
          | some literal, budget + 1 =>
            visit name (literal.evaluate
              ⟨limit, program.constant limit budget, program.memberConstant limit⟩) st
          | _, _ => (none, st)

/-- The scope of the whole program. -/
def scope (program : Program) (limit : Nat) : Scope :=
  ⟨limit, program.constant limit program.consts.size, program.memberConstant limit⟩

/-- The value of a constant of the program. -/
def resolveConstant (program : Program) (limit : Nat) (name : String) : Evaluation :=
  (program.scope limit).constant name

/-- The value of a literal in the scope of the program. -/
def resolveLiteral (program : Program) (limit : Nat) (literal : Literal) : Evaluation :=
  literal.evaluate (program.scope limit)

end Program

end SchemaIR
