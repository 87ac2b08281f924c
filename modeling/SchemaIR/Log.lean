import SchemaIR.Number.Decimal

/-!
# Log events

Everything that the program reports while it works is an event. An event has a
level, the component that reports it and a message; the wording of all messages is
here, so the modules that report only say what happened.
-/

namespace SchemaIR

/-- How much an event matters, the most important level first. -/
inductive Level where
  | warn
  | info
  | debug
  | trace
deriving DecidableEq, Repr

namespace Level

/-- The levels from the most important to the least. -/
def rank : Level → Nat
  | .warn => 2
  | .info => 3
  | .debug => 4
  | .trace => 5

/-- The name that log lines show. -/
def name : Level → String
  | .warn => "WARN"
  | .info => "INFO"
  | .debug => "DEBUG"
  | .trace => "TRACE"

end Level

/-- The counters of an evaluation. -/
structure Stats where
  /-- Literals of constants that were evaluated. -/
  evaluations : Nat := 0
  /-- Look-ups of constants that the cache answered. -/
  cacheHits : Nat := 0
  /-- References dropped because their target was being evaluated already. -/
  cyclesBroken : Nat := 0
  /-- What was dropped because it nests too deep. -/
  depthExceeded : Nat := 0
deriving DecidableEq, Repr, Inhabited

/-- The part of the program that reports an event. -/
inductive Component where
  | lowering
  | evaluation
  | flattening
  | conversion
  | settings
  | command
deriving DecidableEq, Repr

namespace Component

/-- The path under which log lines name a component. -/
def path : Component → String
  | .lowering => "vdl_core::lower"
  | .evaluation => "vdl_core::lower::resolve"
  | .flattening => "vdl_core::lower::flatten"
  | .conversion => "vdl_core::lower::convert"
  | .settings => "vdl::config"
  | .command => "vdl"

end Component

/-- Something worth reporting. -/
inductive Event where
  | cacheHit (constant : String)
  | constantTooDeep (constant : String) (depth limit : Nat)
  | cycleBroken (constant : String)
  | constantResolved (constant kind : String)
  | constantUnresolved (constant : String)
  | literalTooDeep (limit : Nat)
  | badInteger (raw : String) (fault : Number.IntegerFault)
  | badFloat (raw : String) (fault : Number.FloatFault)
  | floatOutOfRange (raw : String)
  | spreadOfNonObject (constant kind : String)
  | spreadUnresolved (constant : String)
  | enumCycle (owner target : String)
  | enumChainTooDeep (owner : String) (limit : Nat)
  | typeCycle (target : String)
  | unknownPrimitive (name : String)
  | nestingTooDeep (limit : Nat)
  | convertingType (name : String)
  | convertingEnum (name : String)
  | convertingConstant (name : String)
  | constantFallback (name : String)
  | lowered (types enums constants docs : Nat)
  | evaluated (stats : Stats)
  | usingConfig (path : String)
  | loading (path : String)
  | loweredSummary (types enums constants : Nat)
  | cutSummary (cyclesBroken depthExceeded limit : Nat)
  | wroteSchema (path : String)
  | wroteJsonSchema (path : String)
deriving Repr, DecidableEq

namespace Event

/-- The level of an event. -/
def level : Event → Level
  | .constantTooDeep .. | .cycleBroken .. | .literalTooDeep .. | .enumChainTooDeep ..
  | .nestingTooDeep .. | .constantFallback .. => .warn
  | .loading .. | .loweredSummary .. | .cutSummary .. | .wroteSchema ..
  | .wroteJsonSchema .. => .info
  | .constantResolved .. | .constantUnresolved .. | .badInteger .. | .badFloat ..
  | .floatOutOfRange .. | .spreadOfNonObject .. | .spreadUnresolved .. | .unknownPrimitive ..
  | .convertingType .. | .convertingEnum .. | .convertingConstant .. | .lowered ..
  | .evaluated .. | .usingConfig .. => .debug
  | .cacheHit .. | .enumCycle .. | .typeCycle .. => .trace

/-- Who reports an event. -/
def component : Event → Component
  | .cacheHit .. | .constantTooDeep .. | .cycleBroken .. | .constantResolved ..
  | .constantUnresolved .. | .literalTooDeep .. | .badInteger .. | .badFloat ..
  | .floatOutOfRange .. | .spreadOfNonObject .. | .spreadUnresolved .. => .evaluation
  | .enumCycle .. | .enumChainTooDeep .. | .typeCycle .. => .flattening
  | .unknownPrimitive .. => .conversion
  | .nestingTooDeep .. | .convertingType .. | .convertingEnum .. | .convertingConstant ..
  | .constantFallback .. | .lowered .. | .evaluated .. => .lowering
  | .usingConfig .. => .settings
  | .loading .. | .loweredSummary .. | .cutSummary .. | .wroteSchema ..
  | .wroteJsonSchema .. => .command

/-- The wording of an event. -/
def message : Event → String
  | .cacheHit constant => s!"Constant cache hit: {constant}"
  | .constantTooDeep constant depth limit =>
    s!"Constant '{constant}' nests {depth} levels, exceeding max depth {limit} here; dropping it"
  | .cycleBroken constant => s!"Breaking constant reference cycle at '{constant}'"
  | .constantResolved constant kind => s!"Resolved constant {constant} ({kind})"
  | .constantUnresolved constant => s!"Constant {constant} did not resolve"
  | .literalTooDeep limit =>
    s!"Literal nesting exceeds max depth {limit}, dropping sub-expression"
  | .badInteger raw fault => s!"Invalid integer literal '{raw}': {fault.message}"
  | .badFloat raw fault => s!"Invalid float literal '{raw}': {fault.message}"
  | .floatOutOfRange raw => s!"Float literal '{raw}' is out of range"
  | .spreadOfNonObject constant kind =>
    s!"Spread of '{constant}' is a {kind} value, not an object; skipping"
  | .spreadUnresolved constant => s!"Spread of '{constant}' did not resolve"
  | .enumCycle owner target => s!"Skipping cyclic enum spread {owner} -> {target}"
  | .enumChainTooDeep owner limit =>
    s!"Enum spread chain through '{owner}' exceeds max depth {limit}"
  | .typeCycle target => s!"Skipping cyclic type spread of {target}"
  | .unknownPrimitive name => s!"Unknown primitive '{name}', using string"
  | .nestingTooDeep limit => s!"Type nesting exceeds max depth {limit}, dropping spread"
  | .convertingType name => s!"Converting type {name}"
  | .convertingEnum name => s!"Converting enum {name}"
  | .convertingConstant name => s!"Converting constant {name}"
  | .constantFallback name =>
    s!"Constant {name} did not resolve, emitting an empty string"
  | .lowered types enums constants docs =>
    s!"Lowered {types} types, {enums} enums, {constants} constants, {docs} docs"
  | .evaluated stats =>
    s!"Resolver: {stats.evaluations} evaluations, {stats.cacheHits} cache hits, " ++
    s!"{stats.cyclesBroken} cycles broken, {stats.depthExceeded} depth cuts"
  | .usingConfig path => s!"Using config file {path}"
  | .loading path => s!"Loading program from {path}"
  | .loweredSummary types enums constants =>
    s!"Lowered {types} types, {enums} enums and {constants} constants"
  | .cutSummary cycles cuts limit =>
    s!"{cycles} constant cycles broken, {cuts} sub-expressions cut at max depth {limit}"
  | .wroteSchema path => s!"Wrote IR to {path}"
  | .wroteJsonSchema path => s!"Wrote IR JSON Schema to {path}"

/-- The event as a log line without time, span and component. -/
def line (event : Event) : String := event.level.name ++ " " ++ event.message

end Event

/-- Events in the order in which they happened. -/
abbrev Log := Array Event

/-- The events that a reader at the given level sees. -/
def Log.upTo (log : Log) (level : Level) : Log :=
  log.filter fun event => event.level.rank ≤ level.rank

end SchemaIR
