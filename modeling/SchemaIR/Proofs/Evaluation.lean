import SchemaIR.Lowering.Evaluation
import SchemaIR.Proofs.Table

/-!
# Evaluation as a judgment

The evaluator counts how many constants it may still open, so that its recursion is
visibly finite. No statement about evaluation should have to quote that budget. This
file replaces the evaluator by a judgment without one: `Evaluates` has a rule for each
thing that can happen to a query, and says which answer and which state come out.

Two theorems tie the two together. Every query in every state has a derivation, because
a constant is opened only while it is not being evaluated and there are finitely many of
them. And a derivation is what the evaluator computes, under any budget that covers the
constants still unopened. So the budget of the whole program is always enough, and what
is proved by induction on derivations holds of the evaluator.
-/

namespace SchemaIR

/-! ## The fields of a state

Each operation on the state touches the fields it is for and no others. -/

namespace Resolver

/-- Reports several events. -/
def report (st : Resolver) (events : Log) : Resolver :=
  { st with log := st.log ++ events }

/-- Opens a level. -/
def deeper (st : Resolver) : Resolver := { st with depth := st.depth + 1 }

/-- Closes a level. -/
def shallower (st : Resolver) : Resolver := { st with depth := st.depth - 1 }

/-- What follows the evaluation of the literal of a constant: the mark is taken back,
and a value is kept. -/
def conclude (st : Resolver) (name : String) : Option Value → Resolver
  | some value =>
      ((st.finish name).note (.constantResolved name value.kind)).store name value
  | none => (st.finish name).note (.constantUnresolved name)

@[simp] theorem note_fields (st : Resolver) (event : Event) :
    (st.note event).cache = st.cache ∧ (st.note event).active = st.active ∧
      (st.note event).depth = st.depth ∧ (st.note event).stats = st.stats :=
  ⟨rfl, rfl, rfl, rfl⟩

@[simp] theorem report_fields (st : Resolver) (events : Log) :
    (st.report events).cache = st.cache ∧ (st.report events).active = st.active ∧
      (st.report events).depth = st.depth ∧ (st.report events).stats = st.stats :=
  ⟨rfl, rfl, rfl, rfl⟩

@[simp] theorem countCut_fields (st : Resolver) :
    st.countCut.cache = st.cache ∧ st.countCut.active = st.active ∧
      st.countCut.depth = st.depth ∧
      st.countCut.stats = { st.stats with depthExceeded := st.stats.depthExceeded + 1 } :=
  ⟨rfl, rfl, rfl, rfl⟩

@[simp] theorem countCycle_fields (st : Resolver) :
    st.countCycle.cache = st.cache ∧ st.countCycle.active = st.active ∧
      st.countCycle.depth = st.depth ∧
      st.countCycle.stats = { st.stats with cyclesBroken := st.stats.cyclesBroken + 1 } :=
  ⟨rfl, rfl, rfl, rfl⟩

@[simp] theorem countHit_fields (st : Resolver) :
    st.countHit.cache = st.cache ∧ st.countHit.active = st.active ∧
      st.countHit.depth = st.depth ∧
      st.countHit.stats = { st.stats with cacheHits := st.stats.cacheHits + 1 } :=
  ⟨rfl, rfl, rfl, rfl⟩

@[simp] theorem start_fields (st : Resolver) (name : String) :
    (st.start name).cache = st.cache ∧ (st.start name).active = name :: st.active ∧
      (st.start name).depth = st.depth ∧
      (st.start name).stats =
        { st.stats with evaluations := st.stats.evaluations + 1 } :=
  ⟨rfl, rfl, rfl, rfl⟩

@[simp] theorem deeper_fields (st : Resolver) :
    st.deeper.cache = st.cache ∧ st.deeper.active = st.active ∧
      st.deeper.depth = st.depth + 1 ∧ st.deeper.stats = st.stats :=
  ⟨rfl, rfl, rfl, rfl⟩

@[simp] theorem shallower_fields (st : Resolver) :
    st.shallower.cache = st.cache ∧ st.shallower.active = st.active ∧
      st.shallower.depth = st.depth - 1 ∧ st.shallower.stats = st.stats :=
  ⟨rfl, rfl, rfl, rfl⟩

@[simp] theorem conclude_fields (st : Resolver) (name : String)
    (value? : Option Value) :
    (st.conclude name value?).active = st.active.filter (· ≠ name) ∧
      (st.conclude name value?).depth = st.depth ∧
      (st.conclude name value?).stats = st.stats := by
  cases value? <;> exact ⟨rfl, rfl, rfl⟩

@[simp] theorem conclude_cache_none (st : Resolver) (name : String) :
    (st.conclude name none).cache = st.cache := rfl

@[simp] theorem conclude_cache_some (st : Resolver) (name : String) (value : Value) :
    (st.conclude name (some value)).cache = (name, ⟨value, value.depth⟩) :: st.cache :=
  rfl

/-- Taking back the mark of a constant undoes setting it. -/
theorem filter_started {name : String} {active : List String} (idle : name ∉ active) :
    (name :: active).filter (· ≠ name) = active := by
  have hkeep : ∀ other ∈ active, other ≠ name := by
    rintro other hother rfl
    exact idle hother
  simpa using hkeep

theorem note_eq_report (st : Resolver) (event : Event) :
    st.note event = st.report #[event] := by
  simp [note, report]

theorem report_empty (st : Resolver) : st.report #[] = st := by
  simp [report]

end Resolver

/-! ## Queries -/

/-- What an evaluation can be asked for. -/
inductive Query where
  | constant (name : String)
  | literal (literal : Literal)
  | elements (elements : List Literal)
  | entries (entries : List LiteralEntry)

/-- What a query is answered with. -/
abbrev Query.Answer : Query → Type
  | .constant _ => Option Value
  | .literal _ => Option Value
  | .elements _ => List Value
  | .entries _ => List (String × Value)

/-- The evaluation of a query in a scope. -/
def Scope.answer (scope : Scope) : (query : Query) → Resolver → query.Answer × Resolver
  | .constant name => scope.constant name
  | .literal literal => literal.evaluate scope
  | .elements elements => evaluateElements scope elements
  | .entries entries => evaluateEntries scope entries

/-- Whether a literal is a reference, the one form that opens no level. -/
def Literal.isReference : Literal → Bool
  | .reference _ => true
  | _ => false

/-- The value of a literal that has no parts, with what is reported about it. -/
def Literal.scalar? : Literal → Option (Option Value × Log)
  | .string text => some (some (.string text), #[])
  | .int raw => some <|
      match Number.readInt64 raw with
      | .ok n => (some (.int n), #[])
      | .error fault => (none, #[.badInteger raw fault])
  | .float raw => some <|
      match Number.readFloat raw with
      | .ok x =>
          if x.isFinite then (some (.float x), #[]) else (none, #[.floatOutOfRange raw])
      | .error fault => (none, #[.badFloat raw fault])
  | .bool flag => some (some (.bool flag), #[])
  | .reference _ | .object _ | .array _ => none

/-- The entries that the value of a spread constant adds. -/
def spreadEntries : Option Value → List (String × Value)
  | some (.object entries) => entries
  | _ => []

/-- What is reported about a spread of the constant `name`. -/
def spreadEvents (name : String) : Option Value → Log
  | some (.object _) => #[]
  | some value => #[.spreadOfNonObject name value.kind]
  | none => #[.spreadUnresolved name]

namespace Program

/-- The value of `Enum.Member`, which no state has a part in. -/
def memberValue? (program : Program) (limit : Nat) (enum member : String) :
    Option Value :=
  (program.enums.find? enum).bind fun decl =>
    ((program.enumMembers limit decl).1.find? (·.name = member)).bind
      (memberValue decl.valueType ·.value)

/-- What the expansion of an enumeration reports. -/
def memberEvents (program : Program) (limit : Nat) (enum : String) : Log :=
  match program.enums.find? enum with
  | some decl => (program.enumMembers limit decl).2
  | none => #[]

theorem memberConstant_eq (program : Program) (limit : Nat) (enum member : String)
    (st : Resolver) :
    program.memberConstant limit enum member st =
      (program.memberValue? limit enum member,
        st.report (program.memberEvents limit enum)) := by
  simp only [memberConstant, memberValue?, memberEvents]
  cases program.enums.find? enum with
  | none => simp [Resolver.report_empty]
  | some decl => rfl

/-- The scope in which at most `budget` more constants may be opened. -/
def scopeWith (program : Program) (limit budget : Nat) : Scope :=
  ⟨limit, program.constant limit budget, program.memberConstant limit⟩

/-- How many declared constants are not being evaluated. -/
def unopened (program : Program) (st : Resolver) : Nat :=
  (program.consts.keys.filter (· ∉ st.active)).length

end Program

/-! ## The judgment -/

/-- `Evaluates program limit query st answer st'`: asked for `query` in the state `st`,
evaluation answers `answer` and leaves the state `st'`. The rules for constants come
first, then those for literals, elements and entries. -/
inductive Evaluates (program : Program) (limit : Nat) :
    (query : Query) → Resolver → query.Answer → Resolver → Prop where
  /-- The cache answers, and the value fits here. -/
  | cached {name : String} {st : Resolver} {known : Cached}
      (hit : st.cache.lookup name = some known)
      (fits : st.depth + known.depth ≤ limit) :
      Evaluates program limit (.constant name) st (some known.value)
        (st.note (.cacheHit name)).countHit
  /-- The cache answers, but the value would nest too deep here. -/
  | withheld {name : String} {st : Resolver} {known : Cached}
      (hit : st.cache.lookup name = some known)
      (deep : limit < st.depth + known.depth) :
      Evaluates program limit (.constant name) st none
        ((st.note (.cacheHit name)).countHit.note
          (.constantTooDeep name known.depth limit)).countCut
  | undeclared {name : String} {st : Resolver} (miss : st.cache.lookup name = none)
      (absent : program.consts.find? name = none) :
      Evaluates program limit (.constant name) st none st
  /-- The constant is being evaluated: a circle is cut. -/
  | circular {name : String} {st : Resolver} {decl : ConstDecl}
      (miss : st.cache.lookup name = none)
      (found : program.consts.find? name = some decl) (busy : name ∈ st.active) :
      Evaluates program limit (.constant name) st none
        (st.note (.cycleBroken name)).countCycle
  | valueless {name : String} {st : Resolver} {decl : ConstDecl}
      (miss : st.cache.lookup name = none)
      (found : program.consts.find? name = some decl) (idle : name ∉ st.active)
      (bare : decl.value = none) :
      Evaluates program limit (.constant name) st none st
  /-- The constant is opened. -/
  | visited {name : String} {st st' : Resolver} {decl : ConstDecl} {literal : Literal}
      {value? : Option Value} (miss : st.cache.lookup name = none)
      (found : program.consts.find? name = some decl) (idle : name ∉ st.active)
      (body : decl.value = some literal)
      (run : Evaluates program limit (.literal literal) (st.start name) value? st') :
      Evaluates program limit (.constant name) st value? (st'.conclude name value?)
  | reference {target : Reference} {st st' : Resolver} {value? : Option Value}
      (plain : target.member = none)
      (run : Evaluates program limit (.constant target.name) st value? st') :
      Evaluates program limit (.literal (.reference target)) st value? st'
  | member {target : Reference} {member : String} {st : Resolver}
      (named : target.member = some member) :
      Evaluates program limit (.literal (.reference target)) st
        (program.memberValue? limit target.name member)
        (st.report (program.memberEvents limit target.name))
  /-- No level is left for a literal that opens one. -/
  | tooDeep {literal : Literal} {st : Resolver} (opens : literal.isReference = false)
      (full : limit ≤ st.depth) :
      Evaluates program limit (.literal literal) st none
        (st.note (.literalTooDeep limit)).countCut
  | scalar {literal : Literal} {st : Resolver} {value? : Option Value} {events : Log}
      (room : st.depth < limit) (plain : literal.scalar? = some (value?, events)) :
      Evaluates program limit (.literal literal) st value? (st.report events)
  | object {entries : List LiteralEntry} {st st' : Resolver}
      {found : List (String × Value)} (room : st.depth < limit)
      (run : Evaluates program limit (.entries entries) st.deeper found st') :
      Evaluates program limit (.literal (.object entries)) st (some (.object found))
        st'.shallower
  | array {elements : List Literal} {st st' : Resolver} {found : List Value}
      (room : st.depth < limit)
      (run : Evaluates program limit (.elements elements) st.deeper found st') :
      Evaluates program limit (.literal (.array elements)) st (some (.array found))
        st'.shallower
  | noElements {st : Resolver} : Evaluates program limit (.elements []) st [] st
  | element {literal : Literal} {rest : List Literal} {st st₁ st₂ : Resolver}
      {value? : Option Value} {others : List Value}
      (first : Evaluates program limit (.literal literal) st value? st₁)
      (more : Evaluates program limit (.elements rest) st₁ others st₂) :
      Evaluates program limit (.elements (literal :: rest)) st
        (value?.toList ++ others) st₂
  | noEntries {st : Resolver} : Evaluates program limit (.entries []) st [] st
  | field {key : String} {literal : Literal} {rest : List LiteralEntry}
      {st st₁ st₂ : Resolver} {value? : Option Value} {others : List (String × Value)}
      (first : Evaluates program limit (.literal literal) st value? st₁)
      (more : Evaluates program limit (.entries rest) st₁ others st₂) :
      Evaluates program limit (.entries (.field key literal :: rest)) st
        (value?.toList.map (key, ·) ++ others) st₂
  | spread {source : Reference} {rest : List LiteralEntry} {st st₁ st₂ : Resolver}
      {value? : Option Value} {others : List (String × Value)}
      (plain : source.member = none)
      (first : Evaluates program limit (.constant source.name) st value? st₁)
      (more : Evaluates program limit (.entries rest)
        (st₁.report (spreadEvents source.name value?)) others st₂) :
      Evaluates program limit (.entries (.spread source :: rest)) st
        (spreadEntries value? ++ others) st₂
  /-- A spread that names a member adds nothing. -/
  | memberSpread {source : Reference} {rest : List LiteralEntry} {st st' : Resolver}
      {others : List (String × Value)} (named : source.member.isSome)
      (more : Evaluates program limit (.entries rest) st others st') :
      Evaluates program limit (.entries (.spread source :: rest)) st others st'

namespace Evaluates

variable {program : Program} {limit : Nat} {query : Query} {st st' : Resolver}
  {answer : query.Answer}

/-- Whatever happens inside, the open levels and the constants being evaluated are
afterwards what they were before. -/
theorem frame (run : Evaluates program limit query st answer st') :
    st'.active = st.active ∧ st'.depth = st.depth := by
  induction run with
  | cached | withheld | undeclared | circular | valueless | member | tooDeep | scalar
  | noElements | noEntries => simp
  | visited _ _ idle _ _ ih =>
      obtain ⟨ha, hd⟩ := ih
      simp only [Resolver.conclude_fields, ha, hd, Resolver.start_fields]
      exact ⟨Resolver.filter_started idle, trivial⟩
  | reference _ _ ih | memberSpread _ _ ih => exact ih
  | object _ _ ih | array _ _ ih =>
      obtain ⟨ha, hd⟩ := ih
      simp [ha, hd]
  | element _ _ ih₁ ih₂ | field _ _ ih₁ ih₂ =>
      exact ⟨ih₂.1.trans ih₁.1, ih₂.2.trans ih₁.2⟩
  | spread _ _ _ ih₁ ih₂ => exact ⟨ih₂.1.trans ih₁.1, ih₂.2.trans ih₁.2⟩

/-- What was cut stays counted. -/
theorem cuts_le (run : Evaluates program limit query st answer st') :
    st.stats.depthExceeded ≤ st'.stats.depthExceeded := by
  induction run with
  | cached | withheld | undeclared | circular | valueless | member | tooDeep | scalar
  | noElements | noEntries => simp
  | visited _ _ _ _ _ ih => simpa using ih
  | reference _ _ ih | memberSpread _ _ ih => exact ih
  | object _ _ ih | array _ _ ih => simpa using ih
  | element _ _ ih₁ ih₂ | field _ _ ih₁ ih₂ => exact Nat.le_trans ih₁ ih₂
  | spread _ _ _ ih₁ ih₂ => exact Nat.le_trans ih₁ ih₂

end Evaluates

/-! ## The budget covers the constants still unopened -/

namespace Program

variable {program : Program} {limit : Nat}

theorem unopened_congr {st st' : Resolver} (h : st'.active = st.active) :
    program.unopened st' = program.unopened st := by
  simp only [unopened, h]

theorem unopened_le_size (program : Program) (st : Resolver) :
    program.unopened st ≤ program.consts.size :=
  program.consts.unlisted_le_size st.active

/-- Opening a declared constant leaves fewer to open. -/
theorem unopened_start_lt {name : String} {decl : ConstDecl} {st : Resolver}
    (found : program.consts.find? name = some decl) (idle : name ∉ st.active) :
    program.unopened (st.start name) < program.unopened st :=
  Table.unlisted_cons_lt found idle

end Program

/-! ## Every query is answered

A constant is looked up under the assumption that literals are answered once it is
marked, a literal under the assumption that constants are answered. The first lowers the
number of unopened constants, the second the literal. -/

namespace Evaluates

variable {program : Program} {limit : Nat}

/-- There is a derivation for a query in a state. -/
def Answered (program : Program) (limit : Nat) (query : Query) (st : Resolver) : Prop :=
  ∃ answer st', Evaluates program limit query st answer st'

theorem constant_answered {name : String} {st : Resolver}
    (inner : ∀ literal, program.unopened (st.start name) < program.unopened st →
      Answered program limit (.literal literal) (st.start name)) :
    Answered program limit (.constant name) st := by
  cases hit : st.cache.lookup name with
  | some known =>
      rcases Nat.lt_or_ge limit (st.depth + known.depth) with deep | fits
      · exact ⟨_, _, .withheld hit deep⟩
      · exact ⟨_, _, .cached hit fits⟩
  | none =>
      cases found : program.consts.find? name with
      | none => exact ⟨_, _, .undeclared hit found⟩
      | some decl =>
          by_cases busy : name ∈ st.active
          · exact ⟨_, _, .circular hit found busy⟩
          · cases body : decl.value with
            | none => exact ⟨_, _, .valueless hit found busy body⟩
            | some literal =>
                obtain ⟨_, _, run⟩ :=
                  inner literal (Program.unopened_start_lt found busy)
                exact ⟨_, _, .visited hit found busy body run⟩

/-- All constants have derivations while the given ones are being evaluated. -/
def ConstantsAnswered (program : Program) (limit : Nat) (active : List String) : Prop :=
  ∀ name st, st.active = active → Answered program limit (.constant name) st

variable {active : List String}

theorem reference_answered (constants : ConstantsAnswered program limit active)
    (target : Reference) (st : Resolver) (h : st.active = active) :
    Answered program limit (.literal (.reference target)) st := by
  cases hm : target.member with
  | none =>
      obtain ⟨_, _, run⟩ := constants target.name st h
      exact ⟨_, _, .reference hm run⟩
  | some member => exact ⟨_, _, .member hm⟩

mutual

theorem literal_answered (constants : ConstantsAnswered program limit active)
    (literal : Literal) (st : Resolver) (h : st.active = active) :
    Answered program limit (.literal literal) st := by
  rcases Nat.lt_or_ge st.depth limit with room | full
  · match literal with
    | .string _ | .int _ | .float _ | .bool _ => exact ⟨_, _, .scalar room rfl⟩
    | .reference target => exact reference_answered constants target st h
    | .object entries =>
        obtain ⟨_, _, run⟩ := entries_answered constants entries st.deeper h
        exact ⟨_, _, .object room run⟩
    | .array elements =>
        obtain ⟨_, _, run⟩ := elements_answered constants elements st.deeper h
        exact ⟨_, _, .array room run⟩
  · match literal with
    | .string _ | .int _ | .float _ | .bool _ | .object _ | .array _ =>
        exact ⟨_, _, .tooDeep rfl full⟩
    | .reference target => exact reference_answered constants target st h

theorem elements_answered (constants : ConstantsAnswered program limit active)
    (elements : List Literal) (st : Resolver) (h : st.active = active) :
    Answered program limit (.elements elements) st := by
  match elements with
  | [] => exact ⟨_, _, .noElements⟩
  | literal :: rest =>
      obtain ⟨_, st₁, first⟩ := literal_answered constants literal st h
      obtain ⟨_, _, more⟩ := elements_answered constants rest st₁ (first.frame.1.trans h)
      exact ⟨_, _, .element first more⟩

theorem entries_answered (constants : ConstantsAnswered program limit active)
    (entries : List LiteralEntry) (st : Resolver) (h : st.active = active) :
    Answered program limit (.entries entries) st := by
  match entries with
  | [] => exact ⟨_, _, .noEntries⟩
  | .field key literal :: rest =>
      obtain ⟨_, st₁, first⟩ := literal_answered constants literal st h
      obtain ⟨_, _, more⟩ := entries_answered constants rest st₁ (first.frame.1.trans h)
      exact ⟨_, _, .field first more⟩
  | .spread source :: rest =>
      cases hm : source.member with
      | none =>
          obtain ⟨value?, st₁, first⟩ := constants source.name st h
          obtain ⟨_, _, more⟩ := entries_answered constants rest
            (st₁.report (spreadEvents source.name value?)) (first.frame.1.trans h)
          exact ⟨_, _, .spread hm first more⟩
      | some member =>
          obtain ⟨_, _, more⟩ := entries_answered constants rest st h
          exact ⟨_, _, .memberSpread (by simp [hm]) more⟩

end

/-- Every constant has a derivation, by induction on the constants still unopened. -/
theorem constant_total (program : Program) (limit : Nat) (name : String)
    (st : Resolver) : Answered program limit (.constant name) st := by
  induction hn : program.unopened st using Nat.strongRecOn generalizing name st with
  | ind n ih =>
      refine constant_answered fun literal hlt => ?_
      refine literal_answered (fun other st₁ h₁ => ?_) literal _ rfl
      exact ih _ (hn ▸ hlt) other st₁ (Program.unopened_congr h₁)

/-- Evaluation always comes to an end. -/
theorem total (program : Program) (limit : Nat) (query : Query) (st : Resolver) :
    Answered program limit query st := by
  have constants : ConstantsAnswered program limit st.active :=
    fun name st₁ _ => constant_total program limit name st₁
  match query with
  | .constant name => exact constant_total program limit name st
  | .literal literal => exact literal_answered constants literal st rfl
  | .elements elements => exact elements_answered constants elements st rfl
  | .entries entries => exact entries_answered constants entries st rfl

end Evaluates

/-! ## A derivation is what the evaluator computes -/

namespace Program

variable {program : Program} {limit budget : Nat} {name : String} {st : Resolver}

theorem constant_of_hit {known : Cached} (hit : st.cache.lookup name = some known) :
    program.constant limit budget name st = reuse limit name known st := by
  rw [constant.eq_def]
  simp only [hit]

/-- What is left to do for a declared constant that is neither cached nor open. -/
theorem constant_of_idle {decl : ConstDecl} {literal : Literal}
    (miss : st.cache.lookup name = none)
    (found : program.consts.find? name = some decl) (idle : name ∉ st.active)
    (body : decl.value = some literal) :
    program.constant limit (budget + 1) name st =
      visit name (literal.evaluate (program.scopeWith limit budget)) st := by
  rw [constant.eq_def]
  simp only [miss, found, idle, body, if_false]
  rfl

theorem visit_eq {evaluate : Evaluation} {value? : Option Value} {st' : Resolver}
    (h : evaluate (st.start name) = (value?, st')) :
    visit name evaluate st = (value?, st'.conclude name value?) := by
  simp only [visit, h]
  cases value? <;> rfl

end Program

namespace Resolver

variable {limit : Nat} {body : Evaluation} {st st' : Resolver} {value? : Option Value}

theorem within_full (full : limit ≤ st.depth) :
    st.within limit body = (none, (st.note (.literalTooDeep limit)).countCut) := by
  rw [within, if_pos full]

theorem within_room (room : st.depth < limit) (h : body st.deeper = (value?, st')) :
    st.within limit body = (value?, st'.shallower) := by
  rw [within, if_neg (by omega)]
  have hopen : { st with depth := st.depth + 1 } = st.deeper := rfl
  simp only [hopen, h]
  rfl

end Resolver

section Scope

variable {scope : Scope} {st st₁ : Resolver} {value? : Option Value}

theorem Literal.evaluate_full {literal : Literal} (opens : literal.isReference = false)
    (full : scope.limit ≤ st.depth) :
    literal.evaluate scope st =
      (none, (st.note (.literalTooDeep scope.limit)).countCut) := by
  cases literal with
  | reference target => cases opens
  | string | int | float | bool | object | array =>
      rw [Literal.evaluate]
      exact Resolver.within_full full

theorem Literal.evaluate_scalar {literal : Literal} {events : Log}
    (room : st.depth < scope.limit) (plain : literal.scalar? = some (value?, events)) :
    literal.evaluate scope st = (value?, st.report events) := by
  have hclose : (st.deeper.report events).shallower = st.report events := rfl
  rw [← hclose]
  cases literal with
  | reference | object | array => cases plain
  | string | bool =>
      cases plain
      rw [Literal.evaluate]
      exact Resolver.within_room room (by rw [Resolver.report_empty])
  | int raw =>
      rw [Literal.evaluate]
      refine Resolver.within_room room ?_
      simp only [scalar?, Option.some.injEq] at plain
      unfold evaluateInt
      split at plain <;> cases plain <;>
        simp [Resolver.note_eq_report, Resolver.report_empty, *]
  | float raw =>
      rw [Literal.evaluate]
      refine Resolver.within_room room ?_
      simp only [scalar?, Option.some.injEq] at plain
      unfold evaluateFloat
      split at plain
      · next x hx =>
          split at plain <;> cases plain <;>
            simp [Resolver.note_eq_report, Resolver.report_empty, *]
      · cases plain
        simp [Resolver.note_eq_report, *]

theorem Scope.spread_eq {source : Reference} (plain : source.member = none)
    (h : scope.constant source.name st = (value?, st₁)) :
    scope.spread source st =
      (spreadEntries value?, st₁.report (spreadEvents source.name value?)) := by
  simp only [spread, plain, Option.isSome_none, Bool.false_eq_true, if_false, h]
  cases value? with
  | none => simp [spreadEntries, spreadEvents, Resolver.note_eq_report]
  | some value =>
      cases value <;>
        simp [spreadEntries, spreadEvents, Resolver.note_eq_report, Resolver.report_empty]

end Scope

namespace Evaluates

variable {program : Program} {limit : Nat} {query : Query} {st st' : Resolver}
  {answer : query.Answer}

/-- The evaluator arrives at what was derived, under any budget that covers the
constants still unopened. -/
theorem computed (run : Evaluates program limit query st answer st') :
    ∀ budget, program.unopened st ≤ budget →
      (program.scopeWith limit budget).answer query st = (answer, st') := by
  induction run with
  | cached hit fits =>
      intro budget _
      refine (Program.constant_of_hit hit).trans ?_
      rw [Program.reuse]
      exact if_neg (by simpa using fits)
  | withheld hit deep =>
      intro budget _
      refine (Program.constant_of_hit hit).trans ?_
      rw [Program.reuse]
      exact if_pos (by simpa using deep)
  | undeclared miss absent =>
      intro budget _
      show program.constant limit budget _ _ = _
      rw [Program.constant.eq_def]
      simp only [miss, absent]
  | circular miss found busy =>
      intro budget _
      show program.constant limit budget _ _ = _
      rw [Program.constant.eq_def]
      simp only [miss, found, busy, if_true]
  | valueless miss found idle bare =>
      intro budget _
      show program.constant limit budget _ _ = _
      rw [Program.constant.eq_def]
      simp only [miss, found, idle, bare, if_false]
  | visited miss found idle body _ ih =>
      -- Opening the constant costs one unit of the budget and leaves one constant less.
      intro budget hbudget
      have hlt := Program.unopened_start_lt found idle
      obtain ⟨less, rfl⟩ : ∃ less, budget = less + 1 := ⟨budget - 1, by omega⟩
      refine (Program.constant_of_idle miss found idle body).trans ?_
      exact Program.visit_eq (ih less (by omega))
  | reference plain _ ih =>
      intro budget hbudget
      rw [← ih budget hbudget]
      simp only [Scope.answer, Literal.evaluate, Scope.reference, plain]
  | member named =>
      intro budget _
      simp only [Scope.answer, Literal.evaluate, Scope.reference, named]
      exact Program.memberConstant_eq _ _ _ _ _
  | tooDeep opens full =>
      intro budget _
      exact Literal.evaluate_full opens full
  | scalar room plain =>
      intro budget _
      exact Literal.evaluate_scalar room plain
  | object room _ ih =>
      intro budget hbudget
      simp only [Scope.answer, Literal.evaluate]
      refine Resolver.within_room room ?_
      have hinner := ih budget hbudget
      simp only [Scope.answer] at hinner
      simp only [hinner]
  | array room _ ih =>
      intro budget hbudget
      simp only [Scope.answer, Literal.evaluate]
      refine Resolver.within_room room ?_
      have hinner := ih budget hbudget
      simp only [Scope.answer] at hinner
      simp only [hinner]
  | noElements | noEntries => intro budget _; rfl
  | element first _ ih₁ ih₂ =>
      intro budget hbudget
      have h₁ := ih₁ budget hbudget
      have h₂ := ih₂ budget (Program.unopened_congr first.frame.1 ▸ hbudget)
      simp only [Scope.answer] at h₁ h₂
      simp only [Scope.answer, evaluateElements, h₁, h₂]
  | field first _ ih₁ ih₂ =>
      intro budget hbudget
      have h₁ := ih₁ budget hbudget
      have h₂ := ih₂ budget (Program.unopened_congr first.frame.1 ▸ hbudget)
      simp only [Scope.answer] at h₁ h₂
      simp only [Scope.answer, evaluateEntries, h₁, h₂]
  | spread plain first _ ih₁ ih₂ =>
      intro budget hbudget
      have h₁ := Scope.spread_eq plain (ih₁ budget hbudget)
      have h₂ := ih₂ budget (Program.unopened_congr first.frame.1 ▸ hbudget)
      simp only [Scope.answer] at h₂
      simp only [Scope.answer, evaluateEntries, h₁, h₂]
  | memberSpread named _ ih =>
      intro budget hbudget
      have hrest := ih budget hbudget
      simp only [Scope.answer] at hrest
      simp only [Scope.answer, evaluateEntries, Scope.spread, named, if_true, hrest,
        List.nil_append]

end Evaluates

/-! ## The evaluator of a program -/

namespace Program

/-- The answer to a query in the scope of the whole program. -/
def answer (program : Program) (limit : Nat) (query : Query) (st : Resolver) :
    query.Answer × Resolver :=
  (program.scope limit).answer query st

variable {program : Program} {limit : Nat} {query : Query} {st st' : Resolver}
  {answer : query.Answer}

/-- The judgment and the evaluator of a program say the same. -/
theorem answer_eq_iff :
    program.answer limit query st = (answer, st') ↔
      Evaluates program limit query st answer st' := by
  have hcomputed : ∀ {answer : query.Answer} {st' : Resolver},
      Evaluates program limit query st answer st' →
        program.answer limit query st = (answer, st') :=
    fun run => run.computed _ (program.unopened_le_size st)
  refine ⟨fun h => ?_, hcomputed⟩
  obtain ⟨answer', st'', run⟩ := Evaluates.total program limit query st
  rw [hcomputed run] at h
  cases h
  exact run

theorem evaluates_answer (program : Program) (limit : Nat) (query : Query)
    (st : Resolver) :
    Evaluates program limit query st (program.answer limit query st).1
      (program.answer limit query st).2 :=
  answer_eq_iff.mp rfl

end Program

end SchemaIR
