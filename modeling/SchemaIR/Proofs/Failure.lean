import Mathlib
import SchemaIR.Program.Samples
import SchemaIR.Proofs.Evaluation

/-!
# Failures leave no trace

What has no value may have been evaluated at length: a reference leads through constants to one
that is being evaluated, to a level that is not there or to a number that cannot be read. None of
the constants on that way is kept, each is unmarked again, and every level is closed. Only
counters and reports tell that anything happened.

Neither has an influence on what is evaluated next. So it makes no difference to a literal
whether a part of it without a value is there, be it an element, a field or a spread and however
deep inside: the literal has the same value without it and leaves the same cache.
-/

namespace SchemaIR

/-- The states differ at most in what was counted and reported. -/
structure Resolver.Agrees (st other : Resolver) : Prop where
  cache : other.cache = st.cache
  active : other.active = st.active
  depth : other.depth = st.depth

namespace Resolver.Agrees

variable {st other third : Resolver}

theorem refl (st : Resolver) : st.Agrees st := ⟨rfl, rfl, rfl⟩

theorem symm (h : st.Agrees other) : other.Agrees st :=
  ⟨h.cache.symm, h.active.symm, h.depth.symm⟩

theorem trans (h : st.Agrees other) (h' : other.Agrees third) : st.Agrees third :=
  ⟨h'.cache.trans h.cache, h'.active.trans h.active, h'.depth.trans h.depth⟩

theorem exists_eq (h : st.Agrees other) : ∃ stats log, other = { st with stats, log } := by
  obtain ⟨cache, active, depth, stats, log⟩ := other
  obtain ⟨rfl, rfl, rfl⟩ := h
  exact ⟨stats, log, rfl⟩

theorem deeper (h : st.Agrees other) : st.deeper.Agrees other.deeper :=
  ⟨h.cache, h.active, congrArg (· + 1) h.depth⟩

theorem shallower (h : st.Agrees other) : st.shallower.Agrees other.shallower :=
  ⟨h.cache, h.active, congrArg (· - 1) h.depth⟩

theorem start (h : st.Agrees other) (name : String) : (st.start name).Agrees (other.start name) :=
  ⟨h.cache, congrArg (name :: ·) h.active, h.depth⟩

theorem conclude (h : st.Agrees other) (name : String) (value? : Option Value) :
    (st.conclude name value?).Agrees (other.conclude name value?) := by
  obtain ⟨stats, log, rfl⟩ := h.exists_eq
  cases value? <;> exact ⟨rfl, rfl, rfl⟩

theorem report (h : st.Agrees other) (events events' : Log) :
    (st.report events).Agrees (other.report events') := ⟨h.cache, h.active, h.depth⟩

end Resolver.Agrees

/-! ## What a failure leaves behind -/

/-- The answer is that there is no value. Lists are an answer even if they are empty. -/
def Query.Failed : (query : Query) → query.Answer → Prop
  | .constant _, value? | .literal _, value? => value? = none
  | .elements _, _ | .entries _, _ => False

namespace Evaluates

variable {program : Program} {limit : Nat} {query : Query} {st st' : Resolver}
  {answer : query.Answer}

/-- Only a value is ever cached, so a constant that fails has cached nothing on its way: all that
it opened have failed with it. -/
theorem cache_of_failed (run : Evaluates program limit query st answer st')
    (failed : query.Failed answer) : st'.cache = st.cache := by
  induction run with
  | cached | object | array => cases failed
  | withheld | undeclared | circular | valueless | member | tooDeep | scalar => rfl
  | @visited name _ st₁ _ _ value? _ _ _ _ _ ih =>
      obtain rfl : value? = none := failed
      rw [Resolver.conclude_cache_none]
      exact ih rfl
  | reference _ _ ih => exact ih failed
  | noElements | element | noEntries | field | spread | memberSpread => exact failed.elim

theorem agrees_of_failed (run : Evaluates program limit query st answer st')
    (failed : query.Failed answer) : st.Agrees st' :=
  ⟨run.cache_of_failed failed, run.frame.1, run.frame.2⟩

/-! ## Counters and reports have no influence -/

theorem congr (run : Evaluates program limit query st answer st') :
    ∀ other, st.Agrees other →
      ∃ other', Evaluates program limit query other answer other' ∧ st'.Agrees other' := by
  induction run with
  | cached hit fits =>
      intro other agrees
      obtain ⟨stats, log, rfl⟩ := agrees.exists_eq
      exact ⟨_, .cached hit fits, ⟨rfl, rfl, rfl⟩⟩
  | withheld hit deep =>
      intro other agrees
      obtain ⟨stats, log, rfl⟩ := agrees.exists_eq
      exact ⟨_, .withheld hit deep, ⟨rfl, rfl, rfl⟩⟩
  | undeclared miss absent =>
      intro other agrees
      exact ⟨other, .undeclared (agrees.cache ▸ miss) absent, agrees⟩
  | circular miss found busy =>
      intro other agrees
      obtain ⟨stats, log, rfl⟩ := agrees.exists_eq
      exact ⟨_, .circular miss found busy, ⟨rfl, rfl, rfl⟩⟩
  | valueless miss found idle bare =>
      intro other agrees
      exact ⟨other, .valueless (agrees.cache ▸ miss) found (agrees.active ▸ idle) bare, agrees⟩
  | @visited name _ _ _ _ value? miss found idle body _ ih =>
      intro other agrees
      obtain ⟨other', run, agrees'⟩ := ih (other.start name) (agrees.start name)
      exact ⟨_, .visited (agrees.cache ▸ miss) found (agrees.active ▸ idle) body run,
        agrees'.conclude name value?⟩
  | reference plain _ ih =>
      intro other agrees
      obtain ⟨other', run, agrees'⟩ := ih other agrees
      exact ⟨other', .reference plain run, agrees'⟩
  | member named => exact fun other agrees => ⟨_, .member named, agrees.report _ _⟩
  | tooDeep opens full =>
      intro other agrees
      obtain ⟨stats, log, rfl⟩ := agrees.exists_eq
      exact ⟨_, .tooDeep opens full, ⟨rfl, rfl, rfl⟩⟩
  | scalar room plain =>
      intro other agrees
      exact ⟨_, .scalar (agrees.depth ▸ room) plain, agrees.report _ _⟩
  | object room _ ih =>
      intro other agrees
      obtain ⟨other', run, agrees'⟩ := ih other.deeper agrees.deeper
      exact ⟨_, .object (agrees.depth ▸ room) run, agrees'.shallower⟩
  | array room _ ih =>
      intro other agrees
      obtain ⟨other', run, agrees'⟩ := ih other.deeper agrees.deeper
      exact ⟨_, .array (agrees.depth ▸ room) run, agrees'.shallower⟩
  | noElements => exact fun other agrees => ⟨other, .noElements, agrees⟩
  | element _ _ ih₁ ih₂ =>
      intro other agrees
      obtain ⟨other₁, first, agrees₁⟩ := ih₁ other agrees
      obtain ⟨other₂, more, agrees₂⟩ := ih₂ other₁ agrees₁
      exact ⟨other₂, .element first more, agrees₂⟩
  | noEntries => exact fun other agrees => ⟨other, .noEntries, agrees⟩
  | field _ _ ih₁ ih₂ =>
      intro other agrees
      obtain ⟨other₁, first, agrees₁⟩ := ih₁ other agrees
      obtain ⟨other₂, more, agrees₂⟩ := ih₂ other₁ agrees₁
      exact ⟨other₂, .field first more, agrees₂⟩
  | spread plain _ _ ih₁ ih₂ =>
      intro other agrees
      obtain ⟨other₁, first, agrees₁⟩ := ih₁ other agrees
      obtain ⟨other₂, more, agrees₂⟩ := ih₂ _ (agrees₁.report _ _)
      exact ⟨other₂, .spread plain first more, agrees₂⟩
  | memberSpread named _ ih =>
      intro other agrees
      obtain ⟨other', more, agrees'⟩ := ih other agrees
      exact ⟨other', .memberSpread named more, agrees'⟩

end Evaluates

/-! ## Leaving parts out -/

mutual

/-- `TrimsLiteral program limit literal st value? st' trimmed`: in the state `st` the literal is
evaluated to `value?` and the state `st'` is left, and `trimmed` is the literal without some of
the parts that had no value then. -/
inductive TrimsLiteral (program : Program) (limit : Nat) :
    Literal → Resolver → Option Value → Resolver → Literal → Prop where
  | whole {literal : Literal} {st st' : Resolver} {value? : Option Value}
      (run : Evaluates program limit (.literal literal) st value? st') :
      TrimsLiteral program limit literal st value? st' literal
  | array {elements trimmed : List Literal} {st st' : Resolver} {found : List Value}
      (room : st.depth < limit)
      (inside : TrimsElements program limit elements st.deeper found st' trimmed) :
      TrimsLiteral program limit (.array elements) st (some (.array found)) st'.shallower
        (.array trimmed)
  | object {entries trimmed : List LiteralEntry} {st st' : Resolver}
      {found : List (String × Value)} (room : st.depth < limit)
      (inside : TrimsEntries program limit entries st.deeper found st' trimmed) :
      TrimsLiteral program limit (.object entries) st (some (.object found)) st'.shallower
        (.object trimmed)

/-- Elements are evaluated in order, and some of those without a value are left out. -/
inductive TrimsElements (program : Program) (limit : Nat) :
    List Literal → Resolver → List Value → Resolver → List Literal → Prop where
  | nil {st : Resolver} : TrimsElements program limit [] st [] st []
  | keep {literal kept : Literal} {rest trimmed : List Literal} {st st₁ st₂ : Resolver}
      {value? : Option Value} {others : List Value}
      (first : TrimsLiteral program limit literal st value? st₁ kept)
      (more : TrimsElements program limit rest st₁ others st₂ trimmed) :
      TrimsElements program limit (literal :: rest) st (value?.toList ++ others) st₂
        (kept :: trimmed)
  | drop {literal : Literal} {rest trimmed : List Literal} {st st₁ st₂ : Resolver}
      {others : List Value} (failed : Evaluates program limit (.literal literal) st none st₁)
      (more : TrimsElements program limit rest st₁ others st₂ trimmed) :
      TrimsElements program limit (literal :: rest) st others st₂ trimmed

/-- Entries are evaluated in order, and some of the fields without a value and of the spreads
that add nothing are left out. -/
inductive TrimsEntries (program : Program) (limit : Nat) :
    List LiteralEntry → Resolver → List (String × Value) → Resolver → List LiteralEntry → Prop where
  | nil {st : Resolver} : TrimsEntries program limit [] st [] st []
  | keepField {key : String} {literal kept : Literal} {rest trimmed : List LiteralEntry}
      {st st₁ st₂ : Resolver} {value? : Option Value} {others : List (String × Value)}
      (first : TrimsLiteral program limit literal st value? st₁ kept)
      (more : TrimsEntries program limit rest st₁ others st₂ trimmed) :
      TrimsEntries program limit (.field key literal :: rest) st
        (value?.toList.map (key, ·) ++ others) st₂ (.field key kept :: trimmed)
  | dropField {key : String} {literal : Literal} {rest trimmed : List LiteralEntry}
      {st st₁ st₂ : Resolver} {others : List (String × Value)}
      (failed : Evaluates program limit (.literal literal) st none st₁)
      (more : TrimsEntries program limit rest st₁ others st₂ trimmed) :
      TrimsEntries program limit (.field key literal :: rest) st others st₂ trimmed
  | keepSpread {source : Reference} {rest trimmed : List LiteralEntry} {st st₁ st₂ : Resolver}
      {value? : Option Value} {others : List (String × Value)} (plain : source.member = none)
      (first : Evaluates program limit (.constant source.name) st value? st₁)
      (more : TrimsEntries program limit rest (st₁.report (spreadEvents source.name value?))
        others st₂ trimmed) :
      TrimsEntries program limit (.spread source :: rest) st (spreadEntries value? ++ others) st₂
        (.spread source :: trimmed)
  | dropSpread {source : Reference} {rest trimmed : List LiteralEntry} {st st₁ st₂ : Resolver}
      {others : List (String × Value)} (plain : source.member = none)
      (failed : Evaluates program limit (.constant source.name) st none st₁)
      (more : TrimsEntries program limit rest (st₁.report (spreadEvents source.name none))
        others st₂ trimmed) :
      TrimsEntries program limit (.spread source :: rest) st others st₂ trimmed
  | keepMemberSpread {source : Reference} {rest trimmed : List LiteralEntry} {st st' : Resolver}
      {others : List (String × Value)} (named : source.member.isSome)
      (more : TrimsEntries program limit rest st others st' trimmed) :
      TrimsEntries program limit (.spread source :: rest) st others st' (.spread source :: trimmed)
  | dropMemberSpread {source : Reference} {rest trimmed : List LiteralEntry} {st st' : Resolver}
      {others : List (String × Value)} (named : source.member.isSome)
      (more : TrimsEntries program limit rest st others st' trimmed) :
      TrimsEntries program limit (.spread source :: rest) st others st' trimmed

end

section Trims

variable {program : Program} {limit : Nat}

mutual

theorem TrimsLiteral.evaluates {literal trimmed : Literal} {st st' : Resolver}
    {value? : Option Value} (trims : TrimsLiteral program limit literal st value? st' trimmed) :
    Evaluates program limit (.literal literal) st value? st' := by
  cases trims with
  | whole run => exact run
  | array room inside => exact .array room inside.evaluates
  | object room inside => exact .object room inside.evaluates

theorem TrimsElements.evaluates {elements trimmed : List Literal} {st st' : Resolver}
    {found : List Value} (trims : TrimsElements program limit elements st found st' trimmed) :
    Evaluates program limit (.elements elements) st found st' := by
  cases trims with
  | nil => exact .noElements
  | keep first more => exact .element first.evaluates more.evaluates
  | drop failed more => exact .element failed more.evaluates

theorem TrimsEntries.evaluates {entries trimmed : List LiteralEntry} {st st' : Resolver}
    {found : List (String × Value)}
    (trims : TrimsEntries program limit entries st found st' trimmed) :
    Evaluates program limit (.entries entries) st found st' := by
  cases trims with
  | nil => exact .noEntries
  | keepField first more => exact .field first.evaluates more.evaluates
  | dropField failed more => exact .field failed more.evaluates
  | keepSpread plain first more => exact .spread plain first more.evaluates
  | dropSpread plain failed more => exact .spread plain failed more.evaluates
  | keepMemberSpread named more | dropMemberSpread named more =>
      exact .memberSpread named more.evaluates

end

mutual

theorem TrimsLiteral.trimmed_evaluates {literal trimmed : Literal} {st st' other : Resolver}
    {value? : Option Value} (trims : TrimsLiteral program limit literal st value? st' trimmed)
    (agrees : st.Agrees other) :
    ∃ other', Evaluates program limit (.literal trimmed) other value? other' ∧
      st'.Agrees other' := by
  cases trims with
  | whole run => exact run.congr other agrees
  | array room inside =>
      obtain ⟨other', run, agrees'⟩ := inside.trimmed_evaluates agrees.deeper
      exact ⟨_, .array (agrees.depth ▸ room) run, agrees'.shallower⟩
  | object room inside =>
      obtain ⟨other', run, agrees'⟩ := inside.trimmed_evaluates agrees.deeper
      exact ⟨_, .object (agrees.depth ▸ room) run, agrees'.shallower⟩

theorem TrimsElements.trimmed_evaluates {elements trimmed : List Literal}
    {st st' other : Resolver} {found : List Value}
    (trims : TrimsElements program limit elements st found st' trimmed)
    (agrees : st.Agrees other) :
    ∃ other', Evaluates program limit (.elements trimmed) other found other' ∧
      st'.Agrees other' := by
  cases trims with
  | nil => exact ⟨other, .noElements, agrees⟩
  | keep first more =>
      obtain ⟨other₁, run, agrees₁⟩ := first.trimmed_evaluates agrees
      obtain ⟨other₂, runs, agrees₂⟩ := more.trimmed_evaluates agrees₁
      exact ⟨other₂, .element run runs, agrees₂⟩
  | drop failed more =>
      exact more.trimmed_evaluates ((failed.agrees_of_failed rfl).symm.trans agrees)

theorem TrimsEntries.trimmed_evaluates {entries trimmed : List LiteralEntry}
    {st st' other : Resolver} {found : List (String × Value)}
    (trims : TrimsEntries program limit entries st found st' trimmed)
    (agrees : st.Agrees other) :
    ∃ other', Evaluates program limit (.entries trimmed) other found other' ∧
      st'.Agrees other' := by
  cases trims with
  | nil => exact ⟨other, .noEntries, agrees⟩
  | keepField first more =>
      obtain ⟨other₁, run, agrees₁⟩ := first.trimmed_evaluates agrees
      obtain ⟨other₂, runs, agrees₂⟩ := more.trimmed_evaluates agrees₁
      exact ⟨other₂, .field run runs, agrees₂⟩
  | dropField failed more =>
      exact more.trimmed_evaluates ((failed.agrees_of_failed rfl).symm.trans agrees)
  | keepSpread plain first more =>
      obtain ⟨other₁, run, agrees₁⟩ := first.congr other agrees
      obtain ⟨other₂, runs, agrees₂⟩ := more.trimmed_evaluates (agrees₁.report _ _)
      exact ⟨other₂, .spread plain run runs, agrees₂⟩
  | dropSpread plain failed more =>
      have hsame := (failed.agrees_of_failed rfl).symm.trans agrees
      exact more.trimmed_evaluates ⟨hsame.cache, hsame.active, hsame.depth⟩
  | keepMemberSpread named more =>
      obtain ⟨other', runs, agrees'⟩ := more.trimmed_evaluates agrees
      exact ⟨other', .memberSpread named runs, agrees'⟩
  | dropMemberSpread _ more => exact more.trimmed_evaluates agrees

end

end Trims

/-! ## Deletions -/

/-- Whether an entry of an object fails in a state. A spread that names a member is none of a
constant and fails always. -/
def LiteralEntry.fails (scope : Scope) (st : Resolver) : LiteralEntry → Bool
  | .field _ literal => (literal.evaluate scope st).1.isNone
  | .spread source => source.member.isSome || (scope.constant source.name st).1.isNone

/-- Both evaluations have the same value, and the states that they leave agree. -/
def SameOutcome (outcome other : Option Value × Resolver) : Prop :=
  other.1 = outcome.1 ∧ outcome.2.Agrees other.2

section Spread

variable {scope : Scope} {source : Reference} {st : Resolver}

theorem evaluateEntries_memberSpread (named : source.member.isSome = true) :
    (evaluateEntries scope [.spread source] st).2 = st := by
  simp only [evaluateEntries, Scope.spread, named, if_true]

theorem evaluateEntries_spread (plain : source.member = none) :
    (evaluateEntries scope [.spread source] st).2 =
      (scope.constant source.name st).2.report
        (spreadEvents source.name (scope.constant source.name st).1) := by
  have hspread : scope.spread source st = _ := Scope.spread_eq plain rfl
  simp only [evaluateEntries, hspread]

end Spread

namespace Program

variable (program : Program) (limit : Nat)

theorem evaluates_of_answer (query : Query) {st : Resolver} {answer : query.Answer}
    (h : (program.answer limit query st).1 = answer) :
    Evaluates program limit query st answer (program.answer limit query st).2 := by
  rw [← h]
  exact program.evaluates_answer limit query st

theorem trims_elements (elements : List Literal) (st : Resolver) :
    ∃ found st', TrimsElements program limit elements st found st' elements := by
  induction elements generalizing st with
  | nil => exact ⟨_, _, .nil⟩
  | cons literal rest ih =>
      obtain ⟨found, st', more⟩ := ih (literal.evaluate (program.scope limit) st).2
      exact ⟨_, _, .keep (.whole (program.evaluates_answer limit (.literal literal) st)) more⟩

theorem trims_deleted_element (before : List Literal) (element : Literal) (after : List Literal)
    (st : Resolver) (failed : (element.evaluate (program.scope limit)
      (evaluateElements (program.scope limit) before st).2).1 = none) :
    ∃ found st', TrimsElements program limit (before ++ element :: after) st found st'
      (before ++ after) := by
  induction before generalizing st with
  | nil =>
      obtain ⟨found, st', more⟩ := program.trims_elements limit after
        (element.evaluate (program.scope limit) st).2
      exact ⟨found, st', .drop (program.evaluates_of_answer limit (.literal element) failed) more⟩
  | cons literal before ih =>
      obtain ⟨found, st', more⟩ := ih (literal.evaluate (program.scope limit) st).2 failed
      exact ⟨_, _, .keep (.whole (program.evaluates_answer limit (.literal literal) st)) more⟩

/-- An entry that fails can be deleted from the front. -/
theorem trims_dropped_entry {entry : LiteralEntry} {rest trimmed : List LiteralEntry}
    {st st' : Resolver} {found : List (String × Value)}
    (failed : entry.fails (program.scope limit) st = true)
    (more : TrimsEntries program limit rest (evaluateEntries (program.scope limit) [entry] st).2
      found st' trimmed) : TrimsEntries program limit (entry :: rest) st found st' trimmed := by
  cases entry with
  | field key literal =>
      have hnone : (literal.evaluate (program.scope limit) st).1 = none :=
        Option.isNone_iff_eq_none.mp failed
      exact .dropField (program.evaluates_of_answer limit (.literal literal) hnone) more
  | spread source =>
      cases hmember : source.member with
      | some member =>
          have named : source.member.isSome = true := by rw [hmember]; rfl
          rw [evaluateEntries_memberSpread named] at more
          exact .dropMemberSpread named more
      | none =>
          have hnone : ((program.scope limit).constant source.name st).1 = none := by
            simpa [LiteralEntry.fails, hmember] using failed
          have run := program.evaluates_of_answer limit (.constant source.name) hnone
          rw [evaluateEntries_spread hmember, hnone] at more
          exact .dropSpread hmember run more

theorem trims_kept_entry (entry : LiteralEntry) {rest trimmed : List LiteralEntry}
    {st st' : Resolver} {found : List (String × Value)}
    (more : TrimsEntries program limit rest (evaluateEntries (program.scope limit) [entry] st).2
      found st' trimmed) :
    ∃ found', TrimsEntries program limit (entry :: rest) st found' st' (entry :: trimmed) := by
  cases entry with
  | field key literal =>
      exact ⟨_, .keepField (.whole (program.evaluates_answer limit (.literal literal) st)) more⟩
  | spread source =>
      cases hmember : source.member with
      | some member =>
          have named : source.member.isSome = true := by rw [hmember]; rfl
          rw [evaluateEntries_memberSpread named] at more
          exact ⟨_, .keepMemberSpread named more⟩
      | none =>
          rw [evaluateEntries_spread hmember] at more
          exact ⟨_, .keepSpread hmember (program.evaluates_answer limit (.constant source.name) st)
            more⟩

theorem trims_entries (entries : List LiteralEntry) (st : Resolver) :
    ∃ found st', TrimsEntries program limit entries st found st' entries := by
  induction entries generalizing st with
  | nil => exact ⟨_, _, .nil⟩
  | cons entry rest ih =>
      obtain ⟨found, st', more⟩ := ih (evaluateEntries (program.scope limit) [entry] st).2
      obtain ⟨found', trims⟩ := program.trims_kept_entry limit entry more
      exact ⟨found', st', trims⟩

theorem trims_deleted_entry (before : List LiteralEntry) (entry : LiteralEntry)
    (after : List LiteralEntry) (st : Resolver)
    (failed : entry.fails (program.scope limit)
      (evaluateEntries (program.scope limit) before st).2 = true) :
    ∃ found st', TrimsEntries program limit (before ++ entry :: after) st found st'
      (before ++ after) := by
  induction before generalizing st with
  | nil =>
      obtain ⟨found, st', more⟩ := program.trims_entries limit after
        (evaluateEntries (program.scope limit) [entry] st).2
      exact ⟨found, st', program.trims_dropped_entry limit failed more⟩
  | cons first before ih =>
      have hstate : (evaluateEntries (program.scope limit) (first :: before) st).2 =
          (evaluateEntries (program.scope limit) before
            (evaluateEntries (program.scope limit) [first] st).2).2 := by
        cases first <;> rfl
      rw [hstate] at failed
      obtain ⟨found, st', more⟩ := ih _ failed
      obtain ⟨found', trims⟩ := program.trims_kept_entry limit first more
      exact ⟨found', st', trims⟩

variable {program limit}

theorem outcome_of_trims {literal trimmed : Literal} {st st' : Resolver} {value? : Option Value}
    (trims : TrimsLiteral program limit literal st value? st' trimmed) :
    program.resolveLiteral limit literal st = (value?, st') ∧
      SameOutcome (value?, st') (program.resolveLiteral limit trimmed st) := by
  obtain ⟨other, run, agrees⟩ := trims.trimmed_evaluates (.refl st)
  have hliteral : program.resolveLiteral limit literal st = (value?, st') :=
    answer_eq_iff.mpr trims.evaluates
  have htrimmed : program.resolveLiteral limit trimmed st = (value?, other) :=
    answer_eq_iff.mpr run
  rw [htrimmed]
  exact ⟨hliteral, rfl, agrees⟩

theorem outcome_full {literal other : Literal} {st : Resolver}
    (opens : literal.isReference = false) (opens' : other.isReference = false)
    (full : limit ≤ st.depth) :
    SameOutcome (program.resolveLiteral limit literal st)
      (program.resolveLiteral limit other st) := by
  have hliteral : program.resolveLiteral limit literal st = _ :=
    Literal.evaluate_full opens full
  have hother : program.resolveLiteral limit other st = _ :=
    Literal.evaluate_full opens' full
  rw [hliteral, hother]
  exact ⟨rfl, .refl _⟩

/-- A constant or a literal without a value leaves the cache, the marks and the levels as they
are. So in an array an element and in an object a field or a spread that fails when its turn
comes can be deleted: the literal has the same value and leaves the same cache, marks and levels.
The same is true of any number of such parts at any depth. -/
theorem failures_leave_no_trace (program : Program) (limit : Nat) (st : Resolver) :
    (∀ name, (program.resolveConstant limit name st).1 = none →
      st.Agrees (program.resolveConstant limit name st).2) ∧
    (∀ literal, (program.resolveLiteral limit literal st).1 = none →
      st.Agrees (program.resolveLiteral limit literal st).2) ∧
    (∀ before element after,
      (program.resolveLiteral limit element
        (evaluateElements (program.scope limit) before st.deeper).2).1 = none →
      SameOutcome (program.resolveLiteral limit (.array (before ++ element :: after)) st)
        (program.resolveLiteral limit (.array (before ++ after)) st)) ∧
    (∀ before entry after,
      entry.fails (program.scope limit)
        (evaluateEntries (program.scope limit) before st.deeper).2 = true →
      SameOutcome (program.resolveLiteral limit (.object (before ++ entry :: after)) st)
        (program.resolveLiteral limit (.object (before ++ after)) st)) ∧
    ∀ literal value? st' trimmed, TrimsLiteral program limit literal st value? st' trimmed →
      program.resolveLiteral limit literal st = (value?, st') ∧
        SameOutcome (value?, st') (program.resolveLiteral limit trimmed st) := by
  refine ⟨fun name failed => ?_, fun literal failed => ?_, fun before element after failed => ?_,
    fun before entry after failed => ?_, fun _ _ _ _ trims => outcome_of_trims trims⟩
  · exact (program.evaluates_answer limit (.constant name) st).agrees_of_failed failed
  · exact (program.evaluates_answer limit (.literal literal) st).agrees_of_failed failed
  · rcases Nat.lt_or_ge st.depth limit with room | full
    · obtain ⟨found, st', trims⟩ :=
        program.trims_deleted_element limit before element after st.deeper failed
      obtain ⟨hwhole, hsame⟩ := outcome_of_trims (.array room trims)
      rw [hwhole]
      exact hsame
    · exact outcome_full rfl rfl full
  · rcases Nat.lt_or_ge st.depth limit with room | full
    · obtain ⟨found, st', trims⟩ :=
        program.trims_deleted_entry limit before entry after st.deeper failed
      obtain ⟨hwhole, hsame⟩ := outcome_of_trims (.object room trims)
      rw [hwhole]
      exact hsame
    · exact outcome_full rfl rfl full

theorem failures_leave_no_trace_constantCycle :
    ({} : Resolver).Agrees (Samples.constantCycle.resolveConstant 4 "selfish" {}).2 ∧
      (Samples.constantCycle.resolveLiteral 4
          (.array [.ofInt 1, .constant "selfish", .ofInt 3]) {}).1 =
        some (.array [.int 1, .int 3]) ∧
      SameOutcome
        (Samples.constantCycle.resolveLiteral 4
          (.array [.ofInt 1, .constant "selfish", .ofInt 3]) {})
        (Samples.constantCycle.resolveLiteral 4 (.array [.ofInt 1, .ofInt 3]) {}) ∧
      SameOutcome
        (Samples.constantCycle.resolveLiteral 4
          (.object [.spreading "ping", .spreading "selfish", .field "on" (.bool true)]) {})
        (Samples.constantCycle.resolveLiteral 4
          (.object [.spreading "ping", .field "on" (.bool true)]) {}) := by
  obtain ⟨constants, -, elements, entries, -⟩ :=
    failures_leave_no_trace Samples.constantCycle 4 {}
  refine ⟨constants "selfish" (by cbv), by cbv, ?_, ?_⟩
  · exact elements [.ofInt 1] (.constant "selfish") [.ofInt 3] (by cbv)
  · exact entries [.spreading "ping"] (.spreading "selfish") [.field "on" (.bool true)] (by cbv)

end Program

end SchemaIR
