import Mathlib
import SchemaIR.Program.Samples
import SchemaIR.Proofs.Nesting

/-!
# What holds of the state of an evaluation

An evaluation carries a cache, the constants it is in the middle of and a count of open
levels. A constant is marked before its literal is evaluated and unmarked before its value is
kept, and whatever goes wrong in between is an empty answer and no way out. So the marks and
the count are the same after every query as before it, a constant is never marked and cached at
once, and what is in the cache got there by the evaluation of a declared literal.

The invariant is proved of one query by induction on its derivation, then of what is asked
inside a query, and then of runs.
-/

namespace SchemaIR

namespace Program

/-- The cache agrees with the program and with the marks. -/
structure Consistent (program : Program) (st : Resolver) : Prop where
  apart : ∀ name ∈ st.active, st.cache.lookup name = none
  declared : ∀ name known, st.cache.lookup name = some known →
    ∃ decl literal, program.consts.find? name = some decl ∧ decl.value = some literal
  measured : st.Measured

end Program

namespace Resolver

theorem lookup_conclude (st : Resolver) (name : String) (value : Value) (other : String) :
    (st.conclude name (some value)).cache.lookup other =
      if other = name then some ⟨value, value.depth⟩ else st.cache.lookup other := by
  rw [conclude_cache_some]
  exact Table.lookup_cons_ite _ _ _

end Resolver

namespace Program.Consistent

variable {program : Program} {st : Resolver} {name : String} {decl : ConstDecl}
  {literal : Literal}

theorem fresh (program : Program) : program.Consistent {} := by
  constructor
  · intro name busy
    cases busy
  · intro name known hit
    cases hit
  · intro name known hit
    cases hit

/-- Only the cache and the marks matter. -/
theorem congr {st' : Resolver} (h : program.Consistent st) (cache : st'.cache = st.cache)
    (active : st'.active = st.active) : program.Consistent st' := by
  refine ⟨?_, ?_, ?_⟩
  · rw [cache, active]
    exact h.apart
  · rw [cache]
    exact h.declared
  · rw [Resolver.Measured, cache]
    exact h.measured

/-- A constant is marked only while it is not cached. -/
theorem start (h : program.Consistent st) (miss : st.cache.lookup name = none) :
    program.Consistent (st.start name) := by
  refine ⟨?_, h.declared, h.measured⟩
  intro other busy
  rcases List.mem_cons.mp busy with rfl | busy
  · exact miss
  · exact h.apart other busy

/-- A value is kept after the mark is taken back. -/
theorem conclude (h : program.Consistent st) (found : program.consts.find? name = some decl)
    (body : decl.value = some literal) (value? : Option Value) :
    program.Consistent (st.conclude name value?) := by
  have hmeasured := h.measured.conclude name value?
  cases value? with
  | none =>
      refine ⟨?_, h.declared, hmeasured⟩
      intro other busy
      exact h.apart other (List.mem_filter.mp busy).1
  | some value =>
      refine ⟨?_, ?_, hmeasured⟩
      · intro other busy
        obtain ⟨hbusy, hother⟩ := List.mem_filter.mp busy
        rw [Resolver.lookup_conclude, if_neg (by simpa using hother)]
        exact h.apart other hbusy
      · intro other known hit
        rw [Resolver.lookup_conclude] at hit
        split at hit
        · next hname => exact ⟨decl, literal, hname ▸ found, body⟩
        · exact h.declared other known hit

end Program.Consistent

/-! ## One query and what is asked inside it -/

theorem Evaluates.consistent {program : Program} {limit : Nat} {query : Query}
    {st st' : Resolver} {answer : query.Answer}
    (run : Evaluates program limit query st answer st') (h : program.Consistent st) :
    program.Consistent st' := by
  induction run with
  | cached | withheld | undeclared | circular | valueless | member | tooDeep | scalar
  | noElements | noEntries => exact h.congr rfl rfl
  | visited miss found _ body _ ih => exact (ih (h.start miss)).conclude found body _
  | reference _ _ ih | memberSpread _ _ ih => exact ih h
  | object _ _ ih | array _ _ ih => exact (ih (h.congr rfl rfl)).congr rfl rfl
  | element _ _ ih₁ ih₂ | field _ _ ih₁ ih₂ => exact ih₂ (ih₁ h)
  | spread _ _ _ ih₁ ih₂ => exact ih₂ ((ih₁ h).congr rfl rfl)

namespace Program

variable {program : Program} {limit : Nat} {query query' : Query} {st st' : Resolver}

theorem Asks.consistent (asks : program.Asks limit (query, st) (query', st'))
    (h : program.Consistent st) : program.Consistent st' := by
  cases asks with
  | body miss => exact h.start miss
  | target | element | field | source | afterMemberSpread => exact h
  | entries | elements => exact h.congr rfl rfl
  | moreElements first | afterField first => exact first.consistent h
  | afterSpread _ first => exact (first.consistent h).congr rfl rfl

theorem Inside.consistent {asked inner : Query × Resolver}
    (inside : program.Inside limit asked inner) (h : program.Consistent asked.2) :
    program.Consistent inner.2 := by
  induction inside with
  | refl => exact h
  | tail _ asks ih => exact Asks.consistent asks ih

theorem Later.consistent (later : program.Later limit {} st) : program.Consistent st := by
  induction later with
  | refl => exact .fresh program
  | tail _ move ih =>
      cases move with
      | report => exact ih.congr rfl rfl
      | call call => exact (program.evaluates_call limit call _).consistent ih

end Program

/-! ## The count of open levels

A literal that opens a level runs what is in it one level deeper and then takes one off the
count. For that to undo the opening, the count has to be above zero there. -/

/-- What is evaluated on the level that a literal opens. -/
def Literal.contents (scope : Scope) : Literal → Evaluation
  | .reference target => scope.reference target
  | .string text => fun st => (some (.string text), st)
  | .int raw => evaluateInt raw
  | .float raw => evaluateFloat raw
  | .bool flag => fun st => (some (.bool flag), st)
  | .object entries => fun st =>
      let (entries, st) := evaluateEntries scope entries st
      (some (.object entries), st)
  | .array elements => fun st =>
      let (items, st) := evaluateElements scope elements st
      (some (.array items), st)

theorem Literal.evaluate_eq_within {literal : Literal} (opens : literal.isReference = false)
    (scope : Scope) (st : Resolver) :
    literal.evaluate scope st = st.within scope.limit (literal.contents scope) := by
  cases literal with
  | reference target => cases opens
  | string | int | float | bool | object | array => rw [Literal.evaluate]; rfl

theorem evaluateInt_depth (raw : String) (st : Resolver) :
    (evaluateInt raw st).2.depth = st.depth := by
  unfold evaluateInt
  split <;> rfl

theorem evaluateFloat_depth (raw : String) (st : Resolver) :
    (evaluateFloat raw st).2.depth = st.depth := by
  unfold evaluateFloat
  split
  · split <;> rfl
  · rfl

/-- Whatever a literal holds leaves the levels open that it finds open. -/
theorem Literal.contents_depth (program : Program) (limit : Nat) {literal : Literal}
    (opens : literal.isReference = false) (st : Resolver) :
    (literal.contents (program.scope limit) st).2.depth = st.depth := by
  cases literal with
  | reference target => cases opens
  | string | bool => rfl
  | int raw => exact evaluateInt_depth raw st
  | float raw => exact evaluateFloat_depth raw st
  | object entries => exact (program.evaluates_answer limit (.entries entries) st).frame.2
  | array elements => exact (program.evaluates_answer limit (.elements elements) st).frame.2

namespace Program

/-- After whatever calls no level is open, no constant is marked, and the state is consistent.
So it is wherever something is asked inside a further call, before and after, and the open
levels and the marks are the same before and after. Where a literal takes a level off the count,
the level is the one that it put there. -/
theorem state_consistent (program : Program) (limit : Nat) (calls : List Call) :
    let st := (program.calls limit calls {}).2
    (st.depth = 0 ∧ st.active = [] ∧ program.Consistent st) ∧
    (∀ (call : Call) query inner, program.Inside limit (.literal call.term, st) (query, inner) →
      let after := (program.answer limit query inner).2
      program.Consistent inner ∧ program.Consistent after ∧
        after.depth = inner.depth ∧ after.active = inner.active) ∧
    (∀ (literal : Literal) inner, literal.isReference = false →
      program.answer limit (.literal literal) inner =
          inner.within limit (literal.contents (program.scope limit)) ∧
        (literal.contents (program.scope limit) inner.deeper).2.depth = inner.depth + 1) := by
  intro st
  have hlater : program.Later limit {} st := .calls program limit calls {}
  refine ⟨⟨hlater.frame.2.1, hlater.frame.1, hlater.consistent⟩, ?_, ?_⟩
  · intro call query inner inside after
    have hinner : program.Consistent inner := inside.consistent hlater.consistent
    have run := program.evaluates_answer limit query inner
    exact ⟨hinner, run.consistent hinner, run.frame.2, run.frame.1⟩
  · intro literal inner opens
    exact ⟨Literal.evaluate_eq_within opens _ inner, literal.contents_depth program limit opens _⟩

/-- After a constant that refers to itself has failed, a circle of two constants is opened; at the
reference that closes it both are marked and two levels are open, and so they are afterwards. -/
theorem state_consistent_constantCycle :
    let st := (Samples.constantCycle.calls 3 [.constant "selfish"] {}).2
    ∃ inner, Samples.constantCycle.Inside 3 (.literal (.constant "ping"), st)
        (.constant "ping", inner) ∧
      inner.active = ["pong", "ping"] ∧ inner.depth = 2 ∧
      let after := (Samples.constantCycle.answer 3 (.constant "ping") inner).2
      Samples.constantCycle.Consistent after ∧
        after.active = ["pong", "ping"] ∧ after.depth = 2 ∧
        after.stats.cyclesBroken = st.stats.cyclesBroken + 1 := by
  intro st
  let inner := (((st.start "ping").deeper).start "pong").deeper
  have inside : Samples.constantCycle.Inside 3 (.literal (.constant "ping"), st)
      (.constant "ping", inner) := by
    refine .head (.target rfl) (.head (.body rfl rfl ?_ rfl) (.head (.entries ?_)
      (.head (.source rfl) (.head (.body rfl rfl ?_ rfl) (.head (.entries ?_)
        (.head (.source rfl) .refl))))))
    all_goals decide +kernel
  obtain ⟨-, hinside, -⟩ := state_consistent Samples.constantCycle 3 [.constant "selfish"]
  obtain ⟨-, hafter, hdepth, hactive⟩ := hinside (.constant "ping") _ inner inside
  exact ⟨inner, inside, rfl, rfl, hafter, hactive, hdepth, by decide +kernel⟩

end Program

end SchemaIR
