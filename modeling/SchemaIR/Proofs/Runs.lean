import Mathlib.Logic.Relation
import SchemaIR.Proofs.Evaluation

/-!
# Runs of an evaluation

One evaluation serves many calls. Whatever they are and in whatever order they come, each
starts from the state that the one before it left, and between them nothing happens to
the state but that something is reported. A run is a sequence of such moves.
-/

namespace SchemaIR

/-- What a caller can ask of an evaluation. -/
inductive Call where
  | constant (name : String)
  | literal (literal : Literal)

/-- The literal that a call asks for. A constant is asked for by a reference to it. -/
def Call.term : Call → Literal
  | .constant name => .reference { name }
  | .literal term => term

namespace Program

/-- Answers a call. -/
def call (program : Program) (limit : Nat) : Call → Evaluation
  | .constant name => program.resolveConstant limit name
  | .literal term => program.resolveLiteral limit term

/-- Answers calls one after the other. -/
def calls (program : Program) (limit : Nat) :
    List Call → Resolver → List (Option Value) × Resolver
  | [], st => ([], st)
  | call :: rest, st =>
      let (value?, st) := program.call limit call st
      let (others, st) := program.calls limit rest st
      (value? :: others, st)

/-- One thing that happens to the state of an evaluation. -/
inductive Move (program : Program) (limit : Nat) : Resolver → Resolver → Prop where
  | report (st : Resolver) (events : Log) : Move program limit st (st.report events)
  | call (st : Resolver) (call : Call) :
      Move program limit st (program.call limit call st).2

/-- The second state comes after the first one in some run. -/
abbrev Later (program : Program) (limit : Nat) : Resolver → Resolver → Prop :=
  Relation.ReflTransGen (program.Move limit)

variable {program : Program} {limit : Nat} {st st' : Resolver}

theorem call_eq_answer (program : Program) (limit : Nat) (call : Call) (st : Resolver) :
    program.call limit call st = program.answer limit (.literal call.term) st := by
  cases call <;> rfl

/-- A call is evaluated by the rules for its literal. -/
theorem evaluates_call (program : Program) (limit : Nat) (call : Call) (st : Resolver) :
    Evaluates program limit (.literal call.term) st (program.call limit call st).1
      (program.call limit call st).2 := by
  rw [call_eq_answer]
  exact program.evaluates_answer limit (.literal call.term) st

/-! ## What a run leaves alone -/

theorem Move.frame (move : program.Move limit st st') :
    st'.active = st.active ∧ st'.depth = st.depth ∧
      st.stats.depthExceeded ≤ st'.stats.depthExceeded := by
  cases move with
  | report => simp
  | call call =>
      have run := program.evaluates_call limit call st
      exact ⟨run.frame.1, run.frame.2, run.cuts_le⟩

/-- Between calls no constant is being evaluated that was not at the start, the same
levels are open, and what was cut stays counted. -/
theorem Later.frame (later : program.Later limit st st') :
    st'.active = st.active ∧ st'.depth = st.depth ∧
      st.stats.depthExceeded ≤ st'.stats.depthExceeded := by
  induction later with
  | refl => exact ⟨rfl, rfl, Nat.le_refl _⟩
  | tail _ move ih =>
      have hmove := move.frame
      exact ⟨hmove.1.trans ih.1, hmove.2.1.trans ih.2.1, Nat.le_trans ih.2.2 hmove.2.2⟩

theorem Later.calls (program : Program) (limit : Nat) (calls : List Call)
    (st : Resolver) : program.Later limit st (program.calls limit calls st).2 := by
  induction calls generalizing st with
  | nil => exact .refl
  | cons call rest ih => exact .head (.call st call) (ih _)

/-! ## What a call asks for on its way

A query is answered by asking further ones, each in the state that the evaluation has
reached by then. -/

/-- Answering the first query in its state asks the second one in its state. -/
inductive Asks (program : Program) (limit : Nat) :
    Query × Resolver → Query × Resolver → Prop where
  | body {name : String} {st : Resolver} {decl : ConstDecl} {literal : Literal}
      (miss : st.cache.lookup name = none)
      (found : program.consts.find? name = some decl) (idle : name ∉ st.active)
      (body : decl.value = some literal) :
      Asks program limit (.constant name, st) (.literal literal, st.start name)
  | target {target : Reference} {st : Resolver} (plain : target.member = none) :
      Asks program limit (.literal (.reference target), st) (.constant target.name, st)
  | entries {entries : List LiteralEntry} {st : Resolver} (room : st.depth < limit) :
      Asks program limit (.literal (.object entries), st) (.entries entries, st.deeper)
  | elements {elements : List Literal} {st : Resolver} (room : st.depth < limit) :
      Asks program limit (.literal (.array elements), st) (.elements elements, st.deeper)
  | element {literal : Literal} {rest : List Literal} {st : Resolver} :
      Asks program limit (.elements (literal :: rest), st) (.literal literal, st)
  | moreElements {literal : Literal} {rest : List Literal} {st st₁ : Resolver}
      {value? : Option Value}
      (first : Evaluates program limit (.literal literal) st value? st₁) :
      Asks program limit (.elements (literal :: rest), st) (.elements rest, st₁)
  | field {key : String} {literal : Literal} {rest : List LiteralEntry} {st : Resolver} :
      Asks program limit (.entries (.field key literal :: rest), st) (.literal literal, st)
  | afterField {key : String} {literal : Literal} {rest : List LiteralEntry}
      {st st₁ : Resolver} {value? : Option Value}
      (first : Evaluates program limit (.literal literal) st value? st₁) :
      Asks program limit (.entries (.field key literal :: rest), st) (.entries rest, st₁)
  | source {source : Reference} {rest : List LiteralEntry} {st : Resolver}
      (plain : source.member = none) :
      Asks program limit (.entries (.spread source :: rest), st)
        (.constant source.name, st)
  | afterSpread {source : Reference} {rest : List LiteralEntry} {st st₁ : Resolver}
      {value? : Option Value} (plain : source.member = none)
      (first : Evaluates program limit (.constant source.name) st value? st₁) :
      Asks program limit (.entries (.spread source :: rest), st)
        (.entries rest, st₁.report (spreadEvents source.name value?))
  | afterMemberSpread {source : Reference} {rest : List LiteralEntry} {st : Resolver}
      (named : source.member.isSome) :
      Asks program limit (.entries (.spread source :: rest), st) (.entries rest, st)

/-- The second query is asked, in its state, somewhere inside the answer to the first. -/
abbrev Inside (program : Program) (limit : Nat) :
    Query × Resolver → Query × Resolver → Prop :=
  Relation.ReflTransGen (program.Asks limit)

end Program

end SchemaIR
