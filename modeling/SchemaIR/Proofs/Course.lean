import Mathlib
import SchemaIR.Proofs.Meaning
import SchemaIR.Proofs.Runs

/-!
# The course of a run

Statements about what happens later in a run need the order in which things happen, and that
includes what happens inside of calls: a constant may be evaluated in the middle of another
one, and from then on it is cached for the rest of both. So a run is laid out as a list of
moments. A query is asked, then the queries that it is answered by take their courses one after
the other, and then it is answered.

Every run has a course, and its moments are those of the queries that are asked anywhere inside.
-/

namespace SchemaIR

/-- Either a query is asked in a state, or the query that was asked in it has been answered. -/
inductive Moment where
  | asked (query : Query) (st : Resolver)
  | answered (query : Query) (st : Resolver)

/-- The query of a moment with the state in which it is asked, or was. -/
def Moment.point : Moment → Query × Resolver
  | .asked query st => (query, st)
  | .answered query st => (query, st)

namespace Program

/-- The state of the evaluation at a moment. -/
def stateAt (program : Program) (limit : Nat) : Moment → Resolver
  | .asked _ st => st
  | .answered query st => (program.answer limit query st).2

/-- The literal that a look-up of a constant evaluates, if the cache does not answer and the
constant is not being evaluated. -/
def opened? (program : Program) (name : String) (st : Resolver) : Option Literal :=
  if (st.cache.lookup name).isNone ∧ name ∉ st.active then program.body? name else none

/-- The queries that a query is answered by, each in the state that the one before it left. -/
def parts (program : Program) (limit : Nat) : Query → Resolver → List (Query × Resolver)
  | .constant name, st =>
      (program.opened? name st).toList.map fun literal => (.literal literal, st.start name)
  | .literal (.reference target), st =>
      if target.member.isNone then [(.constant target.name, st)] else []
  | .literal (.object entries), st =>
      if st.depth < limit then [(.entries entries, st.deeper)] else []
  | .literal (.array elements), st =>
      if st.depth < limit then [(.elements elements, st.deeper)] else []
  | .literal (.string _), _ | .literal (.int _), _ | .literal (.float _), _
  | .literal (.bool _), _ | .elements [], _ | .entries [], _ => []
  | .elements (literal :: rest), st =>
      [(.literal literal, st), (.elements rest, (program.answer limit (.literal literal) st).2)]
  | .entries (.field _ literal :: rest), st =>
      [(.literal literal, st), (.entries rest, (program.answer limit (.literal literal) st).2)]
  | .entries (.spread source :: rest), st =>
      if source.member.isNone then
        let (value?, st₁) := program.answer limit (.constant source.name) st
        [(.constant source.name, st), (.entries rest, st₁.report (spreadEvents source.name value?))]
      else [(.entries rest, st)]

/-- `Course program limit asked moments`: the queries, asked one after the other, each in its
state, take this course. -/
inductive Course (program : Program) (limit : Nat) :
    List (Query × Resolver) → List Moment → Prop where
  | nil : Course program limit [] []
  | cons {query : Query} {st : Resolver} {rest : List (Query × Resolver)}
      {inner others : List Moment}
      (inside : Course program limit (program.parts limit query st) inner)
      (after : Course program limit rest others) :
      Course program limit ((query, st) :: rest)
        (.asked query st :: (inner ++ .answered query st :: others))

/-- What calls ask, one after the other. -/
def turns (program : Program) (limit : Nat) : List Call → Resolver → List (Query × Resolver)
  | [], _ => []
  | call :: rest, st =>
      (.literal call.term, st) :: program.turns limit rest (program.call limit call st).2

variable {program : Program} {limit : Nat} {query : Query} {st : Resolver} {name : String}
  {literal : Literal}

/-! ## Parts

They are what is asked for directly, in order. -/

theorem opened?_eq_some_iff :
    program.opened? name st = some literal ↔
      st.cache.lookup name = none ∧ name ∉ st.active ∧
        ∃ decl, program.consts.find? name = some decl ∧ decl.value = some literal := by
  unfold opened?
  rw [Option.ite_none_right_eq_some, body?, Option.bind_eq_some_iff, Option.isNone_iff_eq_none,
    and_assoc]

theorem parts_of_opened (h : program.opened? name st = some literal) :
    program.parts limit (.constant name) st = [(.literal literal, st.start name)] := by
  rw [parts, h]
  rfl

theorem parts_of_unopened (h : program.opened? name st = none) :
    program.parts limit (.constant name) st = [] := by
  rw [parts, h]
  rfl

theorem parts_spread {source : Reference} {rest : List LiteralEntry} {value? : Option Value}
    {st₁ : Resolver} (plain : source.member = none)
    (first : Evaluates program limit (.constant source.name) st value? st₁) :
    program.parts limit (.entries (.spread source :: rest)) st =
      [(.constant source.name, st),
        (.entries rest, st₁.report (spreadEvents source.name value?))] := by
  rw [parts, plain, answer_eq_iff.mpr first]
  rfl

theorem parts_memberSpread {source : Reference} {rest : List LiteralEntry}
    (named : source.member.isSome) :
    program.parts limit (.entries (.spread source :: rest)) st = [(.entries rest, st)] := by
  rw [parts, if_neg (by simpa using Option.isSome_iff_ne_none.mp named)]

theorem asks_of_mem_parts {part : Query × Resolver}
    (h : part ∈ program.parts limit query st) : program.Asks limit (query, st) part := by
  match query with
  | .constant name =>
      cases hopened : program.opened? name st with
      | none =>
          rw [parts_of_unopened hopened] at h
          cases h
      | some literal =>
          rw [parts_of_opened hopened, List.mem_singleton] at h
          obtain ⟨miss, idle, decl, found, body⟩ := opened?_eq_some_iff.mp hopened
          exact h ▸ .body miss found idle body
  | .literal (.reference target) =>
      rw [parts] at h
      split at h
      · next plain => exact List.mem_singleton.mp h ▸ .target (Option.isNone_iff_eq_none.mp plain)
      · cases h
  | .literal (.object entries) =>
      rw [parts] at h
      split at h
      · next room => exact List.mem_singleton.mp h ▸ .entries room
      · cases h
  | .literal (.array elements) =>
      rw [parts] at h
      split at h
      · next room => exact List.mem_singleton.mp h ▸ .elements room
      · cases h
  | .literal (.string _) | .literal (.int _) | .literal (.float _) | .literal (.bool _)
  | .elements [] | .entries [] => cases h
  | .elements (literal :: rest) =>
      rcases List.mem_pair.mp h with rfl | rfl
      · exact .element
      · exact .moreElements (program.evaluates_answer limit _ st)
  | .entries (.field key literal :: rest) =>
      rcases List.mem_pair.mp h with rfl | rfl
      · exact .field
      · exact .afterField (program.evaluates_answer limit _ st)
  | .entries (.spread source :: rest) =>
      cases hmember : source.member with
      | none =>
          have first := program.evaluates_answer limit (.constant source.name) st
          rw [parts_spread hmember first] at h
          rcases List.mem_pair.mp h with rfl | rfl
          · exact .source hmember
          · exact .afterSpread hmember first
      | some member =>
          have named : source.member.isSome := Option.isSome_of_eq_some hmember
          rw [parts_memberSpread named, List.mem_singleton] at h
          exact h ▸ .afterMemberSpread named

theorem mem_parts_iff {part : Query × Resolver} :
    part ∈ program.parts limit query st ↔ program.Asks limit (query, st) part := by
  refine ⟨asks_of_mem_parts, fun asks => ?_⟩
  cases asks with
  | body miss found idle body =>
      rw [parts_of_opened (opened?_eq_some_iff.mpr ⟨miss, idle, _, found, body⟩)]
      exact List.mem_singleton_self _
  | target plain =>
      rw [parts, if_pos (by simp [plain])]
      exact List.mem_singleton_self _
  | entries room | elements room =>
      rw [parts, if_pos room]
      exact List.mem_singleton_self _
  | element | field => exact List.mem_cons_self
  | moreElements first | afterField first =>
      rw [parts, answer_eq_iff.mpr first]
      exact List.mem_pair.mpr (.inr rfl)
  | source plain =>
      rw [parts_spread plain (program.evaluates_answer limit _ st)]
      exact List.mem_cons_self
  | afterSpread plain first =>
      rw [parts_spread plain first]
      exact List.mem_pair.mpr (.inr rfl)
  | afterMemberSpread named =>
      rw [parts_memberSpread named]
      exact List.mem_singleton_self _

/-- The moments of a course are those of the queries asked anywhere inside. -/
theorem Course.mem_iff {asked : List (Query × Resolver)} {moments : List Moment}
    {moment : Moment} (course : program.Course limit asked moments) :
    moment ∈ moments ↔ ∃ point ∈ asked, program.Inside limit point moment.point := by
  induction course with
  | nil => simp
  | @cons query st rest inner others _ _ ih₁ ih₂ =>
      rw [List.mem_cons, List.mem_append, List.mem_cons, ih₁, ih₂]
      constructor
      · rintro (rfl | ⟨part, hpart, inside⟩ | rfl | ⟨point, hpoint, inside⟩)
        · exact ⟨_, List.mem_cons_self, .refl⟩
        · exact ⟨_, List.mem_cons_self, .head (mem_parts_iff.mp hpart) inside⟩
        · exact ⟨_, List.mem_cons_self, .refl⟩
        · exact ⟨point, List.mem_cons_of_mem _ hpoint, inside⟩
      · rintro ⟨point, hpoint, inside⟩
        rcases List.mem_cons.mp hpoint with rfl | hpoint
        · rcases inside.cases_head with hpoint | ⟨part, asks, inside⟩
          · cases moment with
            | asked => cases hpoint; exact .inl rfl
            | answered => cases hpoint; exact .inr (.inr (.inl rfl))
          · exact .inr (.inl ⟨part, mem_parts_iff.mpr asks, inside⟩)
        · exact .inr (.inr (.inr ⟨point, hpoint, inside⟩))

end Program

/-! ## Every run has a course -/

/-- The parts of a query take some course, by induction on how the query is answered. -/
theorem Evaluates.exists_course {program : Program} {limit : Nat} {query : Query}
    {st st' : Resolver} {answer : query.Answer}
    (run : Evaluates program limit query st answer st') :
    ∃ inner, program.Course limit (program.parts limit query st) inner := by
  induction run with
  | @cached name st known hit _ | @withheld name st known hit _ =>
      have hunopened : program.opened? name st = none := by simp [Program.opened?, hit]
      exact ⟨[], Program.parts_of_unopened hunopened ▸ .nil⟩
  | @undeclared name st _ absent =>
      have hunopened : program.opened? name st = none := by
        simp [Program.opened?, Program.body?, absent]
      exact ⟨[], Program.parts_of_unopened hunopened ▸ .nil⟩
  | @circular name st decl _ _ busy =>
      have hunopened : program.opened? name st = none := by simp [Program.opened?, busy]
      exact ⟨[], Program.parts_of_unopened hunopened ▸ .nil⟩
  | @valueless name st decl _ found _ bare =>
      have hunopened : program.opened? name st = none := by
        simp [Program.opened?, Program.body?, found, bare]
      exact ⟨[], Program.parts_of_unopened hunopened ▸ .nil⟩
  | visited miss found idle body _ ih =>
      obtain ⟨inner, hinner⟩ := ih
      have hopened := Program.opened?_eq_some_iff.mpr ⟨miss, idle, _, found, body⟩
      rw [Program.parts_of_opened hopened]
      exact ⟨_, .cons hinner .nil⟩
  | reference plain _ ih =>
      obtain ⟨inner, hinner⟩ := ih
      rw [Program.parts, if_pos (by simp [plain])]
      exact ⟨_, .cons hinner .nil⟩
  | member named =>
      rw [Program.parts, if_neg (by simp [named])]
      exact ⟨_, .nil⟩
  | @tooDeep literal st opens full =>
      cases literal with
      | reference => cases opens
      | string | int | float | bool => exact ⟨_, .nil⟩
      | object | array =>
          rw [Program.parts, if_neg (by omega)]
          exact ⟨_, .nil⟩
  | @scalar literal _ _ _ _ plain =>
      cases literal with
      | reference | object | array => cases plain
      | string | int | float | bool => exact ⟨_, .nil⟩
  | object room _ ih | array room _ ih =>
      obtain ⟨inner, hinner⟩ := ih
      rw [Program.parts, if_pos room]
      exact ⟨_, .cons hinner .nil⟩
  | noElements | noEntries => exact ⟨_, .nil⟩
  | element first _ ih₁ ih₂ | field first _ ih₁ ih₂ =>
      obtain ⟨inner, hinner⟩ := ih₁
      obtain ⟨others, hothers⟩ := ih₂
      rw [Program.parts, Program.answer_eq_iff.mpr first]
      exact ⟨_, .cons hinner (.cons hothers .nil)⟩
  | spread plain first _ ih₁ ih₂ =>
      obtain ⟨inner, hinner⟩ := ih₁
      obtain ⟨others, hothers⟩ := ih₂
      rw [Program.parts_spread plain first]
      exact ⟨_, .cons hinner (.cons hothers .nil)⟩
  | memberSpread named _ ih =>
      obtain ⟨others, hothers⟩ := ih
      rw [Program.parts_memberSpread named]
      exact ⟨_, .cons hothers .nil⟩

theorem Program.exists_course (program : Program) (limit : Nat)
    (asked : List (Query × Resolver)) : ∃ moments, program.Course limit asked moments := by
  induction asked with
  | nil => exact ⟨_, .nil⟩
  | cons point rest ih =>
      obtain ⟨others, hothers⟩ := ih
      obtain ⟨inner, hinner⟩ := (program.evaluates_answer limit point.1 point.2).exists_course
      exact ⟨_, .cons hinner hothers⟩

end SchemaIR
