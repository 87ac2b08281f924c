import Mathlib
import SchemaIR.Program.Samples
import SchemaIR.Proofs.Consistency
import SchemaIR.Proofs.Course

/-!
# The first value of a constant is its last

Along the course of a run the cache only grows. An entry is made when the evaluation of a
constant ends, and while it lasts the constant is marked, so that nothing inside makes an entry
for it. Hence an entry is never overwritten: what a constant was first found to be, it stays, and
whoever asks for it later is answered from the cache.
-/

namespace SchemaIR

/-! ## The cache only grows -/

/-- Whatever is cached in one state is cached in the other. -/
def Resolver.Keeps (st st' : Resolver) : Prop :=
  ∀ name known, st.cache.lookup name = some known → st'.cache.lookup name = some known

namespace Resolver.Keeps

variable {st st₁ st₂ : Resolver}

theorem refl (st : Resolver) : st.Keeps st := fun _ _ hit => hit

theorem trans (h₁ : st.Keeps st₁) (h₂ : st₁.Keeps st₂) : st.Keeps st₂ :=
  fun name known hit => h₂ name known (h₁ name known hit)

/-- An entry is overwritten only if there is one. -/
theorem conclude {name : String} (miss : st₁.cache.lookup name = none) (value? : Option Value) :
    st₁.Keeps (st₁.conclude name value?) := by
  cases value? with
  | none => exact refl st₁
  | some value =>
      intro other known hit
      rw [lookup_conclude]
      split
      · next hname =>
          rw [hname, miss] at hit
          cases hit
      · exact hit

end Resolver.Keeps

open Resolver (Keeps)

namespace Evaluates

variable {program : Program} {limit : Nat} {query : Query} {st st' : Resolver}
  {answer : query.Answer}

/-- A constant that is marked when a query is asked is not cached when it is answered. -/
theorem marked_miss {name : String} (run : Evaluates program limit query st answer st')
    (h : program.Consistent st) (marked : name ∈ st.active) :
    st'.cache.lookup name = none := by
  rw [← run.frame.1] at marked
  exact (run.consistent h).apart name marked

theorem keeps (run : Evaluates program limit query st answer st')
    (h : program.Consistent st) : st.Keeps st' := by
  induction run with
  | cached | withheld | undeclared | circular | valueless | member | tooDeep | scalar
  | noElements | noEntries => exact Keeps.refl _
  | visited miss _ _ _ run ih =>
      have hstart := h.start miss
      exact (ih hstart).trans (Keeps.conclude (run.marked_miss hstart List.mem_cons_self) _)
  | reference _ _ ih | memberSpread _ _ ih => exact ih h
  | object _ _ ih | array _ _ ih => exact ih (h.congr rfl rfl)
  | element first _ ih₁ ih₂ | field first _ ih₁ ih₂ =>
      exact (ih₁ h).trans (ih₂ (first.consistent h))
  | spread _ first _ ih₁ ih₂ =>
      exact (ih₁ h).trans (ih₂ ((first.consistent h).congr rfl rfl))

end Evaluates

namespace Program

variable {program : Program} {limit : Nat} {query query' : Query} {st st' : Resolver}

theorem Asks.keeps (asks : program.Asks limit (query, st) (query', st'))
    (h : program.Consistent st) : st.Keeps st' := by
  cases asks with
  | body | target | entries | elements | element | field | source | afterMemberSpread =>
      exact Keeps.refl _
  | moreElements first | afterField first | afterSpread _ first => exact first.keeps h

/-- When a query is answered, nothing is lost of what was cached when a part of it was. -/
theorem Asks.keeps_answered (asks : program.Asks limit (query, st) (query', st'))
    (h : program.Consistent st) :
    (program.answer limit query' st').2.Keeps (program.answer limit query st).2 := by
  have hinner := asks.consistent h
  have run := program.evaluates_answer limit query' st'
  cases asks with
  | body miss found idle body =>
      rw [answer_eq_iff.mpr (.visited miss found idle body run)]
      exact Keeps.conclude (run.marked_miss hinner List.mem_cons_self) _
  | target plain =>
      rw [answer_eq_iff.mpr (.reference plain run)]
      exact Keeps.refl _
  | entries room =>
      rw [answer_eq_iff.mpr (.object room run)]
      exact Keeps.refl _
  | elements room =>
      rw [answer_eq_iff.mpr (.array room run)]
      exact Keeps.refl _
  | @element literal rest =>
      have more := program.evaluates_answer limit (.elements rest)
        (program.answer limit (.literal literal) st).2
      rw [answer_eq_iff.mpr (.element run more)]
      exact more.keeps (run.consistent hinner)
  | moreElements first =>
      rw [answer_eq_iff.mpr (.element first run)]
      exact Keeps.refl _
  | @field _ literal rest =>
      have more := program.evaluates_answer limit (.entries rest)
        (program.answer limit (.literal literal) st).2
      rw [answer_eq_iff.mpr (.field run more)]
      exact more.keeps (run.consistent hinner)
  | afterField first =>
      rw [answer_eq_iff.mpr (.field first run)]
      exact Keeps.refl _
  | @source source rest _ plain =>
      have more := program.evaluates_answer limit (.entries rest)
        ((program.answer limit (.constant source.name) st).2.report
          (spreadEvents source.name (program.answer limit (.constant source.name) st).1))
      rw [answer_eq_iff.mpr (.spread plain run more)]
      exact more.keeps ((run.consistent hinner).congr rfl rfl)
  | afterSpread plain first =>
      rw [answer_eq_iff.mpr (.spread plain first run)]
      exact Keeps.refl _
  | afterMemberSpread named =>
      rw [answer_eq_iff.mpr (.memberSpread named run)]
      exact Keeps.refl _

theorem Asks.marked {name : String} (asks : program.Asks limit (query, st) (query', st'))
    (h : name ∈ st.active) : name ∈ st'.active := by
  cases asks with
  | body => exact List.mem_cons_of_mem _ h
  | target | entries | elements | element | field | source | afterMemberSpread => exact h
  | moreElements first | afterField first | afterSpread _ first => exact first.frame.1 ▸ h

theorem Inside.marked {asked inner : Query × Resolver} {name : String}
    (inside : program.Inside limit asked inner) (h : name ∈ asked.2.active) :
    name ∈ inner.2.active := by
  induction inside with
  | refl => exact h
  | tail _ asks ih => exact Asks.marked asks ih

theorem parts_consistent (h : program.Consistent st) :
    ∀ part ∈ program.parts limit query st, program.Consistent part.2 :=
  fun _ hpart => (mem_parts_iff.mp hpart).consistent h

theorem parts_keeps (h : program.Consistent st) :
    ∀ part ∈ program.parts limit query st, st.Keeps part.2 :=
  fun _ hpart => (mem_parts_iff.mp hpart).keeps h

theorem parts_keeps_answered (h : program.Consistent st) :
    ∀ part ∈ program.parts limit query st,
      (program.answer limit part.1 part.2).2.Keeps (program.answer limit query st).2 :=
  fun _ hpart => (mem_parts_iff.mp hpart).keeps_answered h

/-- Of two queries asked in turn, the second finds what the first left. -/
def InTurn (program : Program) (limit : Nat) (asked : List (Query × Resolver)) : Prop :=
  asked.Pairwise fun first second => (program.answer limit first.1 first.2).2.Keeps second.2

theorem parts_inTurn (program : Program) (limit : Nat) (query : Query) (st : Resolver) :
    program.InTurn limit (program.parts limit query st) := by
  unfold InTurn
  match query with
  | .constant name =>
      cases hopened : program.opened? name st with
      | none =>
          rw [parts_of_unopened hopened]
          exact .nil
      | some literal =>
          rw [parts_of_opened hopened]
          exact List.pairwise_singleton _ _
  | .literal (.reference _) | .literal (.object _) | .literal (.array _) =>
      rw [parts]
      split
      · exact List.pairwise_singleton _ _
      · exact .nil
  | .literal (.string _) | .literal (.int _) | .literal (.float _) | .literal (.bool _)
  | .elements [] | .entries [] => exact .nil
  | .elements (_ :: _) | .entries (.field _ _ :: _) =>
      exact List.pairwise_pair.mpr (Keeps.refl _)
  | .entries (.spread source :: rest) =>
      cases hmember : source.member with
      | none =>
          rw [parts_spread hmember (program.evaluates_answer limit (.constant source.name) st)]
          exact List.pairwise_pair.mpr (Keeps.refl _)
      | some member =>
          rw [parts_memberSpread (Option.isSome_of_eq_some hmember)]
          exact List.pairwise_singleton _ _

/-! ## Along a course

Each statement is made about a list of queries, so that it covers the parts of a query and the
calls of a run alike. -/

namespace Course

variable {asked : List (Query × Resolver)} {moments : List Moment} {base top : Resolver}
  {name : String}

theorem consistent (course : program.Course limit asked moments)
    (h : ∀ point ∈ asked, program.Consistent point.2) :
    ∀ moment ∈ moments, program.Consistent moment.point.2 := by
  intro moment hmoment
  obtain ⟨point, hpoint, inside⟩ := course.mem_iff.mp hmoment
  exact inside.consistent (h point hpoint)

/-- What is cached before a course is cached whenever something is asked in it. -/
theorem keeps_from (course : program.Course limit asked moments)
    (consistent : ∀ point ∈ asked, program.Consistent point.2)
    (h : ∀ point ∈ asked, base.Keeps point.2) :
    ∀ moment ∈ moments, base.Keeps moment.point.2 := by
  induction course with
  | nil => exact List.forall_mem_nil _
  | @cons query st _ _ _ _ _ ih₁ ih₂ =>
      obtain ⟨hconsistent, hconsistents⟩ := List.forall_mem_cons.mp consistent
      obtain ⟨hfirst, hrest⟩ := List.forall_mem_cons.mp h
      have hinner := ih₁ (parts_consistent hconsistent)
        fun part hpart => hfirst.trans (parts_keeps hconsistent part hpart)
      refine List.forall_mem_cons.mpr ⟨hfirst, List.forall_mem_append.mpr ⟨hinner, ?_⟩⟩
      exact List.forall_mem_cons.mpr ⟨hfirst, ih₂ hconsistents hrest⟩

theorem keeps_stateAt {moment : Moment} (consistent : program.Consistent moment.point.2) :
    moment.point.2.Keeps (program.stateAt limit moment) := by
  cases moment with
  | asked query st => exact Keeps.refl st
  | answered query st => exact (program.evaluates_answer limit query st).keeps consistent

/-- What is cached at some moment of a course is cached after it. -/
theorem keeps_to (course : program.Course limit asked moments)
    (consistent : ∀ point ∈ asked, program.Consistent point.2)
    (h : ∀ point ∈ asked, (program.answer limit point.1 point.2).2.Keeps top) :
    ∀ moment ∈ moments, (program.stateAt limit moment).Keeps top := by
  induction course generalizing top with
  | nil => exact List.forall_mem_nil _
  | @cons query st _ _ _ _ _ ih₁ ih₂ =>
      obtain ⟨hconsistent, hconsistents⟩ := List.forall_mem_cons.mp consistent
      obtain ⟨hfirst, hrest⟩ := List.forall_mem_cons.mp h
      have hasked : st.Keeps top :=
        ((program.evaluates_answer limit query st).keeps hconsistent).trans hfirst
      have hinner := ih₁ (parts_consistent hconsistent)
        fun part hpart => (parts_keeps_answered hconsistent part hpart).trans hfirst
      refine List.forall_mem_cons.mpr ⟨hasked, List.forall_mem_append.mpr ⟨hinner, ?_⟩⟩
      exact List.forall_mem_cons.mpr ⟨hfirst, ih₂ hconsistents hrest⟩

/-- Nothing leaves the cache between one moment and a later one. -/
theorem keeps (course : program.Course limit asked moments)
    (consistent : ∀ point ∈ asked, program.Consistent point.2)
    (inTurn : program.InTurn limit asked) :
    moments.Pairwise fun moment later =>
      (program.stateAt limit moment).Keeps (program.stateAt limit later) := by
  induction course with
  | nil => exact .nil
  | @cons query st rest inner others inside after ih₁ ih₂ =>
      obtain ⟨hconsistent, hconsistents⟩ := List.forall_mem_cons.mp consistent
      obtain ⟨hturn, hturns⟩ := List.pairwise_cons.mp inTurn
      have hparts : ∀ part ∈ program.parts limit query st, program.Consistent part.2 :=
        parts_consistent hconsistent
      have hanswered := (program.evaluates_answer limit query st).keeps hconsistent
      -- The moments inside lie between the question and its answer, the others after it.
      have hinside : ∀ moment ∈ inner, st.Keeps (program.stateAt limit moment) ∧
          (program.stateAt limit moment).Keeps (program.answer limit query st).2 := by
        intro moment hmoment
        have hbefore := inside.keeps_from hparts (parts_keeps hconsistent) moment hmoment
        refine ⟨hbefore.trans (keeps_stateAt (inside.consistent hparts moment hmoment)), ?_⟩
        exact inside.keeps_to hparts (parts_keeps_answered hconsistent) moment hmoment
      have hafter : ∀ moment ∈ others,
          (program.answer limit query st).2.Keeps (program.stateAt limit moment) := by
        intro moment hmoment
        exact (after.keeps_from hconsistents hturn moment hmoment).trans
          (keeps_stateAt (after.consistent hconsistents moment hmoment))
      refine List.pairwise_cons.mpr ⟨?_, List.pairwise_append.mpr ⟨?_, ?_, ?_⟩⟩
      · refine List.forall_mem_append.mpr ⟨fun moment hmoment => (hinside moment hmoment).1, ?_⟩
        exact List.forall_mem_cons.mpr
          ⟨hanswered, fun moment hmoment => hanswered.trans (hafter moment hmoment)⟩
      · exact ih₁ hparts (parts_inTurn program limit query st)
      · exact List.pairwise_cons.mpr ⟨hafter, ih₂ hconsistents hturns⟩
      · intro moment hmoment
        have hleft := (hinside moment hmoment).2
        exact List.forall_mem_cons.mpr
          ⟨hleft, fun later hlater => hleft.trans (hafter later hlater)⟩

end Course

/-! ## Values found by evaluation -/

/-- At the moment a look-up of the constant ends in which its literal was evaluated, with the
value as its answer. -/
def Resolves (program : Program) (limit : Nat) (name : String) (value : Value)
    (moment : Moment) : Prop :=
  ∃ st literal, moment = .answered (.constant name) st ∧
    program.parts limit (.constant name) st = [(.literal literal, st.start name)] ∧
    (program.answer limit (.constant name) st).1 = some value

variable {name : String} {value : Value} {moment : Moment}

theorem opened?_of_parts {literal : Literal} {inner : Resolver}
    (h : program.parts limit (.constant name) st = [(.literal literal, inner)]) :
    program.opened? name st = some literal := by
  cases hopened : program.opened? name st with
  | none =>
      rw [parts_of_unopened hopened] at h
      cases h
  | some other =>
      rw [parts_of_opened hopened] at h
      cases h
      rfl

theorem Resolves.miss (h : program.Resolves limit name value moment) :
    moment.point.2.cache.lookup name = none := by
  obtain ⟨st, literal, rfl, hparts, -⟩ := h
  exact (opened?_eq_some_iff.mp (opened?_of_parts hparts)).1

theorem Resolves.idle (h : program.Resolves limit name value moment) :
    name ∉ moment.point.2.active := by
  obtain ⟨st, literal, rfl, hparts, -⟩ := h
  exact (opened?_eq_some_iff.mp (opened?_of_parts hparts)).2.1

theorem Resolves.hit (h : program.Resolves limit name value moment) :
    (program.stateAt limit moment).cache.lookup name = some ⟨value, value.depth⟩ := by
  obtain ⟨st, literal, rfl, hparts, hvalue⟩ := h
  obtain ⟨miss, idle, decl, found, body⟩ := opened?_eq_some_iff.mp (opened?_of_parts hparts)
  have run := program.evaluates_answer limit (.literal literal) (st.start name)
  rw [stateAt, answer_eq_iff.mpr (.visited miss found idle body run)]
  rw [answer_eq_iff.mpr (.visited miss found idle body run)] at hvalue
  have hvalue : (program.answer limit (.literal literal) (st.start name)).1 = some value := hvalue
  rw [hvalue, Resolver.lookup_conclude, if_pos rfl]

/-- A look-up that the cache answers. -/
theorem answer_of_hit {known : Cached} (hit : st.cache.lookup name = some known) :
    (program.answer limit (.constant name) st).1 =
        (if st.depth + known.depth ≤ limit then some known.value else none) ∧
      let stats := (program.answer limit (.constant name) st).2.stats
      stats.cacheHits = st.stats.cacheHits + 1 ∧ stats.evaluations = st.stats.evaluations ∧
        stats.cyclesBroken = st.stats.cyclesBroken := by
  rcases Nat.lt_or_ge limit (st.depth + known.depth) with deep | fits
  · rw [answer_eq_iff.mpr (.withheld hit deep), if_neg (by omega)]
    simp
  · rw [answer_eq_iff.mpr (.cached hit fits), if_pos fits]
    simp

/-- No constant is evaluated with a value twice. Two such evaluations would follow each other,
and the second would find the value of the first, or one would lie in the other, and there the
constant is marked. -/
theorem Course.resolves_once {asked : List (Query × Resolver)} {moments : List Moment}
    (course : program.Course limit asked moments)
    (consistent : ∀ point ∈ asked, program.Consistent point.2)
    (inTurn : program.InTurn limit asked) (name : String) :
    moments.Pairwise fun moment later => ∀ value value',
      program.Resolves limit name value moment → ¬ program.Resolves limit name value' later := by
  induction course with
  | nil => exact .nil
  | @cons query st rest inner others inside after ih₁ ih₂ =>
      obtain ⟨hconsistent, hconsistents⟩ := List.forall_mem_cons.mp consistent
      obtain ⟨hturn, hturns⟩ := List.pairwise_cons.mp inTurn
      have hparts : ∀ part ∈ program.parts limit query st, program.Consistent part.2 :=
        parts_consistent hconsistent
      have hafter : ∀ base : Resolver, base.Keeps (program.answer limit query st).2 →
          base.cache.lookup name ≠ none → ∀ later ∈ others, ∀ value,
            ¬ program.Resolves limit name value later := by
        intro base hbase hcached later hlater value hresolves
        obtain ⟨known, hit⟩ := Option.ne_none_iff_exists'.mp hcached
        have hkept := after.keeps_from hconsistents
          (fun point hpoint => hbase.trans (hturn point hpoint)) later hlater name known hit
        rw [hresolves.miss] at hkept
        cases hkept
      refine List.pairwise_cons.mpr ⟨?_, List.pairwise_append.mpr ⟨?_, ?_, ?_⟩⟩
      · rintro later - value value' ⟨_, _, hmoment, -⟩
        cases hmoment
      · exact ih₁ hparts (parts_inTurn program limit query st)
      · refine List.pairwise_cons.mpr ⟨?_, ih₂ hconsistents hturns⟩
        intro later hlater value value' hfirst
        refine hafter _ (Keeps.refl _) ?_ later hlater value'
        have hit := hfirst.hit
        rw [stateAt] at hit
        rw [hit]
        exact Option.some_ne_none _
      · intro moment hmoment
        refine List.forall_mem_cons.mpr ⟨?_, fun later hlater value value' hfirst => ?_⟩
        · rintro value value' hfirst ⟨_, literal, hlast, hopened, -⟩
          cases hlast
          rw [hopened] at inside
          obtain ⟨point, hpoint, within⟩ := inside.mem_iff.mp hmoment
          cases List.mem_singleton.mp hpoint
          exact hfirst.idle (within.marked List.mem_cons_self)
        · refine hafter (program.stateAt limit moment) ?_ ?_ later hlater value'
          · exact inside.keeps_to hparts (parts_keeps_answered hconsistent) moment hmoment
          · rw [hfirst.hit]
            exact Option.some_ne_none _

/-! ## Runs -/

theorem turns_consistent (limit : Nat) (calls : List Call) (h : program.Consistent st) :
    ∀ point ∈ program.turns limit calls st, program.Consistent point.2 := by
  induction calls generalizing st with
  | nil => exact List.forall_mem_nil _
  | cons call rest ih =>
      have hcall := (program.evaluates_call limit call st).consistent h
      exact List.forall_mem_cons.mpr ⟨h, ih hcall⟩

theorem calls_keeps (limit : Nat) (calls : List Call) (h : program.Consistent st) :
    (∀ point ∈ program.turns limit calls st, st.Keeps point.2) ∧
      st.Keeps (program.calls limit calls st).2 := by
  induction calls generalizing st with
  | nil => exact ⟨List.forall_mem_nil _, Keeps.refl st⟩
  | cons call rest ih =>
      have run := program.evaluates_call limit call st
      have hcall := run.keeps h
      obtain ⟨hturns, hcalls⟩ := ih (run.consistent h)
      refine ⟨List.forall_mem_cons.mpr ⟨Keeps.refl st, ?_⟩, hcall.trans hcalls⟩
      exact fun point hpoint => hcall.trans (hturns point hpoint)

theorem turns_inTurn (limit : Nat) (calls : List Call) (h : program.Consistent st) :
    program.InTurn limit (program.turns limit calls st) ∧
      ∀ point ∈ program.turns limit calls st,
        (program.answer limit point.1 point.2).2.Keeps (program.calls limit calls st).2 := by
  induction calls generalizing st with
  | nil => exact ⟨.nil, List.forall_mem_nil _⟩
  | cons call rest ih =>
      have hcall := (program.evaluates_call limit call st).consistent h
      obtain ⟨hturns, hleft⟩ := calls_keeps limit rest hcall
      obtain ⟨hinTurn, hcalls⟩ := ih hcall
      have hanswer := program.call_eq_answer limit call st
      exact ⟨List.pairwise_cons.mpr ⟨hanswer ▸ hturns, hinTurn⟩,
        List.forall_mem_cons.mpr ⟨hanswer ▸ hleft, hcalls⟩⟩

/-- Every sequence of calls takes a course, whose moments are those of the queries asked
anywhere inside the calls. Once a look-up of a constant has evaluated its literal
to a value, the constant is cached with that value at every later moment and after the calls,
and it is never marked again. No later look-up of it asks for its literal: it is answered from
the cache, with the value where that fits under the limit and with nothing elsewhere, and counts
a hit, no evaluation and no circle. So no constant is evaluated with a value twice. -/
theorem first_value_final (program : Program) (limit : Nat) (calls : List Call) :
    (∃ moments, program.Course limit (program.turns limit calls {}) moments) ∧
    ∀ moments, program.Course limit (program.turns limit calls {}) moments →
      (∀ moment, moment ∈ moments ↔
        ∃ point ∈ program.turns limit calls {}, program.Inside limit point moment.point) ∧
      (∀ earlier moment later name value, moments = earlier ++ moment :: later →
        program.Resolves limit name value moment →
        (∀ other ∈ moment :: later,
          (program.stateAt limit other).cache.lookup name = some ⟨value, value.depth⟩ ∧
            name ∉ (program.stateAt limit other).active) ∧
        (∀ st, .asked (.constant name) st ∈ later →
          program.parts limit (.constant name) st = [] ∧
          (program.answer limit (.constant name) st).1 =
            (if st.depth + value.depth ≤ limit then some value else none) ∧
          let stats := (program.answer limit (.constant name) st).2.stats
          stats.cacheHits = st.stats.cacheHits + 1 ∧ stats.evaluations = st.stats.evaluations ∧
            stats.cyclesBroken = st.stats.cyclesBroken) ∧
        (program.calls limit calls {}).2.cache.lookup name = some ⟨value, value.depth⟩) ∧
      ∀ name, moments.Pairwise fun moment later => ∀ value value',
        program.Resolves limit name value moment →
          ¬ program.Resolves limit name value' later := by
  refine ⟨program.exists_course limit _, fun moments course => ?_⟩
  have hfresh := Consistent.fresh program
  have consistent := turns_consistent limit calls hfresh
  obtain ⟨inTurn, hcalls⟩ := turns_inTurn limit calls hfresh
  refine ⟨fun moment => course.mem_iff, ?_, course.resolves_once consistent inTurn⟩
  rintro earlier moment later name value rfl hresolves
  have hkeeps := course.keeps consistent inTurn
  have hlater := (List.pairwise_cons.mp (List.pairwise_append.mp hkeeps).2.1).1
  have hcached : ∀ other ∈ moment :: later,
      (program.stateAt limit other).cache.lookup name = some ⟨value, value.depth⟩ := by
    refine List.forall_mem_cons.mpr ⟨hresolves.hit, fun other hother => ?_⟩
    exact hlater other hother name _ hresolves.hit
  refine ⟨fun other hother => ⟨hcached other hother, fun marked => ?_⟩, fun st hst => ?_, ?_⟩
  · have hbefore := course.consistent consistent other (List.mem_append_right _ hother)
    have hconsistent : program.Consistent (program.stateAt limit other) := by
      cases other with
      | asked query st => exact hbefore
      | answered query st => exact (program.evaluates_answer limit query st).consistent hbefore
    have hnone := hconsistent.apart name marked
    rw [hcached other hother] at hnone
    cases hnone
  · have hit : st.cache.lookup name = some ⟨value, value.depth⟩ :=
      hcached _ (List.mem_cons_of_mem _ hst)
    refine ⟨parts_of_unopened ?_, answer_of_hit hit⟩
    rw [opened?, if_neg (by simp [hit])]
  · exact course.keeps_to consistent hcalls moment (by simp) name _ hresolves.hit

/-- A constant of a circle gets its value inside the other one, without what the circle would
have brought. Where it is asked for two levels down later, the value is withheld, and it stays
in the cache. -/
theorem first_value_final_constantCycle :
    let program := Samples.constantCycle
    let calls : List Call :=
      [.constant "ping", .literal (.array [.array [.constant "pong"]])]
    let value : Value := .object [("pong", .bool true)]
    ∃ earlier moment later st,
      program.Course 3 (program.turns 3 calls {}) (earlier ++ moment :: later) ∧
      program.Resolves 3 "pong" value moment ∧ .asked (.constant "pong") st ∈ later ∧
      (program.answer 3 (.constant "pong") st).1 = none ∧
      (program.calls 3 calls {}).2.cache.lookup "pong" = some ⟨value, 2⟩ := by
  intro program calls value
  obtain ⟨⟨moments, course⟩, hfinal⟩ := first_value_final program 3 calls
  obtain ⟨-, hfirst, -⟩ := hfinal moments course
  cases course with
  | @cons _ _ _ inner others inside after =>
      let first : Resolver := (({} : Resolver).start "ping").deeper
      let last := (program.call 3 (.constant "ping") {}).2.deeper.deeper
      have hinner : .answered (.constant "pong") first ∈ inner := by
        refine inside.mem_iff.mpr ⟨_, List.mem_singleton_self _, ?_⟩
        refine .head (.body rfl rfl ?_ rfl) (.head (.entries ?_) (.head (.source rfl) .refl))
        all_goals decide +kernel
      have hlater : .asked (.constant "pong") last ∈ others := by
        refine after.mem_iff.mpr ⟨_, List.mem_singleton_self _, ?_⟩
        refine .head (.elements ?_) (.head .element (.head (.elements ?_) (.head .element
          (.head (.target rfl) .refl))))
        all_goals decide +kernel
      obtain ⟨earlier, rest, rfl⟩ := List.append_of_mem hinner
      have hresolves : program.Resolves 3 "pong" value (.answered (.constant "pong") first) := by
        exact ⟨first, _, rfl, rfl, by cbv⟩
      let start : Moment := .asked (.literal (.constant "ping")) {}
      let stop : Moment := .answered (.literal (.constant "ping")) {}
      have hlast : .asked (.constant "pong") last ∈ rest ++ stop :: others :=
        List.mem_append_right _ (List.mem_cons_of_mem _ hlater)
      have hsplit : start :: ((earlier ++ .answered (.constant "pong") first :: rest) ++
          stop :: others) = (start :: earlier) ++ .answered (.constant "pong") first ::
            (rest ++ stop :: others) := by simp
      obtain ⟨-, hlookup, hcalls⟩ := hfirst _ _ _ "pong" value hsplit hresolves
      refine ⟨start :: earlier, _, rest ++ stop :: others, last, ?_, hresolves, hlast, ?_, hcalls⟩
      · rw [← hsplit]
        exact .cons inside after
      · rw [(hlookup last hlast).2.1]
        exact if_neg (by decide +kernel)

end Program

end SchemaIR
