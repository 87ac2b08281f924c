import Mathlib
import SchemaIR.Proofs.Memoization

/-!
# Circles are found, and nothing else is taken for one

Evaluation breaks a circle where it meets a constant that it is evaluating. Such a constant
reaches itself, so a count above zero means that there is a circle. The converse is less
plain, since a search that keeps what it found may pass a circle by: a cached constant is
not opened again, and one that came out empty is evaluated anew wherever it is met.

What decides it is where references end. If a constant is evaluated and no circle is broken
in it and nothing cut, then every reference in its literal was followed to its end. So the
constants that are answered are grounded: no chain of references that starts from them goes
on for ever. Lowering asks for every declared constant, and where all of them are grounded
there is no circle.
-/

namespace SchemaIR

namespace Program

/-- A constant refers to a declared constant, or spreads it. -/
def Edge (program : Program) (name target : String) : Prop :=
  program.Refers name target ∧ program.consts.contains target

/-- The references from a constant end, whichever of them are followed. -/
def Grounded (program : Program) (name : String) : Prop :=
  Acc (fun target name => program.Refers name target) name

variable {program : Program} {name target : String}

theorem Refers.declared (h : program.Refers name target) : program.consts.contains name := by
  obtain ⟨literal, hbody, _⟩ := h
  obtain ⟨decl, found, _⟩ := Option.bind_eq_some_iff.mp hbody
  exact Option.isSome_of_eq_some found

/-- Every constant on the way refers to the next one, and so it is declared. -/
theorem edges_of_refers (path : Relation.TransGen program.Refers name target)
    (declared : program.consts.contains target) :
    Relation.TransGen program.Edge name target := by
  induction path with
  | single refers => exact .single ⟨refers, declared⟩
  | tail _ refers ih => exact (ih refers.declared).tail ⟨refers, declared⟩

/-- A circle of references is one of declared constants. -/
theorem circle_iff_not_acyclic :
    (∃ name, Relation.TransGen program.Edge name name) ↔ ¬ program.Acyclic := by
  constructor
  · rintro ⟨name, circle⟩ acyclic
    have forget : program.Edge ≤ program.Refers := fun _ _ edge => edge.1
    exact acyclic name (Relation.TransGen.mono forget name name circle)
  · intro cyclic
    obtain ⟨name, circle⟩ := not_forall_not.mp cyclic
    obtain ⟨_, refers, _⟩ := Relation.TransGen.head'_iff.mp circle
    exact ⟨name, edges_of_refers circle refers.declared⟩

theorem grounded_of_no_body (h : program.body? name = none) : program.Grounded name := by
  refine ⟨name, fun target refers => ?_⟩
  obtain ⟨literal, hbody, _⟩ := refers
  rw [h] at hbody
  cases hbody

theorem grounded_of_body {literal : Literal} (h : program.body? name = some literal)
    (targets : ∀ target ∈ literal.targets, program.Grounded target) :
    program.Grounded name := by
  refine ⟨name, fun target refers => ?_⟩
  obtain ⟨other, hbody, htarget⟩ := refers
  rw [h] at hbody
  cases hbody
  exact targets target htarget

/-- A grounded constant is on no circle: the next one on it would be on it too. -/
theorem Grounded.no_circle (h : program.Grounded name) :
    ¬ Relation.TransGen program.Refers name name := by
  induction h with
  | intro name _ ih =>
      intro circle
      obtain ⟨target, refers, back⟩ := Relation.TransGen.head'_iff.mp circle
      exact ih target refers (Relation.TransGen.tail' back refers)

theorem acyclic_of_grounded
    (h : ∀ name, program.consts.contains name → program.Grounded name) :
    program.Acyclic := by
  intro name circle
  obtain ⟨_, refers, _⟩ := Relation.TransGen.head'_iff.mp circle
  exact (h name refers.declared).no_circle circle

end Program

/-! ## What an intact evaluation leaves behind -/

namespace Resolver

/-- Nothing was cut and no circle was broken so far. -/
def Intact (st : Resolver) : Prop :=
  st.stats.depthExceeded = 0 ∧ st.stats.cyclesBroken = 0

/-- Every cached constant is grounded. -/
def Grounded (program : Program) (st : Resolver) : Prop :=
  ∀ name known, st.cache.lookup name = some known → program.Grounded name

theorem Grounded.conclude {program : Program} {st : Resolver} {name : String}
    (h : st.Grounded program) (grounded : program.Grounded name) (value? : Option Value) :
    (st.conclude name value?).Grounded program := by
  cases value? with
  | none => exact h
  | some value =>
      intro other known hlookup
      simp only [conclude_cache_some, List.lookup_cons] at hlookup
      split at hlookup
      · next hname => exact beq_iff_eq.mp hname ▸ grounded
      · exact h other known hlookup

end Resolver

namespace Evaluates

variable {program : Program} {limit : Nat} {query : Query} {st st' : Resolver}
  {answer : query.Answer}

/-- A broken circle stays counted. -/
theorem cycles_le (run : Evaluates program limit query st answer st') :
    st.stats.cyclesBroken ≤ st'.stats.cyclesBroken := by
  induction run with
  | cached | withheld | undeclared | circular | valueless | member | tooDeep | scalar
  | noElements | noEntries => simp
  | visited _ _ _ _ _ ih => simpa using ih
  | reference _ _ ih | memberSpread _ _ ih => exact ih
  | object _ _ ih | array _ _ ih => simpa using ih
  | element _ _ ih₁ ih₂ | field _ _ ih₁ ih₂ => exact Nat.le_trans ih₁ ih₂
  | spread _ _ _ ih₁ ih₂ => exact Nat.le_trans ih₁ ih₂

/-- What is intact in the end was intact before. -/
theorem intact (run : Evaluates program limit query st answer st') (h : st'.Intact) :
    st.Intact := by
  have hcuts := run.cuts_le
  have hcycles := run.cycles_le
  obtain ⟨huncut, hunbroken⟩ := h
  exact ⟨by omega, by omega⟩

/-- An intact evaluation follows every reference of its query to the end. -/
theorem grounded (run : Evaluates program limit query st answer st')
    (h : st.Grounded program) (intact : st'.Intact) :
    (∀ target ∈ query.targets, program.Grounded target) ∧ st'.Grounded program := by
  induction run with
  | cached hit fits =>
      refine ⟨fun target htarget => ?_, h⟩
      rw [List.mem_singleton.mp htarget]
      exact h _ _ hit
  | withheld | tooDeep => exact absurd intact.1 (Nat.succ_ne_zero _)
  | circular => exact absurd intact.2 (Nat.succ_ne_zero _)
  | undeclared miss absent =>
      refine ⟨fun target htarget => ?_, h⟩
      rw [List.mem_singleton.mp htarget]
      exact Program.grounded_of_no_body (by rw [Program.body?, absent]; rfl)
  | valueless miss found idle bare =>
      refine ⟨fun target htarget => ?_, h⟩
      rw [List.mem_singleton.mp htarget]
      exact Program.grounded_of_no_body ((Program.body?_of_find? found).trans bare)
  | visited miss found idle body _ ih =>
      -- The literal of the constant is all that it refers to.
      obtain ⟨htargets, hcache⟩ := ih h (by simpa [Resolver.Intact] using intact)
      have hname := Program.grounded_of_body
        ((Program.body?_of_find? found).trans body) htargets
      refine ⟨fun target htarget => ?_, hcache.conclude hname _⟩
      rw [List.mem_singleton.mp htarget]
      exact hname
  | reference plain _ ih =>
      obtain ⟨htargets, hcache⟩ := ih h intact
      refine ⟨fun target htarget => htargets target ?_, hcache⟩
      simpa [Query.targets, Literal.targets, Reference.targets, plain] using htarget
  | member named =>
      refine ⟨fun target htarget => ?_, h⟩
      simp [Query.targets, Literal.targets, Reference.targets, named] at htarget
  | @scalar literal _ _ _ _ plain =>
      refine ⟨fun target htarget => ?_, h⟩
      cases literal with
      | reference | object | array => cases plain
      | string | int | float | bool => cases htarget
  | object _ _ ih | array _ _ ih => exact ih h intact
  | noElements | noEntries =>
      refine ⟨fun target htarget => ?_, h⟩
      cases htarget
  | element _ more ih₁ ih₂ | field _ more ih₁ ih₂ =>
      obtain ⟨hfirst, hcache⟩ := ih₁ h (more.intact intact)
      obtain ⟨hmore, hcache⟩ := ih₂ hcache intact
      refine ⟨fun target htarget => ?_, hcache⟩
      rcases List.mem_append.mp htarget with htarget | htarget
      · exact hfirst target htarget
      · exact hmore target htarget
  | @spread source _ _ _ _ _ _ plain _ more ih₁ ih₂ =>
      obtain ⟨hfirst, hcache⟩ := ih₁ h (more.intact intact)
      obtain ⟨hmore, hcache⟩ := ih₂ hcache intact
      refine ⟨fun target htarget => ?_, hcache⟩
      rcases List.mem_append.mp htarget with htarget | htarget
      · exact hfirst target (by simpa [Query.targets, Reference.targets, plain] using htarget)
      · exact hmore target htarget
  | @memberSpread source _ _ _ _ named more ih =>
      obtain ⟨hmore, hcache⟩ := ih h intact
      refine ⟨fun target htarget => ?_, hcache⟩
      obtain ⟨member, hmember⟩ := Option.isSome_iff_exists.mp named
      rcases List.mem_append.mp htarget with htarget | htarget
      · simp [Reference.targets, hmember] at htarget
      · exact hmore target htarget

end Evaluates

/-! ## Runs -/

namespace Program

variable {program : Program} {limit : Nat} {st st' : Resolver}

theorem Later.intact (later : program.Later limit st st') (h : st'.Intact) : st.Intact := by
  induction later with
  | refl => exact h
  | tail _ move ih =>
      cases move with
      | report => exact ih h
      | call call => exact ih ((program.evaluates_call limit call _).intact h)

/-- As long as a run is intact, all that it cached is grounded. -/
theorem Later.grounded (later : program.Later limit {} st) (intact : st.Intact) :
    st.Grounded program := by
  induction later with
  | refl => exact fun _ _ h => nomatch h
  | @tail mid _ _ move ih =>
      cases move with
      | report => exact ih intact
      | call call =>
          have run := program.evaluates_call limit call mid
          exact (run.grounded (ih (run.intact intact)) intact).2

/-- A constant that was asked for on an intact run is grounded. -/
theorem Assigns.grounded {constant : ConstantDef}
    (h : program.Assigns limit constant {} st) (intact : st.Intact) :
    program.Grounded constant.name := by
  obtain ⟨call, mid, hbefore, ⟨rfl, _⟩, hafter⟩ := h
  have run := program.evaluates_call limit (.constant constant.name) mid
  have hintact := hafter.intact intact
  have hcache := hbefore.grounded (run.intact hintact)
  exact (run.grounded hcache hintact).1 _ (List.mem_singleton.mpr rfl)

theorem Later.unbroken (acyclic : program.Acyclic) (later : program.Later limit {} st) :
    st.stats.cyclesBroken = 0 := by
  induction later with
  | refl => rfl
  | tail before move ih =>
      cases move with
      | report => exact ih
      | call call =>
          obtain ⟨idle, faithful⟩ := Later.faithful acyclic before
          exact (call_met acyclic call idle faithful).cycles.trans ih

/-- Where constants are declared under their own names and nothing is cut, lowering breaks
circles if and only if constants refer to each other in a circle. -/
theorem cyclesBroken_pos_iff_circle (program : Program) (limit : Nat)
    (keyed : ∀ key decl, program.consts.find? key = some decl → decl.name = key)
    (uncut : (program.lower limit).stats.depthExceeded = 0) :
    0 < (program.lower limit).stats.cyclesBroken ↔
      ∃ name, Relation.TransGen program.Edge name name := by
  let final := (program.lowerAll limit {}).2
  obtain ⟨hvisited, hassigns⟩ := lowerAll_visited program limit {}
  rw [circle_iff_not_acyclic]
  constructor
  · intro hbroken acyclic
    have hnone : final.resolver.stats.cyclesBroken = 0 := hvisited.later.unbroken acyclic
    exact absurd hnone (Nat.ne_of_gt hbroken)
  · intro cyclic
    by_contra hunbroken
    have hcuts : final.resolver.stats.depthExceeded + final.truncated = 0 := uncut
    have hcycles : ¬ 0 < final.resolver.stats.cyclesBroken := hunbroken
    have intact : final.resolver.Intact := ⟨by omega, by omega⟩
    refine cyclic (acyclic_of_grounded fun name declared => ?_)
    obtain ⟨decl, found⟩ := Option.isSome_iff_exists.mp declared
    obtain ⟨constant, hconstant, hname⟩ :
        ∃ constant ∈ (program.lower limit).schema.constants, constant.name = decl.name :=
      exists_lowered found
    have hgrounded := (hassigns constant hconstant).grounded intact
    rwa [hname, keyed name decl found] at hgrounded

/-- Two constants that contain each other. The annotation of the type meets the second
first. -/
def annotatedCircle : Program :=
  ({} : Program).declareType
      ((TypeDecl.called "T").annotated { name := "uses", argument := some (.constant "pong") })
    |>.declareConst (.called "ping" (.array [.constant "pong"]))
    |>.declareConst (.called "pong" (.object [.spreading "ping"]))

theorem cyclesBroken_pos_iff_circle_annotatedCircle :
    (annotatedCircle.lower 3).stats.depthExceeded = 0 ∧
      0 < (annotatedCircle.lower 3).stats.cyclesBroken ∧
      ∃ name, Relation.TransGen annotatedCircle.Edge name name := by
  have keyed : ∀ entry ∈ annotatedCircle.consts.entries, entry.2.name = entry.1 := by decide
  have uncut : (annotatedCircle.lower 3).stats.depthExceeded = 0 := by cbv
  have hbroken : 0 < (annotatedCircle.lower 3).stats.cyclesBroken := by cbv
  have hiff := cyclesBroken_pos_iff_circle annotatedCircle 3
    (fun _ _ found => keyed _ (Table.mem_of_find? found)) uncut
  exact ⟨uncut, hbroken, hiff.mp hbroken⟩

end Program

end SchemaIR
