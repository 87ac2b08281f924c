import SchemaIR.Proofs.Members
import SchemaIR.Proofs.Visits

/-!
# Evaluation under a higher limit

Evaluation compares its depth with the limit in two places, where it opens a literal and
where it reuses a cached value, and in both it counts and reports what it gives up. The
third way in which a limit shows is the members of an enumeration, which are expanded under
the same limit but not counted. So the rules that were applied in an evaluation that counted
nothing can all be applied under a higher limit, if that limit makes no difference to the
members.
-/

namespace SchemaIR

/-! ## Cuts and their count -/

namespace Log

/-- The second log goes on from the first one, and the count beside it has grown by the
cuts that are reported in between. -/
def Tallies (log : Log) (count : Nat) (log' : Log) (count' : Nat) : Prop :=
  ∃ cuts, Log.Grows log log' cuts ∧ count' = count + cuts

variable {log log' log'' : Log} {count count' count'' : Nat} {event : Event}

theorem Tallies.refl (log : Log) (count : Nat) : log.Tallies count log count :=
  ⟨0, .refl _, rfl⟩

theorem Tallies.trans (h : log.Tallies count log' count')
    (h' : log'.Tallies count' log'' count'') : log.Tallies count log'' count'' := by
  obtain ⟨m, hgrows, hcount⟩ := h
  obtain ⟨n, hgrows', hcount'⟩ := h'
  exact ⟨m + n, hgrows.trans hgrows', by omega⟩

theorem Tallies.append (log : Log) (count : Nat) {events : Log} (quiet : events.cuts = 0) :
    log.Tallies count (log ++ events) count :=
  ⟨0, .append _ quiet, rfl⟩

theorem Tallies.quiet (log : Log) (count : Nat) (uncut : event.isCut = false) :
    log.Tallies count (log.push event) count :=
  ⟨0, .quiet _ uncut, rfl⟩

theorem Tallies.cut (log : Log) (count : Nat) (cut : event.isCut = true) :
    log.Tallies count (log.push event) (count + 1) :=
  ⟨1, .cut _ cut, rfl⟩

theorem Tallies.le (h : log.Tallies count log' count') : count ≤ count' := by
  obtain ⟨cuts, _, hcount⟩ := h
  omega

theorem Tallies.add (h : log.Tallies count log' count') (more : Nat) :
    log.Tallies (count + more) log' (count' + more) := by
  obtain ⟨cuts, hgrows, hcount⟩ := h
  exact ⟨cuts, hgrows, by omega⟩

theorem Tallies.whole (h : log.Tallies count log' count') (whole : log'.Whole) : log.Whole := by
  obtain ⟨_, hgrows, _⟩ := h
  exact hgrows.whole whole

end Log

/-- What was cut between two states of an evaluation is reported, and it is counted. -/
def Resolver.Tallies (st st' : Resolver) : Prop :=
  st.log.Tallies st.stats.depthExceeded st'.log st'.stats.depthExceeded

theorem Resolver.Tallies.conclude (st : Resolver) (name : String) (value? : Option Value) :
    st.Tallies (st.conclude name value?) := by
  cases value? with
  | none => exact .quiet _ _ rfl
  | some value => exact .quiet _ _ rfl

/-! ## Evaluation -/

theorem Literal.scalar?_quiet {literal : Literal} {value? : Option Value} {events : Log}
    (plain : literal.scalar? = some (value?, events)) : events.cuts = 0 := by
  cases literal with
  | reference | object | array => cases plain
  | string | bool => cases plain; exact Log.cuts_empty
  | int raw =>
      simp only [Literal.scalar?, Option.some.injEq] at plain
      split at plain <;> cases plain
      · exact Log.cuts_empty
      · exact Log.cuts_singleton _
  | float raw =>
      simp only [Literal.scalar?, Option.some.injEq] at plain
      split at plain
      · split at plain <;> cases plain
        · exact Log.cuts_empty
        · exact Log.cuts_singleton _
      · cases plain
        exact Log.cuts_singleton _

theorem spreadEvents_quiet (name : String) (value? : Option Value) :
    (spreadEvents name value?).cuts = 0 := by
  cases value? with
  | none => exact Log.cuts_singleton _
  | some value =>
      cases value with
      | object => exact Log.cuts_empty
      | string | int | float | bool | array => exact Log.cuts_singleton _

namespace Program

theorem memberEvents_quiet (program : Program) (limit : Nat) (enum : String) :
    (program.memberEvents limit enum).cuts = 0 := by
  unfold memberEvents
  cases program.enums.find? enum with
  | none => exact Log.cuts_empty
  | some decl => exact program.enumMembers_uncut limit decl

/-- The two limits make no difference to the members of any declared enumeration. -/
def SameMembers (program : Program) (limit higher : Nat) : Prop :=
  ∀ key decl, program.enums.find? key = some decl →
    program.enumMembers higher decl = program.enumMembers limit decl

theorem SameMembers.value_eq {program : Program} {limit higher : Nat}
    (members : program.SameMembers limit higher) (enum member : String) :
    program.memberValue? higher enum member = program.memberValue? limit enum member := by
  unfold memberValue?
  cases found : program.enums.find? enum with
  | none => rw [Option.bind_none, Option.bind_none]
  | some decl => rw [Option.bind_some, Option.bind_some, members enum decl found]

theorem SameMembers.events_eq {program : Program} {limit higher : Nat}
    (members : program.SameMembers limit higher) (enum : String) :
    program.memberEvents higher enum = program.memberEvents limit enum := by
  unfold memberEvents
  cases found : program.enums.find? enum with
  | none => simp only
  | some decl => simp only [members enum decl found]

end Program

namespace Evaluates

variable {program : Program} {limit higher : Nat} {query : Query} {st st' : Resolver}
  {answer : query.Answer}

theorem tallies (run : Evaluates program limit query st answer st') : st.Tallies st' := by
  induction run with
  | cached | circular => exact .quiet _ _ rfl
  | withheld => exact (Log.Tallies.quiet _ _ rfl).trans (.cut _ _ rfl)
  | undeclared | valueless | noElements | noEntries => exact .refl _ _
  | visited _ _ _ _ _ ih => exact ih.trans (Resolver.Tallies.conclude _ _ _)
  | member => exact .append _ _ (program.memberEvents_quiet limit _)
  | tooDeep => exact .cut _ _ rfl
  | scalar _ plain => exact .append _ _ (Literal.scalar?_quiet plain)
  | reference _ _ ih | memberSpread _ _ ih => exact ih
  | object _ _ ih | array _ _ ih => exact ih
  | element _ _ ih₁ ih₂ | field _ _ ih₁ ih₂ => exact ih₁.trans ih₂
  | spread _ _ _ ih₁ ih₂ =>
      exact (ih₁.trans (.append _ _ (spreadEvents_quiet _ _))).trans ih₂

/-- Every rule applies under the higher limit as well, unless it is one that cuts. -/
theorem raise (run : Evaluates program limit query st answer st') (raise : limit ≤ higher)
    (members : program.SameMembers limit higher)
    (uncut : st'.stats.depthExceeded = st.stats.depthExceeded) :
    Evaluates program higher query st answer st' := by
  induction run with
  | cached hit fits => exact .cached hit (Nat.le_trans fits raise)
  | withheld | tooDeep => exact absurd uncut (Nat.succ_ne_self _)
  | undeclared miss absent => exact .undeclared miss absent
  | circular miss found busy => exact .circular miss found busy
  | valueless miss found idle bare => exact .valueless miss found idle bare
  | visited miss found idle body _ ih =>
      exact .visited miss found idle body (ih (by simpa using uncut))
  | reference plain _ ih => exact .reference plain (ih uncut)
  | member named =>
      rw [← members.value_eq, ← members.events_eq]
      exact .member named
  | scalar room plain => exact .scalar (Nat.lt_of_lt_of_le room raise) plain
  | object room _ ih => exact .object (Nat.lt_of_lt_of_le room raise) (ih uncut)
  | array room _ ih => exact .array (Nat.lt_of_lt_of_le room raise) (ih uncut)
  | noElements => exact .noElements
  | noEntries => exact .noEntries
  | element first more ih₁ ih₂ =>
      -- The counter never falls, so neither part has cut anything.
      have hfirst := first.cuts_le
      have hmore := more.cuts_le
      exact .element (ih₁ (by omega)) (ih₂ (by omega))
  | field first more ih₁ ih₂ =>
      have hfirst := first.cuts_le
      have hmore := more.cuts_le
      exact .field (ih₁ (by omega)) (ih₂ (by omega))
  | spread plain first more ih₁ ih₂ =>
      have hfirst := first.cuts_le
      have hmore := more.cuts_le
      simp only [Resolver.report_fields] at hmore ih₂
      exact .spread plain (ih₁ (by omega)) (ih₂ (by omega))
  | memberSpread named _ ih => exact .memberSpread named (ih uncut)

end Evaluates

end SchemaIR
