import Mathlib.Data.List.Forall2
import SchemaIR.Program.Samples
import SchemaIR.Proofs.Meaning
import SchemaIR.Proofs.Runs

/-!
# Evaluation is faithful to the meaning

Where no constant reaches itself, the evaluator computes what literals and constants
mean, except for what it cuts because it nests too deep. The state carries the argument
in two parts. Each cached value is the meaning of its constant with parts left out, and
it is the whole meaning as long as nothing was ever cut: this survives whatever nesting a
constant is first met at, and whatever is asked in between. And each constant being
evaluated reaches all that is still to be looked up, so that none of these can be met
again without closing a circle.
-/

namespace SchemaIR

/-! ## Values with parts left out -/

mutual

/-- The first value is the second one with elements and entries left out of it, at any
depth. -/
inductive Value.Pruned : Value → Value → Prop where
  | refl (value : Value) : Value.Pruned value value
  | array {items whole : List Value} (h : List.SublistForall₂ Value.Pruned items whole) :
      Value.Pruned (.array items) (.array whole)
  | object {entries whole : List (String × Value)}
      (h : List.SublistForall₂ EntryPruned entries whole) :
      Value.Pruned (.object entries) (.object whole)

/-- An entry with parts left out of its value. -/
inductive EntryPruned : String × Value → String × Value → Prop where
  | mk {key : String} {value whole : Value} (h : Value.Pruned value whole) :
      EntryPruned (key, value) (key, whole)

end

/-- A value that may be missing altogether. -/
def OptionPruned (value? whole? : Option Value) : Prop :=
  ∀ value, value? = some value → ∃ whole, whole? = some whole ∧ value.Pruned whole

theorem OptionPruned.none (whole? : Option Value) : OptionPruned none whole? :=
  fun _ h => nomatch h

theorem OptionPruned.some {value whole : Value} (h : value.Pruned whole) :
    OptionPruned (some value) (some whole) := by
  rintro _ ⟨⟩
  exact ⟨whole, rfl, h⟩

theorem OptionPruned.refl (value? : Option Value) : OptionPruned value? value? :=
  fun value h => ⟨value, h, .refl value⟩

theorem sublistForall₂_append {α β : Type} {R : α → β → Prop} {as as' : List α}
    {bs bs' : List β} (h : List.SublistForall₂ R as bs)
    (h' : List.SublistForall₂ R as' bs') :
    List.SublistForall₂ R (as ++ as') (bs ++ bs') := by
  obtain ⟨cs, hcs, hsub⟩ := List.sublistForall₂_iff.mp h
  obtain ⟨cs', hcs', hsub'⟩ := List.sublistForall₂_iff.mp h'
  exact List.sublistForall₂_iff.mpr
    ⟨cs ++ cs', List.rel_append hcs hcs', hsub.append hsub'⟩

theorem OptionPruned.toList {value? whole? : Option Value}
    (h : OptionPruned value? whole?) :
    List.SublistForall₂ Value.Pruned value?.toList whole?.toList := by
  cases value? with
  | none => exact .nil
  | some value =>
      obtain ⟨whole, rfl, hpruned⟩ := h value rfl
      exact .cons hpruned .nil

theorem OptionPruned.field {value? whole? : Option Value} (key : String)
    (h : OptionPruned value? whole?) :
    List.SublistForall₂ EntryPruned (value?.toList.map (key, ·))
      (whole?.toList.map (key, ·)) := by
  cases value? with
  | none => exact .nil
  | some value =>
      obtain ⟨whole, rfl, hpruned⟩ := h value rfl
      exact .cons (.mk hpruned) .nil

/-- A spread of what is left of an object is what is left of the spread. -/
theorem OptionPruned.spreadEntries {value? whole? : Option Value}
    (h : OptionPruned value? whole?) :
    List.SublistForall₂ EntryPruned (spreadEntries value?) (spreadEntries whole?) := by
  cases value? with
  | none => exact .nil
  | some value =>
      obtain ⟨whole, rfl, hpruned⟩ := h value rfl
      cases hpruned with
      | array _ => exact .nil
      | object hentries => exact hentries
      | refl =>
          have : Std.Refl EntryPruned := ⟨fun entry => .mk (.refl entry.2)⟩
          exact List.sublistForall₂_iff.mpr ⟨_, List.forall₂_refl _, .refl _⟩

/-! ## The meaning of a query -/

/-- What the answer to a query should be. -/
def Query.denote (names : Names) : (query : Query) → query.Answer
  | .constant name => names.constant name
  | .literal term => term.denote names
  | .elements terms => denoteElements names terms
  | .entries parts => denoteEntries names parts

/-- One answer to a query is another one with parts left out. -/
def Query.Pruned : (query : Query) → query.Answer → query.Answer → Prop
  | .constant _ => OptionPruned
  | .literal _ => OptionPruned
  | .elements _ => List.SublistForall₂ Value.Pruned
  | .entries _ => List.SublistForall₂ EntryPruned

/-- The constants that a query looks up. -/
def Query.targets : Query → List String
  | .constant name => [name]
  | .literal term => term.targets
  | .elements terms => elementsTargets terms
  | .entries parts => entriesTargets parts

theorem Literal.denote_scalar {literal : Literal} {value? : Option Value} {events : Log}
    (names : Names) (plain : literal.scalar? = some (value?, events)) :
    literal.denote names = value? := by
  cases literal with
  | reference | object | array => cases plain
  | string | bool => cases plain; rfl
  | int raw =>
      simp only [Literal.scalar?, Option.some.injEq] at plain
      rw [Literal.denote]
      split at plain <;> cases plain <;> simp_all [Except.toOption]
  | float raw =>
      simp only [Literal.scalar?, Option.some.injEq] at plain
      rw [Literal.denote]
      split at plain
      · next x hx => split at plain <;> cases plain <;> simp_all [Except.toOption]
      · next fault hx => cases plain; simp [hx, Except.toOption]

/-! ## The invariant -/

/-- The cache holds what constants mean, whole as long as nothing was cut. -/
structure Resolver.Faithful (names : Names) (st : Resolver) : Prop where
  pruned : ∀ name known, st.cache.lookup name = some known →
    OptionPruned (some known.value) (names.constant name)
  exact : st.stats.depthExceeded = 0 → ∀ name known,
    st.cache.lookup name = some known → names.constant name = some known.value

/-- Every constant being evaluated reaches every one of `targets`. -/
def Resolver.Above (program : Program) (st : Resolver) (targets : List String) : Prop :=
  ∀ open_ ∈ st.active, ∀ target ∈ targets,
    Relation.TransGen program.Refers open_ target

namespace Resolver

variable {names : Names} {st st' : Resolver}

theorem Faithful.fresh (names : Names) : Faithful names {} := by
  constructor
  · intro _ _ h
    cases h
  · intro _ _ _ h
    cases h

/-- Nothing but the cache and the count of cuts matters, and the count may grow. -/
theorem Faithful.mono (h : st.Faithful names) (hcache : st'.cache = st.cache)
    (hcuts : st.stats.depthExceeded ≤ st'.stats.depthExceeded) : st'.Faithful names := by
  constructor
  · rw [hcache]
    exact h.pruned
  · intro hzero
    rw [hcache]
    exact h.exact (by omega)

/-- A new value is kept. -/
theorem Faithful.conclude {name : String} {value? : Option Value}
    (h : st.Faithful names) (hpruned : OptionPruned value? (names.constant name))
    (hexact : st.stats.depthExceeded = 0 → value? = names.constant name) :
    (st.conclude name value?).Faithful names := by
  cases value? with
  | none => exact h.mono rfl (Nat.le_refl _)
  | some value =>
      constructor
      · intro other known hlookup
        simp only [conclude_cache_some, List.lookup_cons] at hlookup
        split at hlookup
        · next hname =>
            cases hlookup
            rw [beq_iff_eq.mp hname]
            exact hpruned
        · exact h.pruned other known hlookup
      · intro hzero other known hlookup
        simp only [conclude_fields] at hzero
        simp only [conclude_cache_some, List.lookup_cons] at hlookup
        split at hlookup
        · next hname =>
            cases hlookup
            rw [beq_iff_eq.mp hname]
            exact (hexact hzero).symm
        · exact h.exact hzero other known hlookup

end Resolver

/-! ## The induction -/

/-- What an evaluation of `query` from `st` to `st'` owes its caller. -/
structure Query.Met (names : Names) (query : Query) (st : Resolver)
    (answer : query.Answer) (st' : Resolver) : Prop where
  pruned : query.Pruned answer (query.denote names)
  exact : st'.stats.depthExceeded = 0 → answer = query.denote names
  faithful : st'.Faithful names
  cycles : st'.stats.cyclesBroken = st.stats.cyclesBroken

namespace Resolver

variable {program : Program} {st st' : Resolver} {some others : List String}

theorem Above.left (h : st.Above program (some ++ others)) : st.Above program some :=
  fun name hname target htarget => h name hname target (List.mem_append_left _ htarget)

theorem Above.right (h : st.Above program (some ++ others))
    (hactive : st'.active = st.active) : st'.Above program others := by
  intro name hname target htarget
  exact h name (hactive ▸ hname) target (List.mem_append_right _ htarget)

/-- Opening a constant puts it above all that its literal refers to. -/
theorem Above.start {name : String} {literal : Literal}
    (h : st.Above program [name]) (body : program.body? name = Option.some literal) :
    (st.start name).Above program literal.targets := by
  intro other hother target htarget
  have hedge : program.Refers name target := ⟨literal, body, htarget⟩
  rcases List.mem_cons.mp hother with rfl | hother
  · exact .single hedge
  · exact (h other hother name (List.mem_singleton.mpr rfl)).tail hedge

end Resolver

namespace Evaluates

variable {program : Program} {limit : Nat} {query : Query} {st st' : Resolver}
  {answer : query.Answer}

theorem met (acyclic : program.Acyclic)
    (run : Evaluates program limit query st answer st')
    (faithful : st.Faithful (program.names limit acyclic))
    (above : st.Above program query.targets) :
    query.Met (program.names limit acyclic) st answer st' := by
  induction run with
  | @cached name st known hit fits =>
      exact ⟨faithful.pruned name known hit,
        fun hzero => (faithful.exact hzero name known hit).symm,
        faithful.mono rfl (Nat.le_refl _), rfl⟩
  | withheld hit deep =>
      exact ⟨.none _, fun hzero => absurd hzero (Nat.succ_ne_zero _),
        faithful.mono rfl (Nat.le_succ _), rfl⟩
  | @undeclared name st miss absent =>
      have hnone := program.meaning_eq limit acyclic name
      rw [Program.body?, absent] at hnone
      exact ⟨.none _, fun _ => hnone.symm, faithful, rfl⟩
  | @circular name st decl miss found busy =>
      -- An open constant reaches what is looked up, and here that is the constant itself.
      have hcircle := above name busy name (List.mem_singleton.mpr rfl)
      exact absurd hcircle (acyclic name)
  | @valueless name st decl miss found idle bare =>
      have hnone := program.meaning_eq limit acyclic name
      rw [Program.body?_of_find? found, bare] at hnone
      exact ⟨.none _, fun _ => hnone.symm, faithful, rfl⟩
  | @visited name st st' decl literal value? miss found idle body _ ih =>
      -- The depth at which the constant is met plays no part: what is owed for its literal
      -- is owed in every state with a faithful cache.
      have hbody := (Program.body?_of_find? found).trans body
      have hmeaning := program.meaning_eq limit acyclic name
      rw [hbody, Option.bind_some] at hmeaning
      have hmet := ih (faithful.mono rfl (Nat.le_refl _)) (above.start hbody)
      have hpruned : OptionPruned value? (program.meaning limit acyclic name) :=
        hmeaning ▸ hmet.pruned
      have hexact : st'.stats.depthExceeded = 0 →
          value? = program.meaning limit acyclic name :=
        fun hzero => (hmet.exact hzero).trans hmeaning.symm
      refine ⟨hpruned, fun hzero => hexact ?_, hmet.faithful.conclude hpruned hexact, ?_⟩
      · simpa using hzero
      · simpa using hmet.cycles
  | @reference target st st' value? plain _ ih =>
      have hmet := ih faithful (by
        simpa [Query.targets, Literal.targets, Reference.targets, plain] using above)
      have hmeaning : (Query.literal (.reference target)).denote
          (program.names limit acyclic) = program.meaning limit acyclic target.name := by
        simp only [Query.denote, Literal.denote, Names.reference, plain]
        rfl
      exact ⟨hmeaning ▸ hmet.pruned, fun hzero => hmeaning ▸ hmet.exact hzero,
        hmet.faithful, hmet.cycles⟩
  | @member target member st named =>
      have hmeaning : (Query.literal (.reference target)).denote
          (program.names limit acyclic) =
            program.memberValue? limit target.name member := by
        simp only [Query.denote, Literal.denote, Names.reference, named]
        rfl
      exact ⟨hmeaning ▸ .refl _, fun _ => hmeaning.symm,
        faithful.mono rfl (Nat.le_refl _), rfl⟩
  | tooDeep opens full =>
      exact ⟨.none _, fun hzero => absurd hzero (Nat.succ_ne_zero _),
        faithful.mono rfl (Nat.le_succ _), rfl⟩
  | scalar room plain =>
      have hmeaning := Literal.denote_scalar (program.names limit acyclic) plain
      exact ⟨hmeaning ▸ .refl _, fun _ => hmeaning.symm,
        faithful.mono rfl (Nat.le_refl _), rfl⟩
  | object room _ ih =>
      have hmet := ih (faithful.mono rfl (Nat.le_refl _)) above
      exact ⟨.some (.object hmet.pruned),
        fun hzero => congrArg (fun entries => some (Value.object entries))
          (hmet.exact hzero),
        hmet.faithful.mono rfl (Nat.le_refl _), hmet.cycles⟩
  | array room _ ih =>
      have hmet := ih (faithful.mono rfl (Nat.le_refl _)) above
      exact ⟨.some (.array hmet.pruned),
        fun hzero => congrArg (fun items => some (Value.array items)) (hmet.exact hzero),
        hmet.faithful.mono rfl (Nat.le_refl _), hmet.cycles⟩
  | noElements | noEntries => exact ⟨.nil, fun _ => rfl, faithful, rfl⟩
  | element first more ih₁ ih₂ =>
      have hfirst := ih₁ faithful above.left
      have hmore := ih₂ hfirst.faithful (above.right first.frame.1)
      refine ⟨sublistForall₂_append hfirst.pruned.toList hmore.pruned, fun hzero => ?_,
        hmore.faithful, hmore.cycles.trans hfirst.cycles⟩
      have hcuts := more.cuts_le
      rw [hfirst.exact (by omega), hmore.exact hzero]
      rfl
  | field first more ih₁ ih₂ =>
      have hfirst := ih₁ faithful above.left
      have hmore := ih₂ hfirst.faithful (above.right first.frame.1)
      refine ⟨sublistForall₂_append (hfirst.pruned.field _) hmore.pruned, fun hzero => ?_,
        hmore.faithful, hmore.cycles.trans hfirst.cycles⟩
      have hcuts := more.cuts_le
      rw [hfirst.exact (by omega), hmore.exact hzero]
      rfl
  | @spread source rest st st₁ st₂ value? others plain first more ih₁ ih₂ =>
      have htargets : source.targets = [source.name] := by
        simp [Reference.targets, plain]
      have hspread : (program.names limit acyclic).spread source =
          spreadEntries (program.meaning limit acyclic source.name) := by
        simp only [Names.spread, plain]
        rfl
      have habove : st.Above program [source.name] := htargets ▸ above.left
      have hfirst := ih₁ faithful habove
      have hmore := ih₂ (hfirst.faithful.mono rfl (Nat.le_refl _))
        (above.right first.frame.1)
      have hmeaning : (Query.entries (.spread source :: rest)).denote
          (program.names limit acyclic) =
            spreadEntries (program.meaning limit acyclic source.name) ++
              (Query.entries rest).denote (program.names limit acyclic) := by
        rw [← hspread]
        rfl
      refine ⟨hmeaning ▸ sublistForall₂_append hfirst.pruned.spreadEntries hmore.pruned,
        fun hzero => ?_, hmore.faithful, hmore.cycles.trans hfirst.cycles⟩
      have hcuts : st₁.stats.depthExceeded ≤ st₂.stats.depthExceeded := more.cuts_le
      rw [hmeaning, hfirst.exact (by omega), hmore.exact hzero]
      rfl
  | @memberSpread source rest st st' others named more ih =>
      have hmet := ih faithful (above.right rfl)
      have hmeaning : (Query.entries (.spread source :: rest)).denote
          (program.names limit acyclic) =
            (Query.entries rest).denote (program.names limit acyclic) := by
        obtain ⟨member, hmember⟩ := Option.isSome_iff_exists.mp named
        simp only [Query.denote, denoteEntries, Names.spread, hmember, List.nil_append]
      exact ⟨hmeaning ▸ hmet.pruned, fun hzero => hmeaning ▸ hmet.exact hzero,
        hmet.faithful, hmet.cycles⟩

end Evaluates

/-! ## Runs -/

/-- What a call means. -/
def Call.denote (names : Names) : Call → Option Value
  | .constant name => names.constant name
  | .literal term => term.denote names

theorem Call.denote_term (names : Names) (call : Call) :
    call.term.denote names = call.denote names := by
  cases call <;> rfl

namespace Program

variable {program : Program} {limit : Nat} {st st' : Resolver}

theorem above_of_idle (idle : st.active = []) (targets : List String) :
    st.Above program targets := by
  intro name hname
  rw [idle] at hname
  cases hname

/-- A call between other calls is answered with its meaning, up to what is cut. -/
theorem call_met (acyclic : program.Acyclic) (call : Call) (idle : st.active = [])
    (faithful : st.Faithful (program.names limit acyclic)) :
    (Query.literal call.term).Met (program.names limit acyclic) st
      (program.call limit call st).1 (program.call limit call st).2 :=
  (program.evaluates_call limit call st).met acyclic faithful (above_of_idle idle _)

theorem Move.faithful (acyclic : program.Acyclic) (move : program.Move limit st st')
    (idle : st.active = []) (faithful : st.Faithful (program.names limit acyclic)) :
    st'.Faithful (program.names limit acyclic) := by
  cases move with
  | report => exact faithful.mono rfl (Nat.le_refl _)
  | call call => exact (call_met acyclic call idle faithful).faithful

/-- The cache is faithful throughout a run. -/
theorem Later.faithful (acyclic : program.Acyclic) (later : program.Later limit {} st) :
    st.active = [] ∧ st.Faithful (program.names limit acyclic) := by
  induction later with
  | refl => exact ⟨rfl, .fresh _⟩
  | tail _ move ih => exact ⟨move.frame.1.trans ih.1, move.faithful acyclic ih.1 ih.2⟩

/-- Calls that cut nothing are answered with their meanings, and break no circle. -/
theorem calls_met (acyclic : program.Acyclic) (calls : List Call) (st : Resolver)
    (idle : st.active = []) (faithful : st.Faithful (program.names limit acyclic))
    (uncut : (program.calls limit calls st).2.stats.depthExceeded = 0) :
    (program.calls limit calls st).1 =
        calls.map (Call.denote (program.names limit acyclic)) ∧
      (program.calls limit calls st).2.stats.cyclesBroken = st.stats.cyclesBroken := by
  induction calls generalizing st with
  | nil => exact ⟨rfl, rfl⟩
  | cons call rest ih =>
      have hmet : (Query.literal call.term).Met (program.names limit acyclic) st _ _ :=
        call_met acyclic call idle faithful
      have hframe := (program.evaluates_call limit call st).frame
      have hlater := (Later.calls program limit rest (program.call limit call st).2).frame
      obtain ⟨hrest, hcycles⟩ :=
        ih (program.call limit call st).2 (hframe.1.trans idle) hmet.faithful uncut
      refine ⟨?_, hcycles.trans hmet.cycles⟩
      have hanswer := hmet.exact (Nat.le_zero.mp (uncut ▸ hlater.2.2))
      show (program.call limit call st).1 :: _ = _
      rw [hanswer, List.map_cons, ← hrest]
      exact congrArg (· :: _) (call.denote_term _)

/-- Where no constant reaches itself, calls of which none cuts anything are answered,
whatever they are and in whatever order they come, with what they mean. No circle is
found on the way. -/
theorem calls_eq_meanings (program : Program) (limit : Nat) (acyclic : program.Acyclic)
    (calls : List Call)
    (uncut : (program.calls limit calls {}).2.stats.depthExceeded = 0) :
    (program.calls limit calls {}).1 =
        calls.map (Call.denote (program.names limit acyclic)) ∧
      (program.calls limit calls {}).2.stats.cyclesBroken = 0 :=
  calls_met acyclic calls {} rfl (.fresh _) uncut

theorem accounts_acyclic : Samples.accounts.Acyclic :=
  acyclic_of_rank (fun name => if name = "cfg" then 1 else 0) (by decide +kernel)

/-- The cache answers the last two of these calls, at different depths. -/
def accountsCalls : List Call :=
  [.constant "cfg", .literal (.array [.reference { name := "base" }]), .constant "base"]

theorem calls_eq_meanings_accounts :
    (Samples.accounts.calls 3 accountsCalls {}).2.stats.depthExceeded = 0 ∧
      (Samples.accounts.calls 3 accountsCalls {}).1 =
        accountsCalls.map (Call.denote (Samples.accounts.names 3 accounts_acyclic)) ∧
      (Samples.accounts.calls 3 accountsCalls {}).2.stats.cyclesBroken = 0 := by
  have uncut : (Samples.accounts.calls 3 accountsCalls {}).2.stats.depthExceeded = 0 := by
    decide +kernel
  exact ⟨uncut, calls_eq_meanings _ 3 accounts_acyclic accountsCalls uncut⟩

end Program

end SchemaIR
