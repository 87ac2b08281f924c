import SchemaIR.Program.Builder
import SchemaIR.Proofs.Flattening

/-!
# Lowering comes to an end

Lowering recurses in three places, and no two of them end for the same reason. A constant is
opened only while it is not being evaluated, so there are ever fewer constants to open. A
spread of a type and an inline object each use up a level. And a spread of an enumeration
makes the chain of expansions longer by a declared name.

The functions make these recursions visibly finite by a budget. Here each of them is a
judgment without one, so that a derivation is the whole tree of calls, and a derivation exists
only if that tree is finite. For evaluation and for types this is shown in the files on them.
What is left are enumerations, and the run over all declarations.

Enumerations are the one place where it matters that a table has its entries under their own
names: the chain is made of names, spreads are looked up by key, and an enumeration under
another key can spread itself without end.
-/

namespace SchemaIR

/-! ## Members of enumerations -/

/-- What the expansion of enumerations can be asked for. -/
inductive MemberQuery where
  | enumeration (decl : EnumDecl)
  | spreads (owner : String) (spreads : List Reference)

/-- `Gathers program limit query walk members walk'`: asked for `query` in the chain of
`walk`, the expansion gives `members` and goes on with `walk'`. -/
inductive Gathers (program : Program) (limit : Nat) :
    MemberQuery → Walk → List MemberDecl → Walk → Prop where
  | expansion {decl : EnumDecl} {walk walk' : Walk} {inherited : List MemberDecl}
      (run : Gathers program limit (.spreads decl.name decl.spreads) (walk.enter decl.name)
        inherited walk') :
      Gathers program limit (.enumeration decl) walk (inherited ++ decl.members)
        (walk'.leave decl.name)
  | noSpreads {owner : String} {walk : Walk} :
      Gathers program limit (.spreads owner []) walk [] walk
  /-- A spread that names a member adds nothing. -/
  | memberSpread {owner : String} {spread : Reference} {rest : List Reference}
      {walk walk' : Walk} {others : List MemberDecl} (named : spread.member.isSome = true)
      (more : Gathers program limit (.spreads owner rest) walk others walk') :
      Gathers program limit (.spreads owner (spread :: rest)) walk others walk'
  /-- The enumeration is being expanded: a circle is cut. -/
  | circularSpread {owner : String} {spread : Reference} {rest : List Reference}
      {walk walk' : Walk} {others : List MemberDecl} (plain : spread.member.isSome = false)
      (busy : spread.name ∈ walk.path)
      (more : Gathers program limit (.spreads owner rest)
        (walk.note (.enumCycle owner spread.name)) others walk') :
      Gathers program limit (.spreads owner (spread :: rest)) walk others walk'
  | undeclaredSpread {owner : String} {spread : Reference} {rest : List Reference}
      {walk walk' : Walk} {others : List MemberDecl} (plain : spread.member.isSome = false)
      (idle : spread.name ∉ walk.path) (absent : program.enums.find? spread.name = none)
      (more : Gathers program limit (.spreads owner rest) walk others walk') :
      Gathers program limit (.spreads owner (spread :: rest)) walk others walk'
  /-- The chain is as long as it may be. -/
  | refusedSpread {owner : String} {spread : Reference} {rest : List Reference}
      {target : EnumDecl} {walk walk' : Walk} {others : List MemberDecl}
      (plain : spread.member.isSome = false) (idle : spread.name ∉ walk.path)
      (found : program.enums.find? spread.name = some target)
      (full : limit ≤ walk.path.length)
      (more : Gathers program limit (.spreads owner rest)
        (walk.note (.enumChainTooDeep owner limit)) others walk') :
      Gathers program limit (.spreads owner (spread :: rest)) walk others walk'
  /-- The enumeration is expanded. -/
  | spread {owner : String} {spread : Reference} {rest : List Reference} {target : EnumDecl}
      {walk walk₁ walk₂ : Walk} {first others : List MemberDecl}
      (plain : spread.member.isSome = false) (idle : spread.name ∉ walk.path)
      (found : program.enums.find? spread.name = some target)
      (room : walk.path.length < limit)
      (run : Gathers program limit (.enumeration target) walk first walk₁)
      (more : Gathers program limit (.spreads owner rest) walk₁ others walk₂) :
      Gathers program limit (.spreads owner (spread :: rest)) walk (first ++ others) walk₂

/-- The function that answers a query, where so many declarations may be expanded inside one
another. -/
def MemberQuery.gather (program : Program) (limit budget : Nat) :
    MemberQuery → Walk → List MemberDecl × Walk
  | .enumeration decl => expandMembers program limit budget decl
  | .spreads owner items =>
      inheritedMembers program limit owner (expandMembers program limit budget) items

/-- The budget covers the declarations that can still be expanded inside a query. -/
def MemberQuery.Covered (program : Program) (budget : Nat) (walk : Walk) : MemberQuery → Prop
  | .enumeration decl => program.enums.unlisted (walk.path.enter decl.name) < budget
  | .spreads _ _ => program.enums.unlisted walk.path ≤ budget

/-- The chain does not have the declaration yet. -/
def MemberQuery.Idle (walk : Walk) : MemberQuery → Prop
  | .enumeration decl => decl.name ∉ walk.path
  | .spreads _ _ => True

theorem Path.enter_idle {name : String} {path : Path} (idle : name ∉ path) :
    path.enter name = name :: path :=
  if_neg idle

namespace Gathers

section Keyed

variable {program : Program} {limit : Nat} {query : MemberQuery} {walk walk' : Walk}
  {members : List MemberDecl}
  (keyed : ∀ key decl, program.enums.find? key = some decl → decl.name = key)

include keyed

/-- Whatever is expanded inside, the chain is afterwards what it was before. -/
theorem frame (run : Gathers program limit query walk members walk') (fresh : query.Idle walk) :
    walk'.path = walk.path := by
  induction run with
  | expansion _ ih =>
      have hinside := ih trivial
      simp only [Walk.leave, hinside, Walk.enter]
      exact Path.leave_enter fresh
  | noSpreads => rfl
  | memberSpread _ _ ih | circularSpread _ _ _ ih | undeclaredSpread _ _ _ _ ih
  | refusedSpread _ _ _ _ _ ih => exact ih trivial
  | @spread _ _ _ target walk _ _ _ _ _ idle found _ _ _ ih₁ ih₂ =>
      have hidle : target.name ∉ walk.path := keyed _ _ found ▸ idle
      exact (ih₂ trivial).trans (ih₁ hidle)

/-- Spreads have derivations in every chain, by induction on the declared names that the chain
does not have. -/
theorem spreads_total (owner : String) (spreads : List Reference) (walk : Walk) :
    ∃ members walk', Gathers program limit (.spreads owner spreads) walk members walk' := by
  induction hn : program.enums.unlisted walk.path using Nat.strongRecOn
      generalizing owner spreads walk with
  | ind n fewer =>
      induction spreads generalizing walk with
      | nil => exact ⟨_, _, .noSpreads⟩
      | cons spread rest ih =>
          cases plain : spread.member.isSome with
          | true =>
              obtain ⟨_, _, more⟩ := ih walk hn
              exact ⟨_, _, .memberSpread plain more⟩
          | false =>
              by_cases busy : spread.name ∈ walk.path
              · obtain ⟨_, _, more⟩ := ih (walk.note (.enumCycle owner spread.name)) hn
                exact ⟨_, _, .circularSpread plain busy more⟩
              · cases found : program.enums.find? spread.name with
                | none =>
                    obtain ⟨_, _, more⟩ := ih walk hn
                    exact ⟨_, _, .undeclaredSpread plain busy found more⟩
                | some target =>
                    rcases Nat.lt_or_ge walk.path.length limit with room | full
                    · have hname := keyed _ _ found
                      have hidle : target.name ∉ walk.path := hname ▸ busy
                      have hfewer : program.enums.unlisted (walk.enter target.name).path < n := by
                        rw [← hn, Walk.enter, Path.enter_idle hidle, hname]
                        exact Table.unlisted_cons_lt found busy
                      obtain ⟨_, _, inside⟩ :=
                        fewer _ hfewer target.name target.spreads (walk.enter target.name) rfl
                      have run := expansion inside
                      obtain ⟨_, _, more⟩ := ih _ (by rw [run.frame keyed hidle, hn])
                      exact ⟨_, _, .spread plain busy found room run more⟩
                    · obtain ⟨_, _, more⟩ := ih (walk.note (.enumChainTooDeep owner limit)) hn
                      exact ⟨_, _, .refusedSpread plain busy found full more⟩

/-- Expansion always comes to an end. -/
theorem total (query : MemberQuery) (walk : Walk) :
    ∃ members walk', Gathers program limit query walk members walk' := by
  cases query with
  | spreads owner items => exact spreads_total keyed owner items walk
  | enumeration decl =>
      obtain ⟨_, _, run⟩ := spreads_total keyed decl.name decl.spreads (walk.enter decl.name)
      exact ⟨_, _, .expansion run⟩

theorem computed (run : Gathers program limit query walk members walk') :
    ∀ budget, query.Covered program budget walk →
      query.gather program limit budget walk = (members, walk') := by
  induction run with
  | @expansion decl walk _ _ _ ih =>
      intro budget covered
      have hcovered : program.enums.unlisted (walk.path.enter decl.name) < budget := covered
      obtain ⟨less, rfl⟩ : ∃ less, budget = less + 1 := ⟨budget - 1, by omega⟩
      have hinside := ih less (Nat.le_of_lt_succ hcovered)
      simp only [MemberQuery.gather] at hinside
      simp only [MemberQuery.gather, expandMembers, hinside]
  | noSpreads => exact fun _ _ => rfl
  | memberSpread named _ ih =>
      intro budget covered
      have hmore := ih budget covered
      simp only [MemberQuery.gather] at hmore
      simp only [MemberQuery.gather, inheritedMembers, spreadMembers, named, if_true, hmore,
        List.nil_append]
  | circularSpread plain busy _ ih =>
      intro budget covered
      have hmore := ih budget covered
      simp only [MemberQuery.gather] at hmore
      simp only [MemberQuery.gather, inheritedMembers, spreadMembers, plain, Bool.false_eq_true,
        if_false, busy, if_true, hmore, List.nil_append]
  | undeclaredSpread plain idle absent _ ih =>
      intro budget covered
      have hmore := ih budget covered
      simp only [MemberQuery.gather] at hmore
      simp only [MemberQuery.gather, inheritedMembers, spreadMembers, plain, Bool.false_eq_true,
        if_false, idle, absent, hmore, List.nil_append]
  | refusedSpread plain idle found full _ ih =>
      intro budget covered
      have hmore := ih budget covered
      simp only [MemberQuery.gather] at hmore
      simp only [MemberQuery.gather, inheritedMembers, spreadMembers, plain, Bool.false_eq_true,
        if_false, idle, found, full, if_true, hmore, List.nil_append]
  | @spread owner spread rest target walk _ _ _ _ plain idle found room run _ ih₁ ih₂ =>
      intro budget covered
      have hname := keyed _ _ found
      have hidle : target.name ∉ walk.path := hname ▸ idle
      have hcovered : program.enums.unlisted walk.path ≤ budget := covered
      -- The target is declared and not in the chain, so it is one of those that are covered.
      have hfewer : program.enums.unlisted (walk.path.enter target.name) <
          program.enums.unlisted walk.path := by
        rw [Path.enter_idle hidle, hname]
        exact Table.unlisted_cons_lt found idle
      have hfirst := ih₁ budget (Nat.lt_of_lt_of_le hfewer hcovered)
      have hmore := ih₂ budget (by rwa [MemberQuery.Covered, run.frame keyed hidle])
      simp only [MemberQuery.gather] at hfirst hmore
      simp only [MemberQuery.gather, inheritedMembers, spreadMembers, plain, Bool.false_eq_true,
        if_false, idle, found, Nat.not_le.mpr room, hfirst, hmore]

end Keyed

/-- The derivation of what the expansion of a declaration gives. -/
theorem of_enumMembers {program : Program}
    (keyed : ∀ key decl, program.enums.find? key = some decl → decl.name = key) (limit : Nat)
    (decl : EnumDecl) :
    Gathers program limit (.enumeration decl) {} (program.enumMembers limit decl).1
      ⟨[], (program.enumMembers limit decl).2⟩ := by
  have htotal : ∃ members walk, Gathers program limit (.enumeration decl) {} members walk :=
    total keyed _ _
  obtain ⟨members, ⟨path, log⟩, run⟩ := htotal
  obtain rfl : path = [] := run.frame keyed List.not_mem_nil
  have hcomputed : expandMembers program limit (program.enums.size + 1) decl {} =
      (members, ⟨[], log⟩) :=
    run.computed keyed _ (Nat.lt_succ_of_le (program.enums.unlisted_le_size _))
  have hmembers : program.enumMembers limit decl = (members, log) := by
    simp only [Program.enumMembers, hcomputed]
  rw [hmembers]
  exact run

theorem eq_enumMembers {program : Program} {limit : Nat} {decl : EnumDecl}
    {members : List MemberDecl} {walk : Walk}
    (keyed : ∀ key decl, program.enums.find? key = some decl → decl.name = key)
    (run : Gathers program limit (.enumeration decl) {} members walk) :
    members = (program.enumMembers limit decl).1 := by
  have hcomputed : expandMembers program limit (program.enums.size + 1) decl {} = (members, walk) :=
    run.computed keyed _ (Nat.lt_succ_of_le (program.enums.unlisted_le_size _))
  simp only [Program.enumMembers, hcomputed]

/-- Whether a query comes back to itself, where an enumeration is declared under another
name and spreads that one. -/
def Loops (key : String) (decl : EnumDecl) (walk : Walk) : MemberQuery → Prop
  | .enumeration other => other = decl ∧ walk.path.enter decl.name = [decl.name]
  | .spreads _ items => items = [{ name := key }] ∧ walk.path = [decl.name]

/-- The names in the chain never include the key, so nothing ends the expansion. -/
theorem not_loops {program : Program} {limit : Nat} {key : String} {decl : EnumDecl}
    (found : program.enums.find? key = some decl) (misnamed : decl.name ≠ key)
    (self : decl.spreads = [{ name := key }]) (room : 1 < limit) {query : MemberQuery}
    {walk walk' : Walk} {members : List MemberDecl}
    (run : Gathers program limit query walk members walk') : ¬ Loops key decl walk query := by
  induction run with
  | expansion _ ih =>
      rintro ⟨rfl, hpath⟩
      exact ih ⟨self, hpath⟩
  | noSpreads =>
      rintro ⟨hitems, -⟩
      cases hitems
  | memberSpread named =>
      rintro ⟨hitems, -⟩
      cases hitems
      cases named
  | circularSpread plain busy =>
      rintro ⟨hitems, hpath⟩
      cases hitems
      rw [hpath, List.mem_singleton] at busy
      exact misnamed busy.symm
  | undeclaredSpread plain idle absent =>
      rintro ⟨hitems, -⟩
      cases hitems
      cases found.symm.trans absent
  | refusedSpread plain idle target full =>
      rintro ⟨-, hpath⟩
      rw [hpath] at full
      exact Nat.not_le.mpr room full
  | spread plain idle target _ _ _ ih =>
      rintro ⟨hitems, hpath⟩
      cases hitems
      cases found.symm.trans target
      exact ih ⟨rfl, by simp [hpath, Path.enter]⟩

end Gathers

/-! ## Declarations -/

section Declarations

variable (program : Program) (limit : Nat)

/-- `LowersType program limit decl st type st'`: in the state `st` a declared type is lowered
to `type`, and the state `st'` is left. -/
inductive LowersType : TypeDecl → Lowering → TypeDef → Lowering → Prop where
  | intro {decl : TypeDecl} {st st₁ st₂ st₃ : Lowering} {annotations : List Annotation}
      {inherited own : List Field} {path : Path}
      (annotated : AnnotatesEach program limit decl.annotations
        (st.note (.convertingType decl.name)) annotations st₁)
      (before : Flattens program limit (.spreads decl.spreads [decl.name]) st₁
        (inherited, path) st₂)
      (after : Flattens program limit (.fields decl.fields) st₂ own st₃) :
      LowersType decl st
        ⟨decl.name, Doc.normalize? decl.docstring, annotations, inherited ++ own⟩ st₃

/-- `LowersMember program limit decl st member st'`: a declared member is lowered to `member`. Its
text is kept, whatever kind of value the enumeration has. -/
inductive LowersMember : MemberDecl → Lowering → EnumMember → Lowering → Prop where
  | intro {decl : MemberDecl} {st st' : Lowering} {annotations : List Annotation}
      (annotated : AnnotatesEach program limit decl.annotations st annotations st') :
      LowersMember decl st
        ⟨decl.name, decl.value, Doc.normalize? decl.docstring, annotations⟩ st'

/-- `LowersEnum program limit decl st enum st'`: a declared enumeration is lowered to `enum`. Its
members are gathered first, and they are lowered before its own annotations. -/
inductive LowersEnum : EnumDecl → Lowering → EnumDef → Lowering → Prop where
  | intro {decl : EnumDecl} {decls : List MemberDecl} {walk : Walk} {st st₁ st₂ : Lowering}
      {members : List EnumMember} {annotations : List Annotation}
      (gathered : Gathers program limit (.enumeration decl) {} decls walk)
      (run : Each (LowersMember program limit) decls
        { st with resolver := (st.resolver.note (.convertingEnum decl.name)).report walk.log }
        members st₁)
      (annotated : AnnotatesEach program limit decl.annotations st₁ annotations st₂) :
      LowersEnum decl st
        ⟨decl.name, Doc.normalize? decl.docstring, annotations, decl.valueType, members⟩ st₂

/-- `LowersConstant program limit decl st constant st'`: a declared constant is lowered to
`constant`. It is asked for by its name, before its annotations. -/
inductive LowersConstant : ConstDecl → Lowering → ConstantDef → Lowering → Prop where
  | valued {decl : ConstDecl} {st st' : Lowering} {value : Value} {resolver : Resolver}
      {annotations : List Annotation}
      (run : Evaluates program limit (.constant decl.name)
        (st.resolver.note (.convertingConstant decl.name)) (some value) resolver)
      (annotated : AnnotatesEach program limit decl.annotations { st with resolver }
        annotations st') :
      LowersConstant decl st
        ⟨decl.name, Doc.normalize? decl.docstring, annotations,
          program.constantType decl value, value⟩ st'
  /-- A constant without a value is the empty string. -/
  | valueless {decl : ConstDecl} {st st' : Lowering} {resolver : Resolver}
      {annotations : List Annotation}
      (run : Evaluates program limit (.constant decl.name)
        (st.resolver.note (.convertingConstant decl.name)) none resolver)
      (annotated : AnnotatesEach program limit decl.annotations
        { st with resolver := resolver.note (.constantFallback decl.name) } annotations st') :
      LowersConstant decl st
        ⟨decl.name, Doc.normalize? decl.docstring, annotations,
          program.constantType decl (.string ""), .string ""⟩ st'

/-- What a run ends with. -/
def Program.report (types : List TypeDef) (enums : List EnumDef) (constants : List ConstantDef)
    (st : Lowering) : Lowered :=
  let schema : Schema :=
    { types := sortByName TypeDef.name types
      enums := sortByName EnumDef.name enums
      constants := sortByName ConstantDef.name constants
      docs := program.standaloneDocs.filterMap DocDecl.lower? }
  let counts := Event.lowered schema.types.length schema.enums.length
    schema.constants.length schema.docs.length
  ⟨schema, st.stats, (st.resolver.log.push counts).push (.evaluated st.stats)⟩

/-- A whole run. -/
inductive Lowers : Lowered → Prop where
  | intro {types : List TypeDef} {enums : List EnumDef} {constants : List ConstantDef}
      {st₁ st₂ st₃ : Lowering}
      (typed : Each (LowersType program limit) program.types.sorted {} types st₁)
      (enumerated : Each (LowersEnum program limit) program.enums.sorted st₁ enums st₂)
      (valued : Each (LowersConstant program limit) program.consts.sorted st₂ constants st₃) :
      Lowers (program.report types enums constants st₃)

end Declarations

variable {program : Program} {limit : Nat}

theorem LowersType.computed {decl : TypeDecl} {st st' : Lowering} {type : TypeDef}
    (run : LowersType program limit decl st type st') :
    program.lowerType limit decl st = (type, st') := by
  obtain ⟨annotated, before, after⟩ := run
  have hannotations := annotated.annotations_computed
  have hbefore := Program.flatten_eq_iff.mpr before
  have hafter := Program.flatten_eq_iff.mpr after
  simp only [Program.flatten, Program.convert] at hbefore hafter
  simp only [Program.lowerType, Program.typeFields, hannotations, hbefore, hafter]

theorem LowersType.total (program : Program) (limit : Nat) (decl : TypeDecl) (st : Lowering) :
    LowersType program limit decl st (program.lowerType limit decl st).1
      (program.lowerType limit decl st).2 :=
  .intro (annotatesEach_total program limit decl.annotations _)
    (program.flattens_flatten limit (.spreads decl.spreads [decl.name]) _)
    (program.flattens_flatten limit (.fields decl.fields) _)

theorem LowersMember.computed {decl : MemberDecl} {st st' : Lowering} {member : EnumMember}
    (run : LowersMember program limit decl st member st') :
    program.lowerMember limit decl st = (member, st') := by
  obtain ⟨annotated⟩ := run
  simp only [Program.lowerMember, annotated.annotations_computed]

theorem LowersMember.total (program : Program) (limit : Nat) (decl : MemberDecl) (st : Lowering) :
    LowersMember program limit decl st (program.lowerMember limit decl st).1
      (program.lowerMember limit decl st).2 :=
  .intro (annotatesEach_total program limit decl.annotations st)

theorem LowersConstant.computed {decl : ConstDecl} {st st' : Lowering} {constant : ConstantDef}
    (run : LowersConstant program limit decl st constant st') :
    program.lowerConstant limit decl st = (constant, st') := by
  cases run with
  | valued run annotated =>
      have hvalue : program.resolveConstant limit decl.name _ = _ := Program.answer_eq_iff.mpr run
      have hannotations := annotated.annotations_computed
      simp only [Program.lowerConstant, Program.constantValue, Lowering.note, hvalue, hannotations]
  | valueless run annotated =>
      have hvalue : program.resolveConstant limit decl.name _ = _ := Program.answer_eq_iff.mpr run
      have hannotations := annotated.annotations_computed
      simp only [Program.lowerConstant, Program.constantValue, Lowering.note, hvalue, hannotations]

theorem LowersConstant.total (program : Program) (limit : Nat) (decl : ConstDecl) (st : Lowering) :
    LowersConstant program limit decl st (program.lowerConstant limit decl st).1
      (program.lowerConstant limit decl st).2 := by
  obtain ⟨value?, resolver, run⟩ := Evaluates.total program limit (.constant decl.name)
    (st.resolver.note (.convertingConstant decl.name))
  have hlowers : ∃ constant st', LowersConstant program limit decl st constant st' := by
    cases value? with
    | some value => exact ⟨_, _, .valued run (annotatesEach_total program limit _ _)⟩
    | none => exact ⟨_, _, .valueless run (annotatesEach_total program limit _ _)⟩
  obtain ⟨constant, st', hlowers⟩ := hlowers
  rw [hlowers.computed]
  exact hlowers

/-! ## Runs -/

section Runs

variable (keyed : ∀ key decl, program.enums.find? key = some decl → decl.name = key)

include keyed

theorem LowersEnum.computed {decl : EnumDecl} {st st' : Lowering} {enum : EnumDef}
    (run : LowersEnum program limit decl st enum st') :
    program.lowerEnum limit decl st = (enum, st') := by
  obtain ⟨gathered, run, annotated⟩ := run
  have hgathered := gathered.computed keyed (program.enums.size + 1)
    (Nat.lt_succ_of_le (program.enums.unlisted_le_size _))
  have hmembers := Each.computed (fun _ _ _ _ one => one.computed) run
  have hannotations := annotated.annotations_computed
  simp only [MemberQuery.gather] at hgathered
  simp only [Resolver.report] at hmembers
  simp only [Program.lowerEnum, Program.enumMembers, hgathered, Lowering.note, hmembers,
    hannotations]

theorem LowersEnum.total (limit : Nat) (decl : EnumDecl) (st : Lowering) :
    LowersEnum program limit decl st (program.lowerEnum limit decl st).1
      (program.lowerEnum limit decl st).2 := by
  have gathered := Gathers.of_enumMembers keyed limit decl
  exact .intro gathered
    (each_eachStep _ (fun decl _ st => .total program limit decl st) _)
    (annotatesEach_total program limit decl.annotations _)

theorem Lowers.iff_eq_lower {lowered : Lowered} :
    Lowers program limit lowered ↔ lowered = program.lower limit := by
  constructor
  · rintro ⟨typed, enumerated, valued⟩
    have htypes := Each.computed (fun _ _ _ _ one => one.computed) typed
    have henums := Each.computed (fun _ _ _ _ one => one.computed keyed) enumerated
    have hconstants := Each.computed (fun _ _ _ _ one => one.computed) valued
    simp only [Program.lower, Program.lowerAll, htypes, henums, hconstants]
    rfl
  · rintro rfl
    exact .intro (each_eachStep _ (fun decl _ st => .total program limit decl st) _)
      (each_eachStep _ (fun decl _ st => .total keyed limit decl st) _)
      (each_eachStep _ (fun decl _ st => .total program limit decl st) _)

end Runs

namespace Program

/-- Where enumerations are declared under their own names, lowering comes to an end, whatever
the limit and whatever refers to what. Every query to the evaluation, to the flattening of
types and to the expansion of enumerations has a finite tree of calls, at the root of which
stands what the functions give, and so does the run as a whole. -/
theorem lowering_terminates (program : Program) (limit : Nat)
    (keyed : ∀ key decl, program.enums.find? key = some decl → decl.name = key) :
    (∀ query st, Evaluates program limit query st (program.answer limit query st).1
        (program.answer limit query st).2) ∧
      (∀ query st, Flattens program limit query st (program.flatten limit query st).1
        (program.flatten limit query st).2) ∧
      (∀ query walk, ∃ members walk', Gathers program limit query walk members walk') ∧
      (∀ decl, Gathers program limit (.enumeration decl) {} (program.enumMembers limit decl).1
        ⟨[], (program.enumMembers limit decl).2⟩) ∧
      ∀ lowered, Lowers program limit lowered ↔ lowered = program.lower limit :=
  ⟨program.evaluates_answer limit, program.flattens_flatten limit, Gathers.total keyed,
    Gathers.of_enumMembers keyed limit, fun _ => Lowers.iff_eq_lower keyed⟩

/-- Everything refers back to itself: two enumerations spread each other twice, a type under
a foreign key spreads and embeds itself by that key, and a constant does so as well. -/
def tangled : Program :=
  let enums := ({} : Program).declareEnum
      (((EnumDecl.called "A" .string).withSpread "B").withSpread "B")
    |>.declareEnum ((((EnumDecl.called "B" .string).withSpread "A").withSpread "Nowhere").withName
        "b")
  let type := ((TypeDecl.called "T").withSpread "key").withField
    (.called "again" (.object ((({} : InlineObject).withSpread "key").withSpread "Nowhere")))
  let const := ConstDecl.called "c" (.array [.constant "key", .constant "c", .member "A" "b"])
  { enums with types := enums.types.insert "key" type, consts := enums.consts.insert "key" const }

theorem lowering_terminates_tangled : Lowers tangled 1000000 (tangled.lower 1000000) := by
  have keyed : ∀ entry ∈ tangled.enums.entries, entry.2.name = entry.1 := by decide
  obtain ⟨-, -, -, -, hlowers⟩ := lowering_terminates tangled 1000000
    fun _ _ found => keyed _ (Table.mem_of_find? found)
  exact (hlowers _).mpr rfl

/-- Under another name an enumeration can spread itself, and then its expansion does not
end. -/
theorem expansion_endless {program : Program} {limit : Nat} {key : String} {decl : EnumDecl}
    (found : program.enums.find? key = some decl) (misnamed : decl.name ≠ key)
    (self : decl.spreads = [{ name := key }]) (room : 1 < limit) :
    ¬ ∃ members walk, Gathers program limit (.enumeration decl) {} members walk := by
  rintro ⟨members, walk, run⟩
  exact run.not_loops found misnamed self room ⟨rfl, rfl⟩

end Program

end SchemaIR
