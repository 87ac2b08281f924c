import Mathlib
import SchemaIR.Program.Builder
import SchemaIR.Proofs.Lockstep

/-!
# What a limit on nesting leaves out

A run that counts no cut and shortens no enumeration does not depend on its limit: every
higher limit gives the same schema, the same counters and the same log.

The counter alone promises less. It is the number of cuts in the log, and spreads of types
and inline objects are among these, but not the spreads of enumerations. So a count of zero
means that all fields are there; whether all members are has to be looked up in the log.
-/

namespace SchemaIR

namespace Likeness

/-! ## Declarations -/

section Whole

variable {program : Program} {limit higher : Nat} {raise : limit ≤ higher}
  {members : program.SameMembers limit higher}

theorem Alike.eq {st st' : Lowering} (h : (whole raise members).Alike st st') : st' = st := by
  obtain ⟨tied, depth, truncated⟩ := h
  obtain ⟨resolver, depth, truncated⟩ := st
  have tied : resolver = st'.resolver := tied
  subst tied depth truncated
  rfl

theorem Follows.bindSame {α β : Type} {low high : Step α} {low' high' : α → Step β}
    (first : (whole raise members).Follows (·) 0 low high)
    (second : ∀ a, (whole raise members).Follows (·) 0 (low' a) (high' a)) :
    (whole raise members).Follows (·) 0 (fun st => low' (low st).1 (low st).2)
      (fun st => high' (high st).1 (high st).2) :=
  first.bind fun a _ same => same ▸ second a

theorem Follows.mapSame {α β : Type} {low high : Step α}
    (h : (whole raise members).Follows (·) 0 low high) (f : α → β) :
    (whole raise members).Follows (·) 0 (fun st => (f (low st).1, (low st).2))
      (fun st => (f (high st).1, (high st).2)) :=
  h.map fun _ _ same => congrArg f same

theorem Follows.eachSame {α β : Type} {low high : α → Step β} {items : List α}
    (h : ∀ a ∈ items, (whole raise members).Follows (·) 0 (low a) (high a)) :
    (whole raise members).Follows (·) 0 (eachStep low items) (eachStep high items) :=
  (Follows.each h).of_view fun results results' same => by
    simpa only [List.map_id'] using same

variable (raise members)

theorem lowerAnnotations_same (decls : List AnnotationDecl) :
    (whole raise members).Follows (·) 0 (program.lowerAnnotations limit decls)
      (program.lowerAnnotations higher decls) :=
  (lowerAnnotations_follows decls).of_view fun annotations annotations' same => by
    simpa only [whole, map_mapArgument_id] using same

theorem lowerType_same (decl : TypeDecl) :
    (whole raise members).Follows (·) 0 (program.lowerType limit decl)
      (program.lowerType higher decl) :=
  (lowerType_follows raise decl).of_view fun type type' same => by
    simpa only [whole, TypeDef.mapArguments_id] using same

theorem lowerMember_same (decl : MemberDecl) :
    (whole raise members).Follows (·) 0 (program.lowerMember limit decl)
      (program.lowerMember higher decl) :=
  (lowerAnnotations_same raise members decl.annotations).mapSame fun annotations =>
    (⟨decl.name, decl.value, Doc.normalize? decl.docstring, annotations⟩ : EnumMember)

/-- An enumeration in its lowered form, where its members are given. -/
def lowerExpanded (program : Program) (limit : Nat) (decl : EnumDecl) (decls : List MemberDecl) :
    Step EnumDef := fun st =>
  let (members, st) := eachStep (program.lowerMember limit) decls st
  let (annotations, st) := program.lowerAnnotations limit decl.annotations st
  (⟨decl.name, Doc.normalize? decl.docstring, annotations, decl.valueType, members⟩, st)

theorem lowerExpanded_same (decl : EnumDecl) (decls : List MemberDecl) :
    (whole raise members).Follows (·) 0 (lowerExpanded program limit decl decls)
      (lowerExpanded program higher decl decls) := by
  have hmembers : (whole raise members).Follows (·) 0
      (eachStep (program.lowerMember limit) decls) (eachStep (program.lowerMember higher) decls) :=
    .eachSame fun decl _ => lowerMember_same raise members decl
  exact hmembers.bindSame fun members' =>
    (lowerAnnotations_same raise members decl.annotations).mapSame fun annotations =>
      (⟨decl.name, Doc.normalize? decl.docstring, annotations, decl.valueType, members'⟩ : EnumDef)

theorem lowerEnum_same {key : String} {decl : EnumDecl}
    (found : program.enums.find? key = some decl) :
    (whole raise members).Follows (·) 0 (program.lowerEnum limit decl)
      (program.lowerEnum higher decl) := by
  unfold Program.lowerEnum
  rw [members key decl found]
  have quiet : (Event.convertingEnum decl.name).isCut = false := rfl
  have hexpanded := lowerExpanded_same raise members decl (program.enumMembers limit decl).1
  exact (hexpanded.report (program.enumMembers_uncut limit decl)).note quiet

/-- The value that was answered, or the empty string with a report. -/
def orEmpty (name : String) (answer : Option Value) : Step Value := fun st =>
  answer.elim (.string "", st.note (.constantFallback name)) (·, st)

theorem constantValue_eq (program : Program) (limit : Nat) (decl : ConstDecl) :
    program.constantValue limit decl = fun st =>
      orEmpty decl.name (ask program limit (.constant decl.name) st).1
        (ask program limit (.constant decl.name) st).2 := by
  funext st
  simp only [Program.constantValue, ask, Program.call, orEmpty]
  cases (program.resolveConstant limit decl.name st.resolver).1 <;> rfl

theorem constantValue_same (decl : ConstDecl) :
    (whole raise members).Follows (·) 0 (program.constantValue limit decl)
      (program.constantValue higher decl) := by
  have hasked : (whole raise members).Follows (·) 0 (ask program limit (.constant decl.name))
      (ask program higher (.constant decl.name)) := ask_follows (.constant decl.name)
  have hfallback (answer : Option Value) : (whole raise members).Follows (·) 0
      (orEmpty decl.name answer) (orEmpty decl.name answer) := by
    cases answer with
    | some value => exact .pure rfl
    | none => exact (Follows.pure rfl).note rfl
  rw [constantValue_eq, constantValue_eq]
  exact hasked.bindSame hfallback

theorem lowerConstant_same (decl : ConstDecl) :
    (whole raise members).Follows (·) 0 (program.lowerConstant limit decl)
      (program.lowerConstant higher decl) := by
  have quiet : (Event.convertingConstant decl.name).isCut = false := rfl
  have hconverted := (constantValue_same raise members decl).bindSame fun value =>
    (lowerAnnotations_same raise members decl.annotations).mapSame fun annotations =>
      (⟨decl.name, Doc.normalize? decl.docstring, annotations,
        program.constantType decl value, value⟩ : ConstantDef)
  exact hconverted.note quiet

theorem eachType_same :
    (whole raise members).Follows (·) 0 (eachStep (program.lowerType limit) program.types.sorted)
      (eachStep (program.lowerType higher) program.types.sorted) :=
  .eachSame fun decl _ => lowerType_same raise members decl

theorem eachEnum_same :
    (whole raise members).Follows (·) 0 (eachStep (program.lowerEnum limit) program.enums.sorted)
      (eachStep (program.lowerEnum higher) program.enums.sorted) := by
  refine .eachSame fun decl hdecl => ?_
  obtain ⟨key, found⟩ := Table.mem_sorted.mp hdecl
  exact lowerEnum_same raise members found

theorem eachConstant_same :
    (whole raise members).Follows (·) 0
      (eachStep (program.lowerConstant limit) program.consts.sorted)
      (eachStep (program.lowerConstant higher) program.consts.sorted) :=
  .eachSame fun decl _ => lowerConstant_same raise members decl

theorem lowerAll_same :
    (whole raise members).Follows (·) 0 (program.lowerAll limit) (program.lowerAll higher) :=
  (eachType_same raise members).bindSame fun types =>
    (eachEnum_same raise members).bindSame fun enums =>
      (eachConstant_same raise members).mapSame fun constants =>
        ({ types := sortByName TypeDef.name types
           enums := sortByName EnumDef.name enums
           constants := sortByName ConstantDef.name constants
           docs := program.standaloneDocs.filterMap DocDecl.lower? } : Schema)

end Whole

end Likeness

namespace Program

open Likeness

variable {program : Program} {limit higher : Nat}

/-! ## Enumerations -/

theorem sameMembers_refl (program : Program) (limit : Nat) : program.SameMembers limit limit :=
  fun _ _ _ => rfl

/-- What an expansion reports is in the log of the run. -/
theorem lowerEnum_whole {decl : EnumDecl} {st : Lowering}
    (whole : (program.lowerEnum limit decl st).2.resolver.log.Whole) :
    (program.enumMembers limit decl).2.Whole := by
  let events := (program.enumMembers limit decl).2
  let noted := st.note (.convertingEnum decl.name)
  let reported : Lowering := { noted with resolver := noted.resolver.report events }
  have hfollows := lowerExpanded_same (Nat.le_refl limit) (program.sameMembers_refl limit) decl
    (program.enumMembers limit decl).1
  have hwhole : reported.resolver.log.Whole :=
    (hfollows.tallies reported (Nat.zero_le _)).whole whole
  exact fun event hmem => hwhole event (Array.mem_append_right _ hmem)

theorem eachStep_whole {α β : Type} {step : α → Step β} {items : List α} {st : Lowering}
    (h : ∀ a ∈ items, (whole (Nat.le_refl limit) (program.sameMembers_refl limit)).Follows (·) 0
      (step a) (step a))
    (hwhole : (eachStep step items st).2.resolver.log.Whole) {a : α} (hmem : a ∈ items) :
    ∃ mid, (step a mid).2.resolver.log.Whole := by
  induction items generalizing st with
  | nil => cases hmem
  | cons b rest ih =>
      have hrest := fun a ha => h a (List.mem_cons_of_mem b ha)
      have hlast : (eachStep step rest (step b st).2).2.resolver.log.Whole := hwhole
      rcases List.mem_cons.mp hmem with rfl | hmem
      · have htallies := (Follows.eachSame hrest).tallies (step a st).2 (Nat.zero_le _)
        exact ⟨st, htallies.whole hlast⟩
      · exact ih hrest hlast hmem

/-- In a run that reports no dropped spread every enumeration is whole, since every declared
one is lowered. -/
theorem sameMembers_of_whole (raise : limit ≤ higher) (hwhole : (program.lower limit).log.Whole) :
    program.SameMembers limit higher := by
  let types := eachStep (program.lowerType limit) program.types.sorted {}
  let enums := eachStep (program.lowerEnum limit) program.enums.sorted types.2
  let constants := eachStep (program.lowerConstant limit) program.consts.sorted enums.2
  -- The run goes on with the constants and ends with two messages; its log holds all of it.
  have hconstants : constants.2.resolver.log.Whole := fun event hmem =>
    hwhole event (Array.mem_push_of_mem _ (Array.mem_push_of_mem _ hmem))
  have hfollows := eachConstant_same (Nat.le_refl limit) (program.sameMembers_refl limit)
  have henums : enums.2.resolver.log.Whole :=
    (hfollows.tallies enums.2 (Nat.zero_le _)).whole hconstants
  intro key decl found
  have heach : ∀ decl ∈ program.enums.sorted,
      (whole (Nat.le_refl limit) (program.sameMembers_refl limit)).Follows (·) 0
        (program.lowerEnum limit decl) (program.lowerEnum limit decl) := by
    intro decl hdecl
    obtain ⟨key, found⟩ := Table.mem_sorted.mp hdecl
    exact lowerEnum_same _ _ found
  obtain ⟨mid, hmid⟩ := eachStep_whole heach henums (Table.mem_sorted.mpr ⟨key, found⟩)
  exact enumMembers_raise raise (lowerEnum_whole hmid)

/-! ## Runs -/

/-- The counter of a run counts what is reported as cut, each cut once. -/
theorem depthExceeded_eq_cuts (program : Program) (limit : Nat) :
    (program.lower limit).stats.depthExceeded = (program.lower limit).log.cuts := by
  let final := (program.lowerAll limit {}).2
  have hfollows := lowerAll_same (Nat.le_refl limit) (program.sameMembers_refl limit)
  obtain ⟨cuts, hgrows, hcount⟩ := hfollows.tallies {} (Nat.le_refl 0)
  have hlog : Log.Grows final.resolver.log (program.lower limit).log 0 :=
    (Log.Grows.quiet _ rfl).trans (.quiet _ rfl)
  have hcuts : (program.lower limit).log.cuts = Log.cuts #[] + cuts :=
    (hgrows.trans hlog).cuts_eq
  have hfinal : (program.lower limit).stats.depthExceeded = 0 + cuts := hcount
  rw [hfinal, hcuts, Log.cuts_empty]

/-- Where nothing is cut and no enumeration is shortened, the run under a higher limit ends
in the same state. -/
theorem lowerAll_raise (raise : limit ≤ higher) (hwhole : (program.lower limit).log.Whole)
    (uncut : (program.lower limit).stats.depthExceeded = 0) :
    program.lowerAll higher {} = program.lowerAll limit {} := by
  have members := program.sameMembers_of_whole raise hwhole
  have hstart : (whole raise members).Alike {} {} := ⟨rfl, rfl, rfl⟩
  obtain ⟨hschema, hend⟩ :=
    (lowerAll_same raise members).alike {} {} (Nat.le_refl 0) hstart uncut
  exact Prod.ext hschema.symm hend.eq

theorem map_sortByName {α : Type} {name : α → String} {f : α → α} (h : ∀ a, name (f a) = name a)
    (items : List α) : (sortByName name items).map f = sortByName name (items.map f) :=
  List.map_mergeSort fun a _ b _ => by simp only [h]

theorem TypeDef.mapArguments_name (change : Option Value → Option Value) (type : TypeDef) :
    (type.mapArguments change).name = type.name := rfl

/-- Types come first, and what comes after them takes no count back. -/
theorem types_uncut (uncut : (program.lower limit).stats.depthExceeded = 0) :
    (eachStep (program.lowerType limit) program.types.sorted {}).2.stats.depthExceeded = 0 := by
  let types := eachStep (program.lowerType limit) program.types.sorted {}
  let enums := eachStep (program.lowerEnum limit) program.enums.sorted types.2
  let constants := eachStep (program.lowerConstant limit) program.consts.sorted enums.2
  have members := program.sameMembers_refl limit
  have henums : types.2.stats.depthExceeded ≤ enums.2.stats.depthExceeded :=
    ((eachEnum_same (Nat.le_refl limit) members).tallies types.2 (Nat.zero_le _)).le
  have hconstants : enums.2.stats.depthExceeded ≤ constants.2.stats.depthExceeded :=
    ((eachConstant_same (Nat.le_refl limit) members).tallies enums.2 (Nat.zero_le _)).le
  have hend : constants.2.stats.depthExceeded = 0 := uncut
  show types.2.stats.depthExceeded = 0
  omega

/-- Where nothing is cut every field is there, whatever became of the enumerations: a higher
limit makes no difference to the types but in the arguments of their annotations. -/
theorem lower_types_raise (raise : limit ≤ higher)
    (uncut : (program.lower limit).stats.depthExceeded = 0) :
    (program.lower higher).schema.types.map (TypeDef.mapArguments fun _ => none) =
      (program.lower limit).schema.types.map (TypeDef.mapArguments fun _ => none) := by
  let types := eachStep (program.lowerType limit) program.types.sorted {}
  have huncut : types.2.stats.depthExceeded = 0 := types_uncut uncut
  have hfollows : (bare program limit higher).Follows
      (List.map (TypeDef.mapArguments fun _ => none)) 0
      (eachStep (program.lowerType limit) program.types.sorted)
      (eachStep (program.lowerType higher) program.types.sorted) :=
    .each fun decl _ => lowerType_follows raise decl
  have hsame := (hfollows.alike {} {} (Nat.le_refl 0) ⟨trivial, rfl, rfl⟩ huncut).1
  have hsorted := map_sortByName (TypeDef.mapArguments_name fun _ => none)
  calc (sortByName TypeDef.name _).map (TypeDef.mapArguments fun _ => none)
      = sortByName TypeDef.name (types.1.map (TypeDef.mapArguments fun _ => none)) := by
        rw [hsorted, hsame]
    _ = (sortByName TypeDef.name types.1).map (TypeDef.mapArguments fun _ => none) :=
        (hsorted types.1).symm

/-- Where a run counts no cut and its enumerations are not shortened, every higher limit
gives the same schema, the same counters and the same log. -/
theorem lower_eq_of_uncut (program : Program) {limit higher : Nat} (raise : limit ≤ higher)
    (whole : (program.lower limit).log.Whole)
    (uncut : (program.lower limit).stats.depthExceeded = 0) :
    program.lower higher = program.lower limit := by
  have hall := program.lowerAll_raise raise whole uncut
  simp only [lower, hall]

/-- An enumeration that spreads another one. -/
def enumChain : Program :=
  ({} : Program).declareEnum ((EnumDecl.called "A" .string).withSpread "B")
    |>.declareEnum ((EnumDecl.called "B" .string).withName "b")

/-- A spread of a type, an inline object and a member that comes by a spread. -/
def spreadsAndObjects : Program :=
  enumChain.declareType ((TypeDecl.called "Base").withField (.called "id" (.primitive "int")))
    |>.declareType (((TypeDecl.called "User").withSpread "Base").withField
        (.called "at" (.object (({} : InlineObject).withField (.called "x" (.primitive "int"))))))
    |>.declareConst (.called "list" (.array [.member "A" "b"]))

theorem lower_eq_of_uncut_spreadsAndObjects :
    spreadsAndObjects.lower 32 = spreadsAndObjects.lower 2 := by
  have whole : (spreadsAndObjects.lower 2).log.all (!·.isShortened) = true := by cbv
  refine lower_eq_of_uncut spreadsAndObjects (by decide) ?_ (by cbv)
  intro event hmem
  simpa using Array.all_eq_true_iff_forall_mem.mp whole event hmem

/-- The counter of a run is the number of cuts in its log: of literals, of cached constants,
of spreads of types and of inline objects. So a run that counts none has every field that a
higher limit gives. It has all the rest as well if no enumeration is shortened; that is
reported, but it is not among the cuts. -/
theorem uncut_has_all_fields (program : Program) (limit : Nat) :
    (program.lower limit).stats.depthExceeded = (program.lower limit).log.cuts ∧
      ((program.lower limit).stats.depthExceeded = 0 → ∀ higher, limit ≤ higher →
        (program.lower higher).schema.types.map (TypeDef.mapArguments fun _ => none) =
            (program.lower limit).schema.types.map (TypeDef.mapArguments fun _ => none) ∧
          ((program.lower limit).log.Whole → (program.lower higher).schema =
            (program.lower limit).schema)) := by
  refine ⟨program.depthExceeded_eq_cuts limit, fun uncut higher raise => ⟨?_, fun whole => ?_⟩⟩
  · exact lower_types_raise raise uncut
  · exact congrArg Prod.fst (lowerAll_raise raise whole uncut)

/-- A shortened enumeration is not counted. -/
theorem shortened_uncounted :
    (enumChain.lower 1).stats.depthExceeded = 0 ∧
      (enumChain.lower 1).log.any (·.isShortened) = true ∧
      (enumChain.lower 1).schema.enums.map (fun enum => (enum.name, enum.members.length)) =
        [("A", 0), ("B", 1)] ∧
      (enumChain.lower 2).schema.enums.map (fun enum => (enum.name, enum.members.length)) =
        [("A", 1), ("B", 1)] :=
  ⟨by cbv, by cbv, by cbv, by cbv⟩

end Program

end SchemaIR
