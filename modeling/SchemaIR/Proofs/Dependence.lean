import Mathlib
import SchemaIR.Program.Builder
import SchemaIR.Proofs.Faithful
import SchemaIR.Proofs.Termination

/-!
# A constant depends on what it reaches

Evaluation looks constants and enumerations up by name while it goes, and what it looks up next
hangs on what it has found, on the cache and on the constants that are open. Still it never looks
up anything but what the literals before it name. So it stays inside a region of the program that
is closed under references, under the enumerations that literals name members of and under the
spreads of these.

A second program that declares the same inside the region is therefore evaluated rule by rule in
the same way, and whatever else it declares makes no difference to the answer, nor to the counters
and the log. Where a region is not closed this breaks, since one reference that leads out of it
can be answered differently.
-/

namespace SchemaIR

/-! ## What literals name members of -/

/-- The enumeration that a reference with a member names. -/
def Reference.enums (target : Reference) : List String :=
  if target.member.isSome then [target.name] else []

mutual

/-- The enumerations of which a literal names a member, at any depth. A spread that names one adds
nothing and does not count. -/
def Literal.enums : Literal → List String
  | .reference target => target.enums
  | .object entries => entriesEnums entries
  | .array elements => elementsEnums elements
  | .string _ | .int _ | .float _ | .bool _ => []

/-- The enumerations of which some elements name a member. -/
def elementsEnums : List Literal → List String
  | [] => []
  | element :: rest => element.enums ++ elementsEnums rest

/-- The enumerations of which the fields among some entries name a member. -/
def entriesEnums : List LiteralEntry → List String
  | [] => []
  | .spread _ :: rest => entriesEnums rest
  | .field _ value :: rest => value.enums ++ entriesEnums rest

end

/-- The enumerations of which a query names a member itself. Those behind a constant are not
among them. -/
def Query.enums : Query → List String
  | .constant _ => []
  | .literal term => term.enums
  | .elements terms => elementsEnums terms
  | .entries parts => entriesEnums parts

/-! ## Regions -/

namespace Program

/-- The literal of a constant names a member of an enumeration. -/
def Mentions (program : Program) (name enum : String) : Prop :=
  ∃ literal, program.body? name = some literal ∧ enum ∈ literal.enums

/-- The enumeration under a key has a spread of what is under another one, declared or not. -/
def SpreadsTo (program : Program) (key target : String) : Prop :=
  ∃ decl, program.enums.find? key = some decl ∧
    ∃ spread ∈ decl.spreads, spread.member = none ∧ spread.name = target

/-- Names of constants and of enumerations that lead to no others. -/
structure Region (program : Program) where
  consts : Set String
  enums : Set String
  refers {name target : String} (inside : name ∈ consts) (h : program.Refers name target) :
    target ∈ consts
  mentions {name enum : String} (inside : name ∈ consts) (h : program.Mentions name enum) :
    enum ∈ enums
  spreads {key target : String} (inside : key ∈ enums) (h : program.SpreadsTo key target) :
    target ∈ enums

/-- All that a constant reaches: constants through references and spreads, and from the
enumerations that these name members of whatever spreads lead to. -/
def dependencies (program : Program) (name : String) : Region program where
  consts := { target | Relation.ReflTransGen program.Refers name target }
  enums := { key | ∃ constant enum, Relation.ReflTransGen program.Refers name constant ∧
    program.Mentions constant enum ∧ Relation.ReflTransGen program.SpreadsTo enum key }
  refers inside h := Relation.ReflTransGen.tail inside h
  mentions inside h := ⟨_, _, inside, h, .refl⟩
  spreads := by
    rintro key target ⟨constant, enum, hconstant, hmentions, hkey⟩ h
    exact ⟨constant, enum, hconstant, hmentions, hkey.tail h⟩

namespace Region

variable {program : Program}

/-- Of finitely many names it can be computed whether they are a region. -/
def ofLists (consts enums : List String)
    (literals : ∀ name ∈ consts, ∀ literal ∈ program.body? name,
      (∀ target ∈ literal.targets, target ∈ consts) ∧ ∀ enum ∈ literal.enums, enum ∈ enums)
    (spreads : ∀ key ∈ enums, ∀ decl ∈ program.enums.find? key, ∀ spread ∈ decl.spreads,
      spread.member = none → spread.name ∈ enums) : Region program where
  consts := { name | name ∈ consts }
  enums := { key | key ∈ enums }
  refers inside := by
    rintro ⟨literal, hbody, htarget⟩
    exact (literals _ inside literal hbody).1 _ htarget
  mentions inside := by
    rintro ⟨literal, hbody, henum⟩
    exact (literals _ inside literal hbody).2 _ henum
  spreads inside := by
    rintro ⟨decl, found, spread, hspread, plain, rfl⟩
    exact spreads _ inside decl found spread hspread plain

/-- The other program declares the same under every name in the region, or nothing as well. -/
structure Agrees (region : Region program) (other : Program) : Prop where
  consts : ∀ name ∈ region.consts, program.consts.find? name = other.consts.find? name
  enums : ∀ key ∈ region.enums, program.enums.find? key = other.enums.find? key

/-- The names that a query starts from are in the region. -/
structure Covers (region : Region program) (query : Query) : Prop where
  consts : ∀ name ∈ query.targets, name ∈ region.consts
  enums : ∀ enum ∈ query.enums, enum ∈ region.enums

/-- The spreads of an expansion lead into the region. -/
def CoversSpreads (region : Region program) (spreads : List Reference) : Prop :=
  ∀ spread ∈ spreads, spread.member = none → spread.name ∈ region.enums

variable {region : Region program} {name : String}

theorem mem_of_reaches {names : Set String} {leads : String → String → Prop} {start target : String}
    (closed : ∀ {name next}, name ∈ names → leads name next → next ∈ names)
    (inside : start ∈ names) (h : Relation.ReflTransGen leads start target) : target ∈ names := by
  induction h with
  | refl => exact inside
  | tail _ next ih => exact closed ih next

/-- Every region with the constant in it has all that the constant reaches. -/
theorem Agrees.dependencies {other : Program} (h : region.Agrees other)
    (inside : name ∈ region.consts) : (program.dependencies name).Agrees other := by
  constructor
  · intro target htarget
    exact h.consts target (mem_of_reaches region.refers inside htarget)
  · rintro key ⟨constant, enum, hconstant, hmentions, hkey⟩
    have hinside := mem_of_reaches region.refers inside hconstant
    have henum := region.mentions hinside hmentions
    exact h.enums key (mem_of_reaches region.spreads henum hkey)

theorem covers_body {decl : ConstDecl} {literal : Literal} (inside : name ∈ region.consts)
    (found : program.consts.find? name = some decl) (body : decl.value = some literal) :
    region.Covers (.literal literal) := by
  have hbody : program.body? name = some literal := (body?_of_find? found).trans body
  constructor
  · exact fun target htarget => region.refers inside ⟨literal, hbody, htarget⟩
  · exact fun enum henum => region.mentions inside ⟨literal, hbody, henum⟩

theorem covers_spreads {key : String} {decl : EnumDecl} (inside : key ∈ region.enums)
    (found : program.enums.find? key = some decl) : region.CoversSpreads decl.spreads := by
  intro spread hspread plain
  exact region.spreads inside ⟨decl, found, spread, hspread, plain, rfl⟩

theorem CoversSpreads.head {spread : Reference} {rest : List Reference}
    (h : region.CoversSpreads (spread :: rest)) (plain : spread.member.isSome = false) :
    spread.name ∈ region.enums := by
  rw [Option.isSome_eq_false_iff, Option.isNone_iff_eq_none] at plain
  exact h spread List.mem_cons_self plain

theorem CoversSpreads.tail {spread : Reference} {rest : List Reference}
    (h : region.CoversSpreads (spread :: rest)) : region.CoversSpreads rest :=
  (List.forall_mem_cons.mp h).2

namespace Covers

variable {literal : Literal} {target : Reference} {key : String}

theorem reference (h : region.Covers (.literal (.reference target)))
    (plain : target.member = none) : region.Covers (.constant target.name) := by
  refine ⟨fun name hname => h.consts name ?_, fun _ henum => absurd henum List.not_mem_nil⟩
  simpa [Query.targets, Literal.targets, Reference.targets, plain] using hname

theorem member {member : String} (h : region.Covers (.literal (.reference target)))
    (named : target.member = some member) : target.name ∈ region.enums :=
  h.enums target.name (by simp [Query.enums, Literal.enums, Reference.enums, named])

theorem split {query first more : Query} (h : region.Covers query)
    (htargets : query.targets = first.targets ++ more.targets)
    (henums : query.enums = first.enums ++ more.enums) :
    region.Covers first ∧ region.Covers more := by
  obtain ⟨hconsts, hmembers⟩ := h
  rw [htargets, List.forall_mem_append] at hconsts
  rw [henums, List.forall_mem_append] at hmembers
  exact ⟨⟨hconsts.1, hmembers.1⟩, ⟨hconsts.2, hmembers.2⟩⟩

theorem elements {rest : List Literal} (h : region.Covers (.elements (literal :: rest))) :
    region.Covers (.literal literal) ∧ region.Covers (.elements rest) :=
  h.split rfl rfl

theorem field {rest : List LiteralEntry}
    (h : region.Covers (.entries (.field key literal :: rest))) :
    region.Covers (.literal literal) ∧ region.Covers (.entries rest) :=
  h.split rfl rfl

theorem spread {rest : List LiteralEntry} (h : region.Covers (.entries (.spread target :: rest)))
    (plain : target.member = none) :
    region.Covers (.constant target.name) ∧ region.Covers (.entries rest) := by
  refine h.split ?_ rfl
  simp only [Query.targets, entriesTargets, Reference.targets, plain]

theorem memberSpread {rest : List LiteralEntry}
    (h : region.Covers (.entries (.spread target :: rest))) : region.Covers (.entries rest) := by
  refine ⟨fun name hname => h.consts name ?_, h.enums⟩
  exact List.mem_append_right target.targets hname

end Covers

end Region

end Program

/-! ## Two programs beside each other -/

open Program (Region)

/-- The spreads that a query for members goes into lead into the region. -/
def MemberQuery.Within {program : Program} (region : Region program) : MemberQuery → Prop
  | .enumeration decl => region.CoversSpreads decl.spreads
  | .spreads _ items => region.CoversSpreads items

section Agreement

variable {program other : Program} {region : Region program} {limit : Nat}

theorem Gathers.carried (agrees : region.Agrees other) {query : MemberQuery} {walk walk' : Walk}
    {members : List MemberDecl} (run : Gathers program limit query walk members walk')
    (within : query.Within region) : Gathers other limit query walk members walk' := by
  induction run with
  | expansion _ ih => exact .expansion (ih within)
  | noSpreads => exact .noSpreads
  | memberSpread named _ ih => exact .memberSpread named (ih within.tail)
  | circularSpread plain busy _ ih => exact .circularSpread plain busy (ih within.tail)
  | undeclaredSpread plain idle absent _ ih =>
      rw [agrees.enums _ (within.head plain)] at absent
      exact .undeclaredSpread plain idle absent (ih within.tail)
  | refusedSpread plain idle found full _ ih =>
      rw [agrees.enums _ (within.head plain)] at found
      exact .refusedSpread plain idle found full (ih within.tail)
  | spread plain idle found room _ _ ih₁ ih₂ =>
      have hkey := within.head plain
      have hinside := ih₁ (Region.covers_spreads hkey found)
      rw [agrees.enums _ hkey] at found
      exact .spread plain idle found room hinside (ih₂ within.tail)

variable (keyed : ∀ key decl, program.enums.find? key = some decl → decl.name = key)
  (keyed' : ∀ key decl, other.enums.find? key = some decl → decl.name = key)

include keyed keyed'

/-- The expansions are runs, and a run inside the region is one of either program. -/
theorem Program.Region.Agrees.enumMembers_eq (agrees : region.Agrees other) {decl : EnumDecl}
    (within : region.CoversSpreads decl.spreads) :
    program.enumMembers limit decl = other.enumMembers limit decl := by
  have hrun := (Gathers.of_enumMembers keyed limit decl).carried agrees within
  generalize program.enumMembers limit decl = expansion at hrun ⊢
  have hcomputed := hrun.computed keyed' (other.enums.size + 1)
    (Nat.lt_succ_of_le (other.enums.unlisted_le_size _))
  simp only [MemberQuery.gather] at hcomputed
  simp only [Program.enumMembers, hcomputed]

theorem Program.Region.Agrees.member_eq (agrees : region.Agrees other) {enum : String}
    (inside : enum ∈ region.enums) :
    program.memberValue? limit enum = other.memberValue? limit enum ∧
      program.memberEvents limit enum = other.memberEvents limit enum := by
  have hsame := agrees.enums enum inside
  unfold Program.memberValue? Program.memberEvents
  rw [← hsame]
  cases found : program.enums.find? enum with
  | none => simp only [Option.bind_none, and_self]
  | some decl =>
      have hmembers : program.enumMembers limit decl = other.enumMembers limit decl :=
        agrees.enumMembers_eq keyed keyed' (Region.covers_spreads inside found)
      simp only [hmembers, Option.bind_some, and_self]

/-- Rule by rule, an evaluation that starts inside the region is one of the other program. -/
theorem Evaluates.carried (agrees : region.Agrees other) {query : Query} {st st' : Resolver}
    {answer : query.Answer} (run : Evaluates program limit query st answer st')
    (within : region.Covers query) : Evaluates other limit query st answer st' := by
  induction run with
  | cached hit fits => exact .cached hit fits
  | withheld hit deep => exact .withheld hit deep
  | undeclared miss absent =>
      rw [agrees.consts _ (within.consts _ List.mem_cons_self)] at absent
      exact .undeclared miss absent
  | circular miss found busy =>
      rw [agrees.consts _ (within.consts _ List.mem_cons_self)] at found
      exact .circular miss found busy
  | valueless miss found idle bare =>
      rw [agrees.consts _ (within.consts _ List.mem_cons_self)] at found
      exact .valueless miss found idle bare
  | visited miss found idle body _ ih =>
      have inside := within.consts _ List.mem_cons_self
      have hbody := ih (Region.covers_body inside found body)
      rw [agrees.consts _ inside] at found
      exact .visited miss found idle body hbody
  | reference plain _ ih => exact .reference plain (ih (within.reference plain))
  | member named =>
      obtain ⟨hvalue, hevents⟩ := agrees.member_eq keyed keyed' (within.member named)
      rw [hvalue, hevents]
      exact .member named
  | tooDeep opens full => exact .tooDeep opens full
  | scalar room plain => exact .scalar room plain
  | object room _ ih => exact .object room (ih ⟨within.consts, within.enums⟩)
  | array room _ ih => exact .array room (ih ⟨within.consts, within.enums⟩)
  | noElements => exact .noElements
  | element _ _ ih₁ ih₂ => exact .element (ih₁ within.elements.1) (ih₂ within.elements.2)
  | noEntries => exact .noEntries
  | field _ _ ih₁ ih₂ => exact .field (ih₁ within.field.1) (ih₂ within.field.2)
  | spread plain _ _ ih₁ ih₂ =>
      obtain ⟨hfirst, hmore⟩ := within.spread plain
      exact .spread plain (ih₁ hfirst) (ih₂ hmore)
  | memberSpread named _ ih => exact .memberSpread named (ih within.memberSpread)

end Agreement

namespace Program

/-- A constant's value depends on what the constant reaches: programs that declare the same there
give the same answer and end in the same state, with the same counters, cache and log. This holds
from any state, and whether or not the references go round in a circle. -/
theorem resolveConstant_eq_of_dependencies (program other : Program) (limit : Nat) (name : String)
    (keyed : ∀ key decl, program.enums.find? key = some decl → decl.name = key)
    (keyed' : ∀ key decl, other.enums.find? key = some decl → decl.name = key)
    (agrees : (program.dependencies name).Agrees other) (st : Resolver) :
    program.resolveConstant limit name st = other.resolveConstant limit name st := by
  have within : (program.dependencies name).Covers (.constant name) := by
    refine ⟨fun target htarget => ?_, fun _ henum => absurd henum List.not_mem_nil⟩
    rw [List.mem_singleton.mp htarget]
    exact Relation.ReflTransGen.refl
  have hrun : Evaluates program limit (.constant name) st
      (program.resolveConstant limit name st).1 (program.resolveConstant limit name st).2 :=
    program.evaluates_answer limit (.constant name) st
  exact (answer_eq_iff.mpr (hrun.carried keyed keyed' agrees within)).symm

/-- A constant and the one that it contains refer to each other, and so do the enumerations on
the way to a member. -/
def harbour : Program :=
  ({} : Program).declareEnum ((EnumDecl.called "Status" .string).withSpread "Common")
    |>.declareEnum (((EnumDecl.called "Common" .string).withSpread "Status").withName "Open")
    |>.declareConst (.called "base" (.object [.field "depth" (.int "3")]))
    |>.declareConst (.called "fleet" (.object [.spreading "base",
        .field "status" (.member "Status" "Open"), .field "route" (.constant "route")]))
    |>.declareConst (.called "route" (.array [.constant "fleet", .constant "nowhere"]))
    |>.declareConst (.called "crew" (.int "7"))

/-- Another constant under a name that is not reached, and more beside it. -/
def busyHarbour : Program :=
  harbour.declareConst (.called "crew" (.array [.constant "fleet"]))
    |>.declareConst (.called "guests" (.member "Guests" "Few"))
    |>.declareEnum ((EnumDecl.called "Guests" .int).withSpread "Status")
    |>.declareType (.called "Ship")

/-- Where the evaluation of `fleet` stays. -/
def harbourRegion : Region harbour :=
  .ofLists ["base", "fleet", "nowhere", "route"] ["Common", "Status"] (by decide) (by decide)

theorem resolveConstant_eq_of_dependencies_harbour :
    (harbour.resolveConstant 4 "crew" {}).1 = some (.int 7) ∧
      (busyHarbour.resolveConstant 4 "crew" {}).1 ≠ some (.int 7) ∧
      harbour.resolveConstant 4 "fleet" {} = busyHarbour.resolveConstant 4 "fleet" {} ∧
      (harbour.resolveConstant 4 "fleet" {}).1 = some (.object
        [("depth", .int 3), ("status", .string "Open"), ("route", .array [])]) ∧
      (harbour.resolveConstant 4 "fleet" {}).2.stats.cyclesBroken = 1 := by
  have keyed : ∀ entry ∈ harbour.enums.entries, entry.2.name = entry.1 := by decide
  have keyed' : ∀ entry ∈ busyHarbour.enums.entries, entry.2.name = entry.1 := by decide
  have agrees : harbourRegion.Agrees busyHarbour := by
    constructor
    · show ∀ name ∈ ["base", "fleet", "nowhere", "route"], _
      simp only [List.forall_mem_cons]
      exact ⟨rfl, rfl, rfl, rfl, List.forall_mem_nil _⟩
    · show ∀ key ∈ ["Common", "Status"], _
      simp only [List.forall_mem_cons]
      exact ⟨rfl, rfl, List.forall_mem_nil _⟩
  have inside : "fleet" ∈ ["base", "fleet", "nowhere", "route"] := by decide
  refine ⟨by cbv, by cbv; simp, ?_, by cbv, by cbv⟩
  exact resolveConstant_eq_of_dependencies harbour busyHarbour 4 "fleet"
    (fun _ _ found => keyed _ (Table.mem_of_find? found))
    (fun _ _ found => keyed' _ (Table.mem_of_find? found)) (agrees.dependencies inside) {}

end Program

end SchemaIR
