import Mathlib
import SchemaIR.Program.Builder
import SchemaIR.Proofs.Termination

/-!
# The routes along which members are inherited

The expansion of an enumeration is a search. It goes into one spread after the other, keeps the
enumerations that it is inside of in a chain, and takes each of them off again when it is through
with it. What it brings back can be said without a search.

A route follows one spread at each enumeration, by its position. For every route that comes to no
enumeration twice, and to no more of them than the limit allows, an expansion has the own members
of the enumeration where the route ends. A route comes after all that go on from it, and where
two routes part, the one that takes the earlier spread comes first. Routes are told apart by
positions and not by names, so what is spread twice is there twice.
-/

namespace SchemaIR

/-- The position of the spread to follow at each enumeration. -/
abbrev Route := List Nat

namespace Route

/-- The order in which routes are searched. Whatever goes on from a route comes before it. -/
def Before : Route → Route → Prop
  | [], _ => False
  | _ :: _, [] => True
  | position :: rest, other :: rest' => position < other ∨ position = other ∧ Before rest rest'

/-- The route that starts one spread further on. -/
def bump : Route → Route
  | [] => []
  | position :: rest => (position + 1) :: rest

theorem before_nil {route : Route} (h : route ≠ []) : route.Before [] := by
  cases route with
  | nil => exact absurd rfl h
  | cons position rest => trivial

theorem before_cons {route other : Route} (position : Nat) (h : route.Before other) :
    Before (position :: route) (position :: other) :=
  .inr ⟨rfl, h⟩

theorem before_bump {route other : Route} (h : route.Before other) :
    route.bump.Before other.bump := by
  cases route with
  | nil => exact h.elim
  | cons position rest =>
      cases other with
      | nil => trivial
      | cons position' rest' =>
          rcases h with hlt | ⟨rfl, hrest⟩
          · exact .inl (Nat.succ_lt_succ hlt)
          · exact .inr ⟨rfl, hrest⟩

theorem before_irrefl (route : Route) : ¬ route.Before route := by
  induction route with
  | nil => exact id
  | cons position rest ih =>
      rintro (hlt | ⟨-, h⟩)
      · exact Nat.lt_irrefl _ hlt
      · exact ih h

theorem before_asymm {route other : Route} (h : route.Before other) : ¬ other.Before route := by
  induction route generalizing other with
  | nil => exact h.elim
  | cons position rest ih =>
      cases other with
      | nil => exact id
      | cons position' rest' =>
          rcases h with hlt | ⟨rfl, hrest⟩
          · rintro (hgt | ⟨heq, -⟩) <;> omega
          · rintro (hgt | ⟨-, hback⟩)
            · exact Nat.lt_irrefl _ hgt
            · exact ih hrest hback

instance : Std.Irrefl Before := ⟨before_irrefl⟩

instance : Std.Antisymm Before := ⟨fun _ _ h h' => absurd h' (before_asymm h)⟩

/-- The routes that are followed, in the order of the search, and the members that they bring. -/
structure Survey (followed : Route → Prop) (bring : Route → List MemberDecl) (routes : List Route)
    (members : List MemberDecl) : Prop where
  exact : ∀ route, route ∈ routes ↔ followed route
  ordered : routes.Pairwise Before
  brought : members = routes.flatMap bring

namespace Survey

variable {followed : Route → Prop} {bring : Route → List MemberDecl}
  {routes first others : List Route} {members front back : List MemberDecl}

theorem congr {followed' : Route → Prop} {bring' : Route → List MemberDecl}
    (h : Survey followed bring routes members) (same : ∀ route, followed route ↔ followed' route)
    (alike : ∀ route, followed route → bring route = bring' route) :
    Survey followed' bring' routes members where
  exact route := (h.exact route).trans (same route)
  ordered := h.ordered
  brought := by
    rw [h.brought]
    exact List.flatMap_congr fun route hroute => alike route ((h.exact route).mp hroute)

theorem none (h : ∀ route, ¬ followed route) : Survey followed bring [] [] where
  exact route := iff_of_false List.not_mem_nil (h route)
  ordered := .nil
  brought := rfl

/-- Routes through the first spread come before those through the others. -/
theorem cons (start : ¬ followed [])
    (here : Survey (fun rest => followed (0 :: rest)) (fun rest => bring (0 :: rest)) first front)
    (there : Survey (fun route => followed route.bump) (fun route => bring route.bump) others
      back) :
    Survey followed bring (first.map (0 :: ·) ++ others.map bump) (front ++ back) where
  exact route := by
    rw [List.mem_append, List.mem_map, List.mem_map]
    constructor
    · rintro (⟨rest, hrest, rfl⟩ | ⟨other, hother, rfl⟩)
      · exact (here.exact rest).mp hrest
      · exact (there.exact other).mp hother
    · intro hroute
      rcases route with _ | ⟨_ | position, rest⟩
      · exact absurd hroute start
      · exact .inl ⟨rest, (here.exact rest).mpr hroute, rfl⟩
      · exact .inr ⟨position :: rest, (there.exact (position :: rest)).mpr hroute, rfl⟩
  ordered := by
    rw [List.pairwise_append, List.pairwise_map, List.pairwise_map]
    refine ⟨here.ordered.imp fun h => before_cons 0 h, there.ordered.imp before_bump, ?_⟩
    intro route hroute other hother
    obtain ⟨rest, -, rfl⟩ := List.mem_map.mp hroute
    obtain ⟨later, hlater, rfl⟩ := List.mem_map.mp hother
    cases later with
    | nil => exact absurd ((there.exact []).mp hlater) start
    | cons position rest' => exact .inl (Nat.succ_pos position)
  brought := by
    rw [List.flatMap_append, List.flatMap_map, List.flatMap_map, here.brought, there.brought]

/-- The route that stays where it is comes last. -/
theorem snoc (start : followed [])
    (onward : Survey (fun route => route ≠ [] ∧ followed route) bring routes members) :
    Survey followed bring (routes ++ [[]]) (members ++ bring []) where
  exact route := by
    rw [List.mem_append, List.mem_singleton, onward.exact]
    constructor
    · rintro (⟨-, hroute⟩ | rfl)
      · exact hroute
      · exact start
    · intro hroute
      by_cases h : route = []
      · exact .inr h
      · exact .inl ⟨h, hroute⟩
  ordered := by
    rw [List.pairwise_append]
    refine ⟨onward.ordered, List.pairwise_singleton _ _, ?_⟩
    intro route hroute other hother
    rw [List.mem_singleton] at hother
    subst hother
    exact before_nil ((onward.exact route).mp hroute).1
  brought := by rw [List.flatMap_append, List.flatMap_singleton, onward.brought]

end Survey

end Route

/-! ## Where routes lead -/

namespace Program

/-- The enumeration that a spread leads to. A spread that names a member leads nowhere. -/
def spreadTarget? (program : Program) (spread : Reference) : Option EnumDecl :=
  if spread.member.isSome then none else program.enums.find? spread.name

/-- The enumeration that the spread at a position leads to. -/
def targetAt? (program : Program) (spreads : List Reference) (position : Nat) : Option EnumDecl :=
  spreads[position]?.bind program.spreadTarget?

/-- The enumerations that a route comes to, from the one where it starts. -/
def along? (program : Program) : EnumDecl → Route → Option (List EnumDecl)
  | decl, [] => some [decl]
  | decl, position :: rest => (program.targetAt? decl.spreads position).bind fun target =>
      (program.along? target rest).map (decl :: ·)

/-- The enumeration where a route ends, if there is a spread at every step of it. -/
def end? (program : Program) (decl : EnumDecl) (route : Route) : Option EnumDecl :=
  (program.along? decl route).bind List.getLast?

/-- The own members of the enumeration where a route ends. -/
def membersAt (program : Program) (decl : EnumDecl) (route : Route) : List MemberDecl :=
  (program.end? decl route).elim [] EnumDecl.members

/-- Whether a route ends at the enumeration of a name. -/
def endsAt (program : Program) (decl : EnumDecl) (name : String) (route : Route) : Bool :=
  (program.end? decl route).any (·.name = name)

/-- A route that comes to no enumeration twice, and to at most `limit` of them if it leads
anywhere. -/
def SimpleRoute (program : Program) (limit : Nat) (decl : EnumDecl) (route : Route) : Prop :=
  ∃ enums, program.along? decl route = some enums ∧ (enums.map (·.name)).Nodup ∧
    enums.length ≤ max 1 limit

variable {program : Program} {limit : Nat} {decl target : EnumDecl} {route rest : Route}
  {position : Nat} {enums : List EnumDecl}

theorem find?_of_spreadTarget? {spread : Reference}
    (h : program.spreadTarget? spread = some target) :
    program.enums.find? spread.name = some target := by
  rw [spreadTarget?] at h
  split at h
  · cases h
  · exact h

theorem along?_cons_eq_some_iff :
    program.along? decl (position :: rest) = some enums ↔
      ∃ target others, program.targetAt? decl.spreads position = some target ∧
        program.along? target rest = some others ∧ enums = decl :: others := by
  rw [along?, Option.bind_eq_some_iff]
  simp only [Option.map_eq_some_iff, eq_comm (a := enums)]
  constructor
  · rintro ⟨target, htarget, others, hothers, rfl⟩
    exact ⟨target, others, htarget, hothers, rfl⟩
  · rintro ⟨target, others, htarget, hothers, rfl⟩
    exact ⟨target, htarget, others, hothers, rfl⟩

theorem along?_head (h : program.along? decl route = some enums) :
    ∃ others, enums = decl :: others := by
  cases route with
  | nil =>
      cases h
      exact ⟨[], rfl⟩
  | cons position rest =>
      obtain ⟨_, others, -, -, rfl⟩ := along?_cons_eq_some_iff.mp h
      exact ⟨others, rfl⟩

theorem length_along? (h : program.along? decl route = some enums) :
    enums.length = route.length + 1 := by
  induction route generalizing decl enums with
  | nil =>
      cases h
      rfl
  | cons position rest ih =>
      obtain ⟨_, others, -, hothers, rfl⟩ := along?_cons_eq_some_iff.mp h
      rw [List.length_cons, ih hothers, List.length_cons]

theorem end?_cons (leads : program.targetAt? decl.spreads position = some target) :
    program.end? decl (position :: rest) = program.end? target rest := by
  rw [end?, end?, along?, leads, Option.bind_some]
  cases h : program.along? target rest with
  | none => rfl
  | some enums =>
      obtain ⟨others, rfl⟩ := along?_head h
      rfl

theorem membersAt_cons (leads : program.targetAt? decl.spreads position = some target) :
    program.membersAt decl (position :: rest) = program.membersAt target rest := by
  rw [membersAt, membersAt, end?_cons leads]

/-! ## What the search follows -/

/-- From the end of a chain, where these spreads are, the search goes along a route. -/
def Searches (program : Program) (limit : Nat) : Path → List Reference → Route → Prop
  | _, _, [] => True
  | chain, spreads, position :: rest => ∃ target, program.targetAt? spreads position = some target ∧
      target.name ∉ chain ∧ chain.length < limit ∧
        program.Searches limit (target.name :: chain) target.spreads rest

/-- The search does not go where the chain has been and no further than the limit. -/
theorem searches_iff {chain : Path} :
    program.Searches limit (decl.name :: chain) decl.spreads route ↔
      ∃ enums, program.along? decl route = some enums ∧ (enums.map (·.name)).Nodup ∧
        (∀ enum ∈ enums.tail, enum.name ∉ chain) ∧
          (route = [] ∨ chain.length + enums.length ≤ limit) := by
  induction route generalizing decl chain with
  | nil => exact iff_of_true trivial ⟨[decl], rfl, List.nodup_singleton _, by simp, .inl rfl⟩
  | cons position rest ih =>
      constructor
      · rintro ⟨target, htarget, fresh, room, searches⟩
        obtain ⟨others, hothers, distinct, apart, short⟩ := ih.mp searches
        obtain ⟨beyond, rfl⟩ := along?_head hothers
        have houtside : ∀ enum ∈ target :: beyond, enum.name ∉ decl.name :: chain :=
          List.forall_mem_cons.mpr ⟨fresh, apart⟩
        have hlength := length_along? hothers
        refine ⟨_, along?_cons_eq_some_iff.mpr ⟨target, _, htarget, hothers, rfl⟩, ?_, ?_, .inr ?_⟩
        · rw [List.map_cons, List.nodup_cons]
          refine ⟨fun hmem => ?_, distinct⟩
          obtain ⟨enum, henum, hname⟩ := List.mem_map.mp hmem
          exact houtside enum henum (hname ▸ List.mem_cons_self)
        · exact fun enum henum hmem => houtside enum henum (List.mem_cons_of_mem _ hmem)
        · rw [List.length_cons] at short room
          rcases short with rfl | short
          · rw [List.length_cons, hlength, List.length_nil]
            omega
          · rw [List.length_cons]
            omega
      · rintro ⟨enums, henums, distinct, apart, short⟩
        obtain ⟨target, others, htarget, hothers, rfl⟩ := along?_cons_eq_some_iff.mp henums
        obtain ⟨beyond, rfl⟩ := along?_head hothers
        rw [List.map_cons, List.nodup_cons] at distinct
        have houtside : ∀ enum ∈ target :: beyond, enum.name ∉ decl.name :: chain := by
          intro enum henum hmem
          rcases List.mem_cons.mp hmem with hname | hmem
          · exact distinct.1 (hname ▸ List.mem_map_of_mem henum)
          · exact apart enum henum hmem
        have hshort := short.resolve_left (List.cons_ne_nil _ _)
        simp only [List.length_cons] at hshort
        refine ⟨target, htarget, houtside target List.mem_cons_self, ?_, ih.mpr ⟨_, hothers,
          distinct.2, fun enum henum => houtside enum (List.mem_cons_of_mem _ henum), .inr ?_⟩⟩
        · rw [List.length_cons]
          omega
        · simp only [List.length_cons]
          omega

theorem searches_iff_simple :
    program.Searches limit [decl.name] decl.spreads route ↔
      program.SimpleRoute limit decl route := by
  rw [searches_iff, SimpleRoute]
  refine exists_congr fun enums => and_congr_right fun henums => and_congr_right fun _ => ?_
  have hlength := length_along? henums
  constructor
  · rintro ⟨-, rfl | short⟩
    · rw [hlength]
      exact le_max_left 1 limit
    · rw [List.length_nil] at short
      omega
  · intro short
    refine ⟨fun enum _ => List.not_mem_nil, ?_⟩
    cases route with
    | nil => exact .inl rfl
    | cons position rest =>
        right
        rw [List.length_cons] at hlength
        rw [List.length_nil]
        omega

theorem targetAt?_first {spread : Reference} (spreads : List Reference)
    (plain : spread.member.isSome = false) :
    program.targetAt? (spread :: spreads) 0 = program.enums.find? spread.name := by
  show program.spreadTarget? spread = _
  rw [spreadTarget?, plain, if_neg Bool.false_ne_true]

/-- What a route brings that starts with one of these spreads. -/
def membersBeyond (program : Program) (spreads : List Reference) : Route → List MemberDecl
  | [] => []
  | position :: rest => (program.targetAt? spreads position).elim [] (program.membersAt · rest)

/-- The routes from the end of a chain that start with one of these spreads. -/
def Onward (program : Program) (limit : Nat) (chain : Path) (spreads : List Reference)
    (route : Route) : Prop :=
  route ≠ [] ∧ program.Searches limit chain spreads route

variable {chain : Path} {spread : Reference} {spreads : List Reference}
  {first others : List Route} {front back members : List MemberDecl}

theorem onward_bump :
    program.Onward limit chain (spread :: spreads) route.bump ↔
      program.Onward limit chain spreads route := by
  cases route with
  | nil => exact iff_of_false (fun h => h.1 rfl) (fun h => h.1 rfl)
  | cons position rest =>
      exact and_congr (iff_of_true (List.cons_ne_nil _ _) (List.cons_ne_nil _ _)) Iff.rfl

theorem membersBeyond_bump :
    program.membersBeyond (spread :: spreads) route.bump = program.membersBeyond spreads route := by
  cases route <;> rfl

theorem survey_cons
    (here : Route.Survey (fun rest => program.Onward limit chain (spread :: spreads) (0 :: rest))
      (fun rest => program.membersBeyond (spread :: spreads) (0 :: rest)) first front)
    (there : Route.Survey (program.Onward limit chain spreads) (program.membersBeyond spreads)
      others back) :
    ∃ routes, Route.Survey (program.Onward limit chain (spread :: spreads))
      (program.membersBeyond (spread :: spreads)) routes (front ++ back) :=
  ⟨_, .cons (fun h => h.1 rfl) here
    (there.congr (fun _ => onward_bump.symm) fun _ _ => membersBeyond_bump.symm)⟩

/-- A spread that is not gone into brings nothing. -/
theorem survey_skip (closed : ∀ rest, ¬ program.Onward limit chain (spread :: spreads) (0 :: rest))
    (there : ∃ routes, Route.Survey (program.Onward limit chain spreads)
      (program.membersBeyond spreads) routes members) :
    ∃ routes, Route.Survey (program.Onward limit chain (spread :: spreads))
      (program.membersBeyond (spread :: spreads)) routes members := by
  obtain ⟨routes, there⟩ := there
  exact survey_cons (.none closed) there

end Program

/-- What a query to the expansion is answered with, told by routes. -/
def MemberQuery.Surveyed (program : Program) (limit : Nat) (chain : Path)
    (members : List MemberDecl) : MemberQuery → Prop
  | .enumeration decl => ∃ routes,
      Route.Survey (program.Searches limit (decl.name :: chain) decl.spreads)
        (program.membersAt decl) routes members
  | .spreads _ items => ∃ routes,
      Route.Survey (program.Onward limit chain items) (program.membersBeyond items) routes members

theorem Gathers.surveyed {program : Program} {limit : Nat} {query : MemberQuery} {walk walk' : Walk}
    {members : List MemberDecl}
    (keyed : ∀ key decl, program.enums.find? key = some decl → decl.name = key)
    (run : Gathers program limit query walk members walk') (fresh : query.Idle walk) :
    query.Surveyed program limit walk.path members := by
  induction run with
  | @expansion decl walk _ _ _ ih =>
      obtain ⟨routes, onward⟩ := ih trivial
      have hpath : (walk.enter decl.name).path = decl.name :: walk.path := Path.enter_idle fresh
      rw [hpath] at onward
      refine ⟨_, Route.Survey.snoc trivial (onward.congr (fun _ => Iff.rfl) ?_)⟩
      rintro (_ | ⟨position, rest⟩) ⟨hroute, hsearch⟩
      · exact absurd rfl hroute
      · obtain ⟨target, htarget, -⟩ := hsearch
        rw [Program.membersAt_cons htarget, Program.membersBeyond, htarget, Option.elim_some]
  | noSpreads =>
      refine ⟨_, .none ?_⟩
      rintro (_ | ⟨position, rest⟩) ⟨hroute, hsearch⟩
      · exact hroute rfl
      · obtain ⟨_, htarget, -⟩ := hsearch
        cases htarget
  | @memberSpread _ spread _ _ _ _ named _ ih =>
      refine Program.survey_skip ?_ (ih trivial)
      rintro rest ⟨-, target, htarget, -⟩
      have hnone : program.spreadTarget? spread = some target := htarget
      rw [Program.spreadTarget?, if_pos named] at hnone
      cases hnone
  | circularSpread plain busy _ ih =>
      refine Program.survey_skip ?_ (ih trivial)
      rintro rest ⟨-, target, htarget, fresh, -⟩
      rw [Program.targetAt?_first _ plain] at htarget
      exact fresh (keyed _ _ htarget ▸ busy)
  | undeclaredSpread plain idle absent _ ih =>
      refine Program.survey_skip ?_ (ih trivial)
      rintro rest ⟨-, target, htarget, -⟩
      rw [Program.targetAt?_first _ plain, absent] at htarget
      cases htarget
  | refusedSpread plain idle found full _ ih =>
      refine Program.survey_skip ?_ (ih trivial)
      rintro rest ⟨-, target, -, -, room, -⟩
      exact Nat.not_le.mpr room full
  | @spread _ spread rest target walk walk₁ _ _ _ plain idle found room run _ ih₁ ih₂ =>
      have hidle : target.name ∉ walk.path := keyed _ _ found ▸ idle
      have htarget : program.targetAt? (spread :: rest) 0 = some target :=
        (Program.targetAt?_first rest plain).trans found
      obtain ⟨first, here⟩ := ih₁ hidle
      obtain ⟨others, there⟩ := ih₂ trivial
      -- The target is off the chain again when the other spreads have their turn.
      rw [run.frame keyed hidle] at there
      refine Program.survey_cons (here.congr (fun route => ?_) fun route _ => ?_) there
      · constructor
        · exact fun searches => ⟨List.cons_ne_nil _ _, target, htarget, hidle, room, searches⟩
        · rintro ⟨-, other, hother, -, -, searches⟩
          obtain rfl := Option.some.inj (htarget.symm.trans hother)
          exact searches
      · rw [Program.membersBeyond, htarget, Option.elim_some]

/-! ## How often an enumeration contributes -/

/-- One more copy of what stands under a key. -/
theorem Table.perm_flatMap_replicate {α β : Type} (table : Table α) (contents : α → List β)
    (count count' : String → Nat) {key : String} {value : α}
    (found : table.find? key = some value) (there : count' key = count key + 1)
    (elsewhere : ∀ other, other ≠ key → count' other = count other) :
    (table.entries.flatMap fun entry =>
        (List.replicate (count' entry.1) (contents entry.2)).flatten).Perm
      (contents value ++ table.entries.flatMap fun entry =>
        (List.replicate (count entry.1) (contents entry.2)).flatten) := by
  obtain ⟨before, after, hsplit⟩ := List.append_of_mem (Table.mem_of_find? found)
  have hnodup := table.nodup
  rw [hsplit, List.map_append, List.map_cons, List.nodup_append, List.nodup_cons] at hnodup
  obtain ⟨-, ⟨hafter, -⟩, hbefore⟩ := hnodup
  have hsame : ∀ entries : List (String × α), (∀ entry ∈ entries, entry.1 ≠ key) →
      (entries.flatMap fun entry => (List.replicate (count' entry.1) (contents entry.2)).flatten) =
        entries.flatMap fun entry =>
          (List.replicate (count entry.1) (contents entry.2)).flatten := by
    intro entries hother
    refine List.flatMap_congr fun entry hentry => ?_
    rw [elsewhere entry.1 (hother entry hentry)]
  have hfront : ∀ entry ∈ before, entry.1 ≠ key := fun entry hentry =>
    hbefore entry.1 (List.mem_map_of_mem hentry) key List.mem_cons_self
  have hback : ∀ entry ∈ after, entry.1 ≠ key := by
    rintro entry hentry rfl
    have hkey : entry.1 ∈ after.map Prod.fst := List.mem_map_of_mem hentry
    exact hafter hkey
  rw [hsplit, List.flatMap_append, List.flatMap_append, List.flatMap_cons, List.flatMap_cons,
    hsame before hfront, hsame after hback, there, List.replicate_succ, List.flatten_cons,
    List.append_assoc]
  exact List.perm_append_comm_assoc _ _ _

namespace Program

variable {program : Program} {limit : Nat} {decl : EnumDecl} {route : Route}

/-- Where a route starts from a declared enumeration, it comes to declared ones only. -/
theorem along?_declared
    (keyed : ∀ key decl, program.enums.find? key = some decl → decl.name = key)
    (declared : program.enums.find? decl.name = some decl) {enums : List EnumDecl}
    (h : program.along? decl route = some enums) :
    ∀ enum ∈ enums, program.enums.find? enum.name = some enum := by
  induction route generalizing decl enums with
  | nil =>
      cases h
      exact List.forall_mem_singleton.mpr declared
  | cons position rest ih =>
      obtain ⟨target, others, htarget, hothers, rfl⟩ := along?_cons_eq_some_iff.mp h
      obtain ⟨spread, -, hspread⟩ := Option.bind_eq_some_iff.mp htarget
      have hfound := find?_of_spreadTarget? hspread
      exact List.forall_mem_cons.mpr ⟨declared, ih (keyed _ _ hfound ▸ hfound) hothers⟩

theorem exists_end? {enums : List EnumDecl} (h : program.along? decl route = some enums) :
    ∃ enum ∈ enums, program.end? decl route = some enum := by
  obtain ⟨others, rfl⟩ := along?_head h
  refine ⟨_, List.getLast_mem (List.cons_ne_nil decl others), ?_⟩
  rw [end?, h, Option.bind_some, List.getLast?_eq_some_getLast]

/-- Sorted by where they end, routes bring each enumeration once for every route to it. -/
theorem perm_of_ends {routes : List Route}
    (ends : ∀ route ∈ routes, ∃ enum, program.end? decl route = some enum ∧
      program.enums.find? enum.name = some enum) :
    (routes.flatMap (program.membersAt decl)).Perm (program.enums.entries.flatMap fun entry =>
      (List.replicate (routes.countP (program.endsAt decl entry.1)) entry.2.members).flatten) := by
  induction routes with
  | nil => simp
  | cons route rest ih =>
      obtain ⟨enum, hend, found⟩ := ends route List.mem_cons_self
      have hrest := ih fun other hother => ends other (List.mem_cons_of_mem _ hother)
      have hmembers : program.membersAt decl route = enum.members := by
        rw [membersAt, hend, Option.elim_some]
      have hcount : ∀ name, (route :: rest).countP (program.endsAt decl name) =
          rest.countP (program.endsAt decl name) + if enum.name = name then 1 else 0 := by
        intro name
        rw [List.countP_cons, endsAt, hend, Option.any_some]
        simp only [decide_eq_true_eq]
      have hone := Table.perm_flatMap_replicate program.enums EnumDecl.members
        (fun name => rest.countP (program.endsAt decl name))
        (fun name => (route :: rest).countP (program.endsAt decl name)) found
        (by rw [hcount, if_pos rfl])
        (fun other hother => by rw [hcount, if_neg (Ne.symm hother), Nat.add_zero])
      rw [List.flatMap_cons, hmembers]
      exact (hrest.append_left _).trans hone.symm

/-- An expansion surveys the simple routes. -/
theorem exists_survey
    (keyed : ∀ key decl, program.enums.find? key = some decl → decl.name = key) (limit : Nat)
    (decl : EnumDecl) :
    ∃ routes, Route.Survey (program.SimpleRoute limit decl) (program.membersAt decl) routes
      (program.enumMembers limit decl).1 := by
  have run := Gathers.of_enumMembers keyed limit decl
  obtain ⟨routes, survey⟩ := run.surveyed keyed List.not_mem_nil
  exact ⟨routes, survey.congr (fun _ => searches_iff_simple) fun _ _ => rfl⟩

/-- The members of an enumeration are the own members of the enumerations where its simple routes
end, one route after the other in the order of the search, which leaves no choice. So an
enumeration contributes its members as often as there are simple routes to it. -/
theorem members_follow_routes (program : Program) (limit : Nat)
    (keyed : ∀ key decl, program.enums.find? key = some decl → decl.name = key)
    {key : String} {decl : EnumDecl} (found : program.enums.find? key = some decl) :
    ∃! routes : List Route,
      (∀ route, route ∈ routes ↔ program.SimpleRoute limit decl route) ∧
      routes.Pairwise Route.Before ∧
      (program.enumMembers limit decl).1 = routes.flatMap (program.membersAt decl) ∧
      (program.enumMembers limit decl).1.Perm (program.enums.entries.flatMap fun entry =>
        (List.replicate (routes.countP (program.endsAt decl entry.1))
          entry.2.members).flatten) := by
  obtain ⟨routes, survey⟩ := exists_survey keyed limit decl
  have hends : ∀ route ∈ routes, ∃ enum, program.end? decl route = some enum ∧
      program.enums.find? enum.name = some enum := by
    intro route hroute
    obtain ⟨enums, henums, -⟩ := (survey.exact route).mp hroute
    obtain ⟨enum, hmem, hend⟩ := exists_end? henums
    exact ⟨enum, hend, along?_declared keyed (keyed key decl found ▸ found) henums enum hmem⟩
  refine ⟨routes, ⟨survey.exact, survey.ordered, survey.brought, ?_⟩, ?_⟩
  · rw [survey.brought]
    exact perm_of_ends hends
  · rintro others ⟨hexact, hordered, -⟩
    exact hordered.eq_of_mem_iff survey.ordered fun route =>
      (hexact route).trans (survey.exact route).symm

/-- An enumeration that spreads `B` and twice `C`, and a member of `D`. -/
def crossing : EnumDecl :=
  { (EnumDecl.called "A" .string).withName "a" with
    spreads := [{ name := "B" }, { name := "D", member := "d" }, { name := "C" }, { name := "C" }] }

/-- All ways from `A` lead to `D`, one of them through `B`. From `C` a way leads back to `A`, and
from `D` one leads nowhere. -/
def crossroads : Program :=
  let enum := fun name own => (EnumDecl.called name .string).withName own
  ({} : Program).declareEnum crossing
    |>.declareEnum ((enum "B" "b").withSpread "D")
    |>.declareEnum (((enum "C" "c").withSpread "A").withSpread "D")
    |>.declareEnum ((enum "D" "d").withSpread "Nowhere")

theorem members_follow_routes_crossroads :
    (crossroads.enumMembers 3 crossing).1.map (·.name) = ["d", "b", "d", "c", "d", "c", "a"] ∧
      (crossroads.enumMembers 2 crossing).1.map (·.name) = ["b", "c", "c", "a"] ∧
      ∃! routes : List Route,
        (∀ route, route ∈ routes ↔ crossroads.SimpleRoute 3 crossing route) ∧
        routes.Pairwise Route.Before ∧
        (crossroads.enumMembers 3 crossing).1 = routes.flatMap (crossroads.membersAt crossing) ∧
        (crossroads.enumMembers 3 crossing).1.Perm (crossroads.enums.entries.flatMap fun entry =>
          (List.replicate (routes.countP (crossroads.endsAt crossing entry.1))
            entry.2.members).flatten) := by
  have keyed : ∀ entry ∈ crossroads.enums.entries, entry.2.name = entry.1 := by decide
  have found : crossroads.enums.find? "A" = some crossing := rfl
  exact ⟨by decide +kernel, by decide +kernel, members_follow_routes crossroads 3
    (fun _ _ hfound => keyed _ (Table.mem_of_find? hfound)) found⟩

end Program

end SchemaIR
