import Mathlib
import SchemaIR.Proofs.Inventory
import SchemaIR.Proofs.Routes

/-!
# References to members

A reference to a member is looked up in the expansion of its enumeration, and the emitted
enumeration is made from an expansion of its own. Both are expanded under the same limit and in a
chain that is empty at the start, so both have the same members in the same order, and the first
one of a name decides in either.

Which names there are is a matter of what can be reached. A way through spreads may come to an
enumeration more than once, where a route may not; but what lies between two visits can be left
out, and what remains has at most as many enumerations as are declared. A limit that is not below
their number therefore keeps nothing out.
-/

namespace SchemaIR

namespace Program

/-- One of the spreads of the first enumeration leads to the second. -/
def Inherits (program : Program) (decl target : EnumDecl) : Prop :=
  ∃ spread ∈ decl.spreads, program.spreadTarget? spread = some target

/-- A member of the name is declared by the enumeration or by one that spreads lead to. -/
def Offers (program : Program) (decl : EnumDecl) (member : String) : Prop :=
  ∃ other, Relation.ReflTransGen program.Inherits decl other ∧
    ∃ own ∈ other.members, own.name = member

variable {program : Program} {limit : Nat} {decl target other : EnumDecl} {route : Route}
  {enums : List EnumDecl}

theorem inherits_iff_targetAt? :
    program.Inherits decl target ↔
      ∃ position, program.targetAt? decl.spreads position = some target := by
  constructor
  · rintro ⟨spread, hmem, htarget⟩
    obtain ⟨position, hposition⟩ := List.mem_iff_getElem?.mp hmem
    refine ⟨position, ?_⟩
    rw [targetAt?, hposition, Option.bind_some, htarget]
  · rintro ⟨position, hposition⟩
    obtain ⟨spread, hspread, htarget⟩ := Option.bind_eq_some_iff.mp hposition
    exact ⟨spread, List.mem_of_getElem? hspread, htarget⟩

theorem reaches_end (h : program.end? decl route = some other) :
    Relation.ReflTransGen program.Inherits decl other := by
  induction route generalizing decl with
  | nil =>
      cases h
      exact .refl
  | cons position rest ih =>
      obtain ⟨enums, henums, -⟩ := Option.bind_eq_some_iff.mp h
      obtain ⟨target, _, htarget, -⟩ := along?_cons_eq_some_iff.mp henums
      rw [end?_cons htarget] at h
      exact (ih h).head (inherits_iff_targetAt?.mpr ⟨position, htarget⟩)

/-- From any enumeration that a route comes to, the rest of it is a route to the same end. -/
theorem exists_rest (h : program.along? decl route = some enums) (hmem : other ∈ enums) :
    ∃ rest enums', program.along? other rest = some enums' ∧ enums'.Sublist enums ∧
      program.end? other rest = program.end? decl route := by
  induction route generalizing decl enums with
  | nil =>
      cases h
      cases List.mem_singleton.mp hmem
      exact ⟨[], [other], rfl, List.Sublist.refl _, rfl⟩
  | cons position rest ih =>
      rcases along?_cons_eq_some_iff.mp h with ⟨target, others, htarget, hothers, rfl⟩
      rcases List.mem_cons.mp hmem with rfl | hmem
      · exact ⟨position :: rest, _, h, List.Sublist.refl _, rfl⟩
      · obtain ⟨rest', enums', henums', hsub, hend⟩ := ih hothers hmem
        rw [end?_cons htarget]
        exact ⟨rest', enums', henums', hsub.cons decl, hend⟩

section Declared

variable (keyed : ∀ key decl, program.enums.find? key = some decl → decl.name = key)

include keyed

/-- Whatever is reached is reached along a route that comes to nothing twice. -/
theorem exists_route (reaches : Relation.ReflTransGen program.Inherits decl other)
    (declared : program.enums.find? decl.name = some decl) :
    ∃ route enums, program.along? decl route = some enums ∧ (enums.map (·.name)).Nodup ∧
      program.end? decl route = some other := by
  induction reaches using Relation.ReflTransGen.head_induction_on with
  | refl => exact ⟨[], [other], rfl, List.nodup_singleton _, rfl⟩
  | @head decl target edge _ ih =>
      obtain ⟨position, htarget⟩ := inherits_iff_targetAt?.mp edge
      obtain ⟨spread, -, hspread⟩ := edge
      have hfound := find?_of_spreadTarget? hspread
      have htargetDeclared : program.enums.find? target.name = some target :=
        keyed _ _ hfound ▸ hfound
      obtain ⟨rest, enums, henums, distinct, hend⟩ := ih htargetDeclared
      by_cases hback : decl.name ∈ enums.map (·.name)
      · -- The way comes back to where it starts: what goes before that can be left out.
        obtain ⟨again, hagain, hname⟩ := List.mem_map.mp hback
        have hsame := along?_declared keyed htargetDeclared henums again hagain
        rw [hname, declared] at hsame
        obtain rfl := Option.some.inj hsame
        obtain ⟨rest', enums', henums', hsub, hend'⟩ := exists_rest henums hagain
        exact ⟨rest', enums', henums', distinct.sublist (hsub.map _), hend'.trans hend⟩
      · refine ⟨position :: rest, decl :: enums,
          along?_cons_eq_some_iff.mpr ⟨target, enums, htarget, henums, rfl⟩,
          List.nodup_cons.mpr ⟨hback, distinct⟩, ?_⟩
        rw [end?_cons htarget, hend]

/-- There are no more enumerations on a route without repetition than are declared. -/
theorem length_along?_le_size (declared : program.enums.find? decl.name = some decl)
    (h : program.along? decl route = some enums) (distinct : (enums.map (·.name)).Nodup) :
    enums.length ≤ program.enums.size := by
  have hkeys : enums.map (·.name) ⊆ program.enums.keys := by
    intro name hname
    obtain ⟨enum, henum, rfl⟩ := List.mem_map.mp hname
    exact Table.mem_keys_of_find? (along?_declared keyed declared h enum henum)
  have hlength := (List.subperm_of_subset distinct hkeys).length_le
  rwa [List.length_map, Table.length_keys] at hlength

theorem mem_enumMembers_iff (declared : program.enums.find? decl.name = some decl)
    (enough : program.enums.size ≤ limit) {member : MemberDecl} :
    member ∈ (program.enumMembers limit decl).1 ↔
      ∃ other, Relation.ReflTransGen program.Inherits decl other ∧ member ∈ other.members := by
  obtain ⟨routes, survey⟩ := exists_survey keyed limit decl
  rw [survey.brought, List.mem_flatMap]
  constructor
  · rintro ⟨route, hroute, hmember⟩
    obtain ⟨enums, henums, -⟩ := (survey.exact route).mp hroute
    obtain ⟨other, -, hend⟩ := exists_end? henums
    rw [membersAt, hend, Option.elim_some] at hmember
    exact ⟨other, reaches_end hend, hmember⟩
  · rintro ⟨other, reaches, hmember⟩
    obtain ⟨route, enums, henums, distinct, hend⟩ := exists_route keyed reaches declared
    have hlength := length_along?_le_size keyed declared henums distinct
    refine ⟨route, (survey.exact route).mpr ⟨enums, henums, distinct, by omega⟩, ?_⟩
    rwa [membersAt, hend, Option.elim_some]

theorem offers_iff (declared : program.enums.find? decl.name = some decl)
    (enough : program.enums.size ≤ limit) (member : String) :
    ((program.enumMembers limit decl).1.find? (·.name = member)).isSome ↔
      program.Offers decl member := by
  rw [List.find?_isSome]
  constructor
  · rintro ⟨own, hown, hname⟩
    obtain ⟨other, reaches, hmem⟩ := (mem_enumMembers_iff keyed declared enough).mp hown
    exact ⟨other, reaches, own, hmem, of_decide_eq_true hname⟩
  · rintro ⟨other, reaches, own, hmem, hname⟩
    exact ⟨own, (mem_enumMembers_iff keyed declared enough).mpr ⟨other, reaches, hmem⟩,
      decide_eq_true hname⟩

end Declared

/-! ## The emitted enumeration -/

/-- The first member of a name is emitted with the value of the first one that is expanded. -/
theorem exists_emitted_enum
    (keyed : ∀ key decl, program.enums.find? key = some decl → decl.name = key) (limit : Nat)
    {key : String} {decl : EnumDecl} (found : program.enums.find? key = some decl) (name : String) :
    ∃ enum, (program.lower limit).schema.findEnum? key = some enum ∧
      (enum.members.find? (·.name = name)).map (·.value) =
        ((program.enumMembers limit decl).1.find? (·.name = name)).map (·.value) := by
  have hrelated := findEnum?_related keyed limit key
  rw [found] at hrelated
  generalize (program.lower limit).schema.findEnum? key = emitted at hrelated ⊢
  cases hrelated with
  | @some _ enum taken =>
      refine ⟨enum, rfl, ?_⟩
      have hfirst := congrArg (fun outlines => (outlines.find? (·.1 = name)).map (·.2.1))
        (taken.enum_outlines keyed)
      simp only [List.find?_map, Option.map_map] at hfirst
      exact hfirst

theorem resolve_member {key : String} {decl : EnumDecl}
    (found : program.enums.find? key = some decl) (member : String) (st : Resolver) :
    (program.resolveLiteral limit (.reference { name := key, member }) st).1 =
      (((program.enumMembers limit decl).1.find? (·.name = member)).map (·.value)).bind
        (memberValue decl.valueType) := by
  show (program.memberConstant limit key member st).1 = _
  rw [memberConstant_eq, memberValue?, found, Option.bind_some, Option.bind_map]
  rfl

/-- Under a limit that is not below the number of enumerations, a reference finds a member of a
name if and only if one is declared where spreads lead. Its value is that of the first member of
that name in the emitted enumeration: the text, or the integer that the text stands for. -/
theorem member_reference_eq_emitted (program : Program) (limit : Nat)
    (keyed : ∀ key decl, program.enums.find? key = some decl → decl.name = key)
    (enough : program.enums.size ≤ limit) {key : String} {decl : EnumDecl}
    (found : program.enums.find? key = some decl) (member : String) :
    (((program.enumMembers limit decl).1.find? (·.name = member)).isSome ↔
      program.Offers decl member) ∧
    ∃ enum, (program.lower limit).schema.findEnum? key = some enum ∧
      ((enum.members.find? (·.name = member)).isSome ↔ program.Offers decl member) ∧
      ∀ st : Resolver,
        (decl.valueType = .string →
          (program.resolveLiteral limit (.reference { name := key, member }) st).1 =
            (enum.members.find? (·.name = member)).map fun first => .string first.value) ∧
        (decl.valueType = .int →
          (program.resolveLiteral limit (.reference { name := key, member }) st).1 =
            (enum.members.find? (·.name = member)).bind fun first =>
              (Number.readInt64 first.value).toOption.map .int) := by
  have declared : program.enums.find? decl.name = some decl := keyed key decl found ▸ found
  have hoffers := offers_iff keyed declared enough member
  obtain ⟨enum, hemitted, hfirst⟩ := exists_emitted_enum keyed limit found member
  refine ⟨hoffers, enum, hemitted, ?_, fun st => ⟨fun hkind => ?_, fun hkind => ?_⟩⟩
  · rw [← hoffers, ← Option.isSome_map (f := (·.value)), hfirst, Option.isSome_map]
  · rw [resolve_member found member st, ← hfirst, hkind, Option.bind_map]
    exact Option.map_eq_bind.symm
  · rw [resolve_member found member st, ← hfirst, hkind, Option.bind_map]
    rfl

/-- An enumeration with a member of its own and a spread in front of it. -/
def heir : EnumDecl := ((EnumDecl.called "Heir" .int).withSpread "Elder").withMember "x" "1"

/-- Enumerations of integers that spread each other. The heir has a member `x` of its own, but the
one that it inherits comes first, and its text is no integer. -/
def inheritance : Program :=
  let elder := ((EnumDecl.called "Elder" .int).withSpread "Heir").withMember "x" "many"
  (({} : Program).declareEnum heir).declareEnum (elder.withMember "y" "2")

theorem member_reference_eq_emitted_inheritance :
    inheritance.enums.size = 2 ∧ inheritance.Offers heir "x" ∧ inheritance.Offers heir "y" ∧
      ¬ inheritance.Offers heir "z" ∧
      (∃ enum, (inheritance.lower 2).schema.findEnum? "Heir" = some enum ∧ ∀ st : Resolver,
        (inheritance.resolveLiteral 2 (.member "Heir" "x") st).1 =
          (enum.members.find? (·.name = "x")).bind fun first =>
            (Number.readInt64 first.value).toOption.map .int) ∧
      (inheritance.resolveLiteral 2 (.member "Heir" "x") {}).1 = none ∧
      (inheritance.resolveLiteral 2 (.member "Heir" "y") {}).1 = some (.int 2) := by
  have keyed : ∀ entry ∈ inheritance.enums.entries, entry.2.name = entry.1 := by decide
  have found : inheritance.enums.find? "Heir" = some heir := rfl
  have hreference := member_reference_eq_emitted inheritance 2
    (fun _ _ hfound => keyed _ (Table.mem_of_find? hfound)) (by decide) found
  obtain ⟨hx, enum, hemitted, -, hvalue⟩ := hreference "x"
  have hy := (hreference "y").1
  have hz := (hreference "z").1
  refine ⟨rfl, hx.mp (by decide +kernel), hy.mp (by decide +kernel), fun h => ?_,
    ⟨enum, hemitted, fun st => (hvalue st).2 rfl⟩, by cbv, by cbv⟩
  exact absurd (hz.mpr h) (by decide +kernel)

end Program

end SchemaIR
