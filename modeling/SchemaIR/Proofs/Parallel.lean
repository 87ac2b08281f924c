import Mathlib
import SchemaIR.Proofs.Inheritance
import SchemaIR.Proofs.Inventory

/-!
# Types and enumerations expand alike

Spreads of types and spreads of enumerations follow the same rules but are bounded apart. A
declared enumeration joins the chain when its own expansion starts, and what is compared with
the limit is how long the chain is. A type is put into the chain by whoever enters it, and what
is compared with the limit is how many levels are open. The declaration that an expansion starts
with is in the chain and on no level, so a chain is always one longer than the levels are deep,
and `limit` levels for types are worth a chain of `limit + 1` enumerations.

Where types and enumerations with the same keys spread the same and have the same names of
their own, the two expansions then take the same turn at every spread: a derivation of one is
read off a derivation of the other, rule by rule.
-/

namespace SchemaIR

/-- What an expansion sees of a type: its spreads and the names of its own fields. -/
def TypeDecl.outline (decl : TypeDecl) : List Reference × List String :=
  (decl.spreads, decl.fields.map (·.name))

/-- What an expansion sees of an enumeration: its spreads and the names of its own members. -/
def EnumDecl.outline (decl : EnumDecl) : List Reference × List String :=
  (decl.spreads, decl.members.map (·.name))

/-- Types and enumerations are declared under their own names, under the same ones, and look
the same to an expansion. -/
structure Program.Parallel (program : Program) : Prop where
  types : ∀ key decl, program.types.find? key = some decl → decl.name = key
  enums : ∀ key decl, program.enums.find? key = some decl → decl.name = key
  outlines : ∀ key, (program.types.find? key).map TypeDecl.outline =
    (program.enums.find? key).map EnumDecl.outline

namespace Program.Parallel

variable {program : Program} (parallel : program.Parallel) {key : String}

include parallel

theorem enum_of_type {type : TypeDecl} (found : program.types.find? key = some type) :
    ∃ enum, program.enums.find? key = some enum ∧ enum.name = type.name ∧
      enum.spreads = type.spreads ∧ enum.members.map (·.name) = type.fields.map (·.name) := by
  have houtline := parallel.outlines key
  rw [found] at houtline
  obtain ⟨enum, henum, hsame⟩ := Option.map_eq_some_iff.mp houtline.symm
  obtain ⟨hspreads, hnames⟩ := Prod.mk.inj hsame
  have hname : enum.name = type.name :=
    (parallel.enums key enum henum).trans (parallel.types key type found).symm
  exact ⟨enum, henum, hname, hspreads, hnames⟩

theorem no_enum (absent : program.types.find? key = none) : program.enums.find? key = none := by
  have houtline := parallel.outlines key
  rw [absent] at houtline
  exact Option.map_eq_none_iff.mp houtline.symm

end Program.Parallel

theorem Table.map_find? {α β : Type} (f : α → β) (table : Table α) (key : String) :
    (table.find? key).map f = (table.entries.map fun entry => (entry.1, f entry.2)).lookup key := by
  rw [Table.find?]
  generalize table.entries = entries
  induction entries with
  | nil => rfl
  | cons entry rest ih =>
      rw [List.map_cons, List.lookup, List.lookup]
      cases key == entry.1 with
      | true => rfl
      | false => exact ih

/-- For two tables in the same order, looking the same is a matter of their entries. -/
theorem Program.Parallel.of_entries {program : Program}
    (types : ∀ entry ∈ program.types.entries, entry.2.name = entry.1)
    (enums : ∀ entry ∈ program.enums.entries, entry.2.name = entry.1)
    (outlines : (program.types.entries.map fun entry => (entry.1, entry.2.outline)) =
      program.enums.entries.map fun entry => (entry.1, entry.2.outline)) : program.Parallel where
  types _ _ found := types _ (Table.mem_of_find? found)
  enums _ _ found := enums _ (Table.mem_of_find? found)
  outlines key := by rw [Table.map_find?, outlines, Table.map_find?]

/-! ## One derivation from the other -/

/-- What the answers to queries have in common with the expansion of enumerations. Spreads are
compared in the same chain, on the level that this chain is one longer than. -/
def FieldQuery.Mirrored (program : Program) (limit : Nat) (st : Lowering) :
    (query : FieldQuery) → query.Answer → Prop
  | .field decl, result => result.name = decl.name
  | .fields decls, results => results.map (·.name) = decls.map (·.name)
  | .spreads items path, answer =>
      ∀ (owner : String) (walk : Walk), walk.path = path → path.length = st.depth + 1 →
        ∃ members walk', Gathers program (limit + 1) (.spreads owner items) walk members walk' ∧
          members.map (·.name) = answer.1.map (·.name)
  | .type _, _ | .base _, _ | .object _, _ => True

theorem Flattens.mirrored {program : Program} (parallel : program.Parallel) {limit : Nat}
    {query : FieldQuery} {st st' : Lowering} {answer : query.Answer}
    (run : Flattens program limit query st answer st') :
    query.Mirrored program limit st answer := by
  induction run with
  | plain | array | primitive | custom | map | inline | refusedObject | object => trivial
  | field | noFields => rfl
  | moreFields _ _ ih₁ ih₂ => exact congrArg₂ List.cons ih₁ ih₂
  | noSpreads => exact fun _ walk _ _ => ⟨[], walk, .noSpreads, rfl⟩
  | memberSpread named _ ih =>
      intro owner walk hpath hlevel
      obtain ⟨members, walk', more, hnames⟩ := ih owner walk hpath hlevel
      exact ⟨members, walk', .memberSpread named more, hnames⟩
  | @circularSpread spread _ _ _ _ _ plain busy _ ih =>
      intro owner walk hpath hlevel
      obtain ⟨members, walk', more, hnames⟩ :=
        ih owner (walk.note (.enumCycle owner spread.name)) hpath hlevel
      exact ⟨members, walk', .circularSpread plain (hpath ▸ busy) more, hnames⟩
  | undeclaredSpread plain idle absent _ ih =>
      intro owner walk hpath hlevel
      obtain ⟨members, walk', more, hnames⟩ := ih owner walk hpath hlevel
      exact ⟨members, walk', .undeclaredSpread plain (hpath ▸ idle) (parallel.no_enum absent) more,
        hnames⟩
  | refusedSpread plain idle found full _ ih =>
      intro owner walk hpath hlevel
      obtain ⟨enum, henum, -⟩ := parallel.enum_of_type found
      obtain ⟨members, walk', more, hnames⟩ :=
        ih owner (walk.note (.enumChainTooDeep owner (limit + 1))) hpath hlevel
      have hfull : limit + 1 ≤ walk.path.length := by
        rw [hpath, hlevel]
        exact Nat.succ_le_succ full
      exact ⟨members, walk', .refusedSpread plain (hpath ▸ idle) henum hfull more, hnames⟩
  | @spread spread rest path path₁ target inherited own others st st₁ st₂ _ plain idle found room
      before after _ ih₁ ih₂ ih₃ =>
      intro owner walk hpath hlevel
      obtain ⟨enum, henum, hname, hspreads, hown⟩ := parallel.enum_of_type found
      have hidle : target.name ∉ path := parallel.types _ _ found ▸ idle
      have hroom : walk.path.length < limit + 1 := by
        rw [hpath, hlevel]
        exact Nat.succ_lt_succ room
      -- Inside, the chain has the target and the levels have one more.
      have hinside : (walk.enter enum.name).path = path.enter target.name := by
        rw [Walk.enter, hpath, hname]
      have hlonger : (path.enter target.name).length = st.deeper.depth + 1 := by
        rw [Path.enter_idle hidle, List.length_cons, hlevel]
        rfl
      obtain ⟨first, walk₁, expanded, hfirst⟩ :=
        ih₁ enum.name (walk.enter enum.name) hinside hlonger
      have run : Gathers program (limit + 1) (.enumeration enum) walk (first ++ enum.members)
          (walk₁.leave enum.name) := .expansion (hspreads ▸ expanded)
      -- Afterwards both are what they were before.
      have hafter : (walk₁.leave enum.name).path = path := by
        have hfresh : enum.name ∉ walk.path := by rwa [hname, hpath]
        rw [run.frame parallel.enums hfresh, hpath]
      have hchain := before.leave_entered parallel.types idle found
      have hclosed := before.closed_depth after
      obtain ⟨later, walk₂, more, hlater⟩ := ih₃ owner (walk₁.leave enum.name)
        (hafter.trans hchain.symm) (by rw [hchain, hlevel, hclosed])
      refine ⟨_, walk₂, .spread plain (hpath ▸ idle) henum hroom run more, ?_⟩
      have hfields : own.map (·.name) = target.fields.map (·.name) := ih₂
      simp only [List.map_append, hfirst, hlater, hown, hfields]

/-! ## Names -/

namespace Program

variable {program : Program} {limit : Nat} {key : String} {type : TypeDecl} {enum : EnumDecl}

/-- Outside of everything, the fields of a type and the members of the enumeration under the
same key have the same names. -/
theorem Parallel.names_eq (parallel : program.Parallel)
    (typeFound : program.types.find? key = some type)
    (enumFound : program.enums.find? key = some enum) {st st₁ st₂ : Lowering} {path : Path}
    {inherited own : List Field} (outermost : st.depth = 0)
    (before : Flattens program limit (.spreads type.spreads [type.name]) st (inherited, path) st₁)
    (after : Flattens program limit (.fields type.fields) st₁ own st₂) :
    (inherited ++ own).map (·.name) =
      (program.enumMembers (limit + 1) enum).1.map (·.name) := by
  obtain ⟨other, henum, hname, hspreads, hown⟩ := parallel.enum_of_type typeFound
  obtain rfl : other = enum := Option.some.inj (henum.symm.trans enumFound)
  have hpath : (({} : Walk).enter other.name).path = [type.name] := congrArg (fun n => [n]) hname
  have hlevel : [type.name].length = st.depth + 1 := by rw [outermost]; rfl
  obtain ⟨members, walk, expanded, hmembers⟩ :=
    before.mirrored parallel other.name _ hpath hlevel
  have run : Gathers program (limit + 1) (.enumeration other) {} (members ++ other.members)
      (walk.leave other.name) := .expansion (hspreads ▸ expanded)
  have hfields : own.map (·.name) = type.fields.map (·.name) := after.mirrored parallel
  rw [← run.eq_enumMembers parallel.enums, List.map_append, List.map_append, hmembers, hown,
    hfields]

theorem typeFields_names (parallel : program.Parallel)
    (typeFound : program.types.find? key = some type)
    (enumFound : program.enums.find? key = some enum) {st : Lowering} (outermost : st.depth = 0) :
    (program.typeFields limit type st).1.map (·.name) =
      (program.enumMembers (limit + 1) enum).1.map (·.name) :=
  parallel.names_eq typeFound enumFound outermost
    (program.flattens_flatten limit (.spreads type.spreads [type.name]) st)
    (program.flattens_flatten limit (.fields type.fields) _)

theorem emitted_names (parallel : program.Parallel)
    (typeFound : program.types.find? key = some type)
    (enumFound : program.enums.find? key = some enum) {typeDef : TypeDef} {enumDef : EnumDef}
    (lowersType : Taken (LowersType program limit) type typeDef)
    (lowersEnum : Taken (LowersEnum program (limit + 1)) enum enumDef) :
    typeDef.fieldNames = enumDef.memberNames := by
  obtain ⟨_, _, outermost, annotated, before, after⟩ := lowersType
  have hdepth := annotated.annotations_frame.1.trans outermost
  have hnames := parallel.names_eq typeFound enumFound hdepth before after
  have hmembers := congrArg (List.map Prod.fst) (lowersEnum.enum_outlines parallel.enums)
  rw [List.map_map, List.map_map] at hmembers
  exact hnames.trans hmembers.symm

/-- In a program in which types and enumerations look the same, the fields that a type has where
`limit` levels may be open and the members that the enumeration of the same name has in chains
of at most `limit + 1` have the same names in the same order, whether spreads lead back, meet
again or lead nowhere. So have the types and the enumerations of the lowered schemas. -/
theorem fieldNames_eq_memberNames (program : Program) (parallel : program.Parallel) (limit : Nat)
    (key : String) :
    (∀ type enum, program.types.find? key = some type → program.enums.find? key = some enum →
      ∀ st : Lowering, st.depth = 0 →
        (program.typeFields limit type st).1.map (·.name) =
          (program.enumMembers (limit + 1) enum).1.map (·.name)) ∧
    ((program.lower limit).schema.findType? key).map TypeDef.fieldNames =
      ((program.lower (limit + 1)).schema.findEnum? key).map EnumDef.memberNames := by
  refine ⟨fun type enum typeFound enumFound st outermost =>
    typeFields_names parallel typeFound enumFound outermost, ?_⟩
  have htype := findType?_related parallel.types limit key
  have henum := findEnum?_related parallel.enums (limit + 1) key
  generalize (program.lower limit).schema.findType? key = typeDef? at htype ⊢
  generalize (program.lower (limit + 1)).schema.findEnum? key = enumDef? at henum ⊢
  cases typeFound : program.types.find? key with
  | none =>
      rw [typeFound] at htype
      rw [parallel.no_enum typeFound] at henum
      cases htype
      cases henum
      rfl
  | some type =>
      obtain ⟨enum, enumFound, -⟩ := parallel.enum_of_type typeFound
      rw [typeFound] at htype
      rw [enumFound] at henum
      cases htype with
      | some lowersType =>
          cases henum with
          | some lowersEnum =>
              exact congrArg some
                (emitted_names parallel typeFound enumFound lowersType lowersEnum)

/-- Types and enumerations that look the same: `A` comes to `D` along two ways, `C` leads back to
`A`, and `D` leads nowhere. -/
def twinned : Program :=
  let type := fun name own => (TypeDecl.called name).withField (.called own (.primitive "int"))
  let enum := fun name own => (EnumDecl.called name .string).withName own
  ({} : Program).declareType (((type "A" "a").withSpread "B").withSpread "C")
    |>.declareType ((type "B" "b").withSpread "D")
    |>.declareType (((type "C" "c").withSpread "D").withSpread "A")
    |>.declareType ((type "D" "d").withSpread "Nowhere")
    |>.declareEnum (((enum "A" "a").withSpread "B").withSpread "C")
    |>.declareEnum ((enum "B" "b").withSpread "D")
    |>.declareEnum (((enum "C" "c").withSpread "D").withSpread "A")
    |>.declareEnum ((enum "D" "d").withSpread "Nowhere")

theorem fieldNames_eq_memberNames_twinned :
    twinned.Parallel ∧
      ((twinned.lower 2).schema.findType? "A").map TypeDef.fieldNames =
        some ["d", "b", "d", "c", "a"] ∧
      ((twinned.lower 3).schema.findEnum? "A").map EnumDef.memberNames =
        some ["d", "b", "d", "c", "a"] ∧
      ((twinned.lower 1).schema.findType? "A").map TypeDef.fieldNames = some ["b", "c", "a"] ∧
      ((twinned.lower 2).schema.findEnum? "A").map EnumDef.memberNames = some ["b", "c", "a"] := by
  have parallel : twinned.Parallel :=
    .of_entries (by decide) (by decide) (by decide)
  have hdeep : ((twinned.lower 3).schema.findEnum? "A").map EnumDef.memberNames =
      some ["d", "b", "d", "c", "a"] := by cbv
  have hcut : ((twinned.lower 2).schema.findEnum? "A").map EnumDef.memberNames =
      some ["b", "c", "a"] := by cbv
  obtain ⟨-, hfull⟩ := fieldNames_eq_memberNames twinned parallel 2 "A"
  obtain ⟨-, hshort⟩ := fieldNames_eq_memberNames twinned parallel 1 "A"
  exact ⟨parallel, hfull.trans hdeep, hdeep, hshort.trans hcut, hcut⟩

end Program

end SchemaIR
