import Mathlib
import SchemaIR.Program.Builder
import SchemaIR.Proofs.Documentation
import SchemaIR.Proofs.Termination

/-!
# What a lowered schema lists

Declarations are sorted twice. Lowering visits them in the order of their keys, since what is
evaluated for one of them is kept for the next, and what comes out of the visits is then sorted
by name. A key need not be the name of what stands under it, so the two orders differ, and two
declarations may well have one name. The second sort is stable: what has the same name stays in
the order of the visits.

So every declaration is in the schema once, under its own name, and the keys decide where names
do not. If keys and names are the same there is nothing left to decide, and a look-up by name
succeeds for the keys and for nothing else.
-/

namespace SchemaIR

/-! ## Sorting by name -/

section Sorting

variable {α : Type} (name : α → String) (items : List α)

theorem sortByName_perm : (sortByName name items).Perm items := List.mergeSort_perm _ _

theorem le_name_trans (a b c : α) (hab : decide (name a ≤ name b) = true)
    (hbc : decide (name b ≤ name c) = true) : decide (name a ≤ name c) = true :=
  decide_eq_true (String.le_trans (of_decide_eq_true hab) (of_decide_eq_true hbc))

theorem le_name_total (a b : α) :
    (decide (name a ≤ name b) || decide (name b ≤ name a)) = true := by
  rw [Bool.or_eq_true, decide_eq_true_eq, decide_eq_true_eq]
  exact String.le_total (name a) (name b)

theorem sortByName_ordered : (sortByName name items).Pairwise fun a b => name a ≤ name b := by
  have hsorted := List.pairwise_mergeSort (le_name_trans name) (le_name_total name) items
  exact hsorted.imp of_decide_eq_true

/-- What has one name stays in its order. -/
theorem filter_sortByName (wanted : String) :
    (sortByName name items).filter (name · = wanted) = items.filter (name · = wanted) := by
  have hsame : (items.filter (name · = wanted)).Pairwise
      fun a b => decide (name a ≤ name b) = true := by
    refine List.pairwise_of_forall_mem_list fun a ha b hb => decide_eq_true ?_
    have hname : name a = wanted := of_decide_eq_true (List.mem_filter.mp ha).2
    have hother : name b = wanted := of_decide_eq_true (List.mem_filter.mp hb).2
    rw [hname, hother]
  have hkept : (items.filter (name · = wanted)).Sublist (sortByName name items) :=
    List.sublist_mergeSort (le_name_trans name) (le_name_total name) hsame List.filter_sublist
  -- A part of the sorted list, and all of the items of that name.
  have hpart := hkept.filter (name · = wanted)
  simp only [List.filter_filter, Bool.and_self] at hpart
  have hlength := ((sortByName_perm name items).filter (name · = wanted)).length_eq
  exact (hpart.eq_of_length hlength.symm).symm

end Sorting

/-- The order of what was lowered from declarations under keys: by name, and where the name is
the same by key. -/
def Precedes {β : Type} (name : β → String) (entry other : String × β) : Prop :=
  name entry.2 < name other.2 ∨ name entry.2 = name other.2 ∧ entry.1 < other.1

theorem precedes_sortByName {β : Type} {name : β → String} {entries : List (String × β)}
    (visits : entries.Pairwise fun entry other => entry.1 < other.1) :
    (sortByName (fun entry => name entry.2) entries).Pairwise (Precedes name) := by
  rw [List.pairwise_iff_forall_sublist]
  intro entry other hpair
  have hordered := List.pairwise_iff_forall_sublist.mp
    (sortByName_ordered (fun entry => name entry.2) entries) hpair
  rcases lt_or_eq_of_le hordered with hlt | heq
  · exact .inl hlt
  · have htied := hpair.filter fun tied => name tied.2 = name entry.2
    rw [filter_sortByName] at htied
    have hboth : [entry, other].filter (fun tied => name tied.2 = name entry.2) =
        [entry, other] := by simp [heq]
    rw [hboth] at htied
    have hvisited := htied.trans List.filter_sublist
    exact .inr ⟨heq, List.pairwise_iff_forall_sublist.mp visits hvisited⟩

/-! ## One entry for each declaration -/

/-- There is one entry for each key of the table. It is lowered from the declaration under that
key and has its name, and the entries stand in the order of names and keys. -/
structure Table.Lists {α β : Type} (table : Table α) (own : α → String) (name : β → String)
    (lowers : α → β → Prop) (entries : List (String × β)) : Prop where
  keys : (entries.map Prod.fst).Perm table.keys
  declared : ∀ entry ∈ entries, ∃ decl, table.find? entry.1 = some decl ∧
    name entry.2 = own decl ∧ lowers decl entry.2
  ordered : entries.Pairwise (Precedes name)

/-- The names increase and are the keys of the table, and exactly these are found. -/
structure Table.Indexed {α : Type} (table : Table α) (names : List String)
    (found : String → Bool) : Prop where
  increasing : names.Pairwise (· < ·)
  keys : names.Perm table.keys
  found : ∀ name, found name = table.contains name

namespace Table

variable {α β : Type} {table : Table α} {own : α → String} {name : β → String}
  {lowers : α → β → Prop}

/-- The entries in the order in which they are visited. -/
def visits (table : Table α) : List (String × α) :=
  table.entries.mergeSort fun a b => decide (a.1 ≤ b.1)

theorem visits_perm (table : Table α) : table.visits.Perm table.entries := List.mergeSort_perm _ _

theorem visits_ordered (table : Table α) :
    table.visits.Pairwise fun entry other => entry.1 < other.1 := by
  have hsorted : table.visits.Pairwise fun entry other => entry.1 ≤ other.1 :=
    sortByName_ordered Prod.fst table.entries
  have hdistinct : (table.visits.map Prod.fst).Nodup :=
    (table.visits_perm.map Prod.fst).nodup_iff.mpr table.nodup
  rw [List.Nodup, List.pairwise_map] at hdistinct
  exact hsorted.imp₂ (fun _ _ hle hne => lt_of_le_of_ne hle hne) hdistinct

theorem find?_of_mem_visits {entry : String × α} (h : entry ∈ table.visits) :
    table.find? entry.1 = some entry.2 :=
  find?_eq_some_iff.mpr (table.visits_perm.mem_iff.mp h)

/-- What is lowered in the order of the visits lists the table once it is sorted by name. -/
theorem exists_lists {results : List β} (named : ∀ decl b, lowers decl b → name b = own decl)
    (lowered : List.Forall₂ lowers table.sorted results) :
    ∃ entries, table.Lists own name lowers entries ∧
      sortByName name results = entries.map Prod.snd := by
  have hsorted : table.sorted = table.visits.map Prod.snd := rfl
  rw [hsorted, List.forall₂_map_left_iff] at lowered
  have hdeclared : List.Forall₂
      (fun key b => ∃ decl, table.find? key = some decl ∧ name b = own decl ∧ lowers decl b)
      (table.visits.map Prod.fst) results := by
    rw [List.forall₂_map_left_iff]
    have hfound := (List.forall₂_and_left _ _).mpr
      ⟨fun entry (h : entry ∈ table.visits) => find?_of_mem_visits h, lowered⟩
    exact hfound.imp fun entry b h => ⟨entry.2, h.1, named entry.2 b h.2, h.2⟩
  have hlength := hdeclared.length_eq
  -- The keys go along through the second sort.
  let entries := (table.visits.map Prod.fst).zip results
  have hkeys : entries.map Prod.fst = table.visits.map Prod.fst := List.map_fst_zip hlength.le
  have hresults : entries.map Prod.snd = results := List.map_snd_zip hlength.ge
  have hvisits : entries.Pairwise fun entry other => entry.1 < other.1 := by
    rw [← List.pairwise_map (f := Prod.fst) (R := (· < ·)), hkeys, List.pairwise_map]
    exact table.visits_ordered
  have hperm := sortByName_perm (fun entry => name entry.2) entries
  refine ⟨sortByName (fun entry => name entry.2) entries, ⟨?_, ?_, precedes_sortByName hvisits⟩, ?_⟩
  · have hsame := hperm.map Prod.fst
    rw [hkeys] at hsame
    exact hsame.trans (table.visits_perm.map Prod.fst)
  · intro entry hentry
    exact List.forall₂_zip hdeclared (hperm.mem_iff.mp hentry)
  · rw [← hresults, sortByName, sortByName]
    symm
    apply List.map_mergeSort
    intro entry _ other _
    rfl

namespace Lists

variable {entries : List (String × β)}

/-- Under their own names declarations are listed by their keys. -/
theorem name_eq_key (lists : table.Lists own name lowers entries)
    (keyed : ∀ key decl, table.find? key = some decl → own decl = key)
    {entry : String × β} (hentry : entry ∈ entries) : name entry.2 = entry.1 := by
  obtain ⟨decl, found, hname, _⟩ := lists.declared entry hentry
  exact hname.trans (keyed entry.1 decl found)

/-- A look-up by name finds what is lowered from the declaration under that key. -/
theorem find?_related (lists : table.Lists own name lowers entries)
    (keyed : ∀ key decl, table.find? key = some decl → own decl = key) (wanted : String) :
    Option.Rel lowers (table.find? wanted) ((entries.map Prod.snd).find? (name · = wanted)) := by
  cases hfind : (entries.map Prod.snd).find? (name · = wanted) with
  | some b =>
      obtain ⟨entry, hentry, rfl⟩ := List.mem_map.mp (List.mem_of_find?_eq_some hfind)
      obtain ⟨decl, found, _, lowered⟩ := lists.declared entry hentry
      have hname : name entry.2 = wanted := by simpa using List.find?_some hfind
      rw [← hname, lists.name_eq_key keyed hentry, found]
      exact .some lowered
  | none =>
      cases found : table.find? wanted with
      | none => exact .none
      | some decl =>
          have hkey := lists.keys.mem_iff.mpr (mem_keys_of_find? found)
          obtain ⟨entry, hentry, rfl⟩ := List.mem_map.mp hkey
          have habsent := List.find?_eq_none.mp hfind entry.2 (List.mem_map_of_mem hentry)
          simp [lists.name_eq_key keyed hentry] at habsent

theorem indexed (lists : table.Lists own name lowers entries)
    (keyed : ∀ key decl, table.find? key = some decl → own decl = key) :
    table.Indexed ((entries.map Prod.snd).map name) fun wanted =>
      ((entries.map Prod.snd).find? (name · = wanted)).isSome := by
  have hkeys : (entries.map Prod.snd).map name = entries.map Prod.fst := by
    rw [List.map_map]
    exact List.map_congr_left fun entry hentry => lists.name_eq_key keyed hentry
  have hperm : ((entries.map Prod.snd).map name).Perm table.keys := by
    rw [hkeys]
    exact lists.keys
  refine ⟨?_, hperm, fun wanted => ?_⟩
  · have hdistinct : ((entries.map Prod.snd).map name).Nodup := hperm.nodup_iff.mpr table.nodup
    rw [List.Nodup, List.pairwise_map, List.pairwise_map] at hdistinct
    rw [List.pairwise_map, List.pairwise_map]
    refine lists.ordered.imp₂ (fun entry other hprecedes hne => ?_) hdistinct
    exact hprecedes.resolve_right fun htied => hne htied.1
  · rw [contains]
    have hrelated := lists.find?_related keyed wanted
    generalize table.find? wanted = declared at hrelated ⊢
    generalize (entries.map Prod.snd).find? (name · = wanted) = emitted at hrelated ⊢
    cases hrelated <;> rfl

end Lists

end Table

/-! ## The run over all declarations -/

/-- The step is taken between two declarations, where no level is open. -/
def Taken {α β : Type} (step : α → Lowering → β → Lowering → Prop) (a : α) (b : β) : Prop :=
  ∃ st st', st.depth = 0 ∧ step a st b st'

section Each

variable {α β : Type} {step : α → Lowering → β → Lowering → Prop}
  (closes : ∀ a st b st', step a st b st' → st'.depth = st.depth)
  {items : List α} {st st' : Lowering} {results : List β}

include closes

theorem Each.frame (run : Each step items st results st') : st'.depth = st.depth := by
  induction run with
  | nil => rfl
  | cons first _ ih => exact ih.trans (closes _ _ _ _ first)

theorem Each.taken (run : Each step items st results st') (outermost : st.depth = 0) :
    List.Forall₂ (Taken step) items results := by
  induction run with
  | nil => exact .nil
  | cons first _ ih =>
      exact .cons ⟨_, _, outermost, first⟩ (ih ((closes _ _ _ _ first).trans outermost))

end Each

section Declarations

variable {program : Program} {limit : Nat} {st st' : Lowering}

theorem LowersType.frame {decl : TypeDecl} {type : TypeDef}
    (run : LowersType program limit decl st type st') : st'.depth = st.depth := by
  obtain ⟨annotated, before, after⟩ := run
  rw [after.frame, before.frame, annotated.annotations_frame.1]
  rfl

theorem LowersMember.frame {decl : MemberDecl} {member : EnumMember}
    (run : LowersMember program limit decl st member st') : st'.depth = st.depth := by
  obtain ⟨annotated⟩ := run
  exact annotated.annotations_frame.1

theorem LowersEnum.frame {decl : EnumDecl} {enum : EnumDef}
    (run : LowersEnum program limit decl st enum st') : st'.depth = st.depth := by
  obtain ⟨_, run, annotated⟩ := run
  rw [annotated.annotations_frame.1]
  exact run.frame fun _ _ _ _ one => one.frame

theorem LowersConstant.frame {decl : ConstDecl} {constant : ConstantDef}
    (run : LowersConstant program limit decl st constant st') : st'.depth = st.depth := by
  cases run with
  | valued _ annotated | valueless _ annotated => exact annotated.annotations_frame.1

theorem Taken.type_name {decl : TypeDecl} {type : TypeDef}
    (taken : Taken (LowersType program limit) decl type) : type.name = decl.name := by
  obtain ⟨_, _, _, run⟩ := taken
  cases run
  rfl

theorem Taken.enum_name {decl : EnumDecl} {enum : EnumDef}
    (taken : Taken (LowersEnum program limit) decl enum) : enum.name = decl.name := by
  obtain ⟨_, _, _, run⟩ := taken
  cases run
  rfl

theorem Taken.constant_name {decl : ConstDecl} {constant : ConstantDef}
    (taken : Taken (LowersConstant program limit) decl constant) : constant.name = decl.name := by
  obtain ⟨_, _, _, run⟩ := taken
  cases run <;> rfl

end Declarations

/-! ## Members -/

/-- What a member has from its declaration: all but the arguments of annotations. -/
def MemberDecl.outline (decl : MemberDecl) : String × String × Option String × List String :=
  (decl.name, decl.value, Doc.normalize? decl.docstring, decl.annotations.map (·.name))

/-- The same of a lowered member. -/
def EnumMember.outline (member : EnumMember) : String × String × Option String × List String :=
  (member.name, member.value, member.doc, member.annotations.map (·.name))

theorem Each.member_outlines {program : Program} {limit : Nat} {decls : List MemberDecl}
    {st st' : Lowering} {members : List EnumMember}
    (run : Each (LowersMember program limit) decls st members st') :
    members.map (·.outline) = decls.map (·.outline) := by
  induction run with
  | nil => rfl
  | cons first _ ih =>
      obtain ⟨annotated⟩ := first
      rw [List.map_cons, List.map_cons, ih, EnumMember.outline, MemberDecl.outline,
        annotated.annotations_names]

/-- An enumeration is emitted with the members of its expansion. -/
theorem Taken.enum_outlines {program : Program} {limit : Nat}
    (keyed : ∀ key decl, program.enums.find? key = some decl → decl.name = key) {decl : EnumDecl}
    {enum : EnumDef} (taken : Taken (LowersEnum program limit) decl enum) :
    enum.members.map (·.outline) = (program.enumMembers limit decl).1.map (·.outline) := by
  obtain ⟨_, _, _, gathered, run, _⟩ := taken
  rw [← gathered.eq_enumMembers keyed]
  exact run.member_outlines

/-! ## Documentation -/

/-- Whether there is anything but white space in a block of documentation. -/
def DocDecl.hasContent (decl : DocDecl) : Bool := decl.content.toList.any fun c => !Text.isBlank c

/-- The block is emitted with its scope and with its content normalized. -/
def DocDecl.Becomes (decl : DocDecl) (doc : DocDef) : Prop :=
  doc.scope = decl.scope ∧ Doc.normalize decl.content = some doc.content

theorem docs_lowered (decls : List DocDecl) :
    List.Forall₂ DocDecl.Becomes (decls.filter DocDecl.hasContent)
      (decls.filterMap DocDecl.lower?) := by
  induction decls with
  | nil => exact .nil
  | cons decl rest ih =>
      have hshown : (Doc.normalize decl.content).isSome = decl.hasContent :=
        Doc.isSome_normalize decl.content
      cases hcontent : Doc.normalize decl.content with
      | none =>
          rw [hcontent] at hshown
          rw [List.filter_cons_of_neg (by rw [← hshown]; decide),
            List.filterMap_cons_none (by rw [DocDecl.lower?, hcontent]; rfl)]
          exact ih
      | some content =>
          rw [hcontent] at hshown
          rw [List.filter_cons_of_pos hshown.symm,
            List.filterMap_cons_some (by rw [DocDecl.lower?, hcontent]; rfl)]
          exact .cons ⟨rfl, hcontent⟩ ih

namespace Program

/-- The state in which all types are lowered. -/
def afterTypes (program : Program) (limit : Nat) : Lowering :=
  (eachStep (program.lowerType limit) program.types.sorted {}).2

/-- The state in which all types and enumerations are lowered. -/
def afterEnums (program : Program) (limit : Nat) : Lowering :=
  (eachStep (program.lowerEnum limit) program.enums.sorted (program.afterTypes limit)).2

theorem types_lowered (program : Program) (limit : Nat) :
    Each (LowersType program limit) program.types.sorted {}
      (eachStep (program.lowerType limit) program.types.sorted {}).1 (program.afterTypes limit) :=
  each_eachStep program.types.sorted (fun decl _ st => .total program limit decl st) {}

theorem types_listed (program : Program) (limit : Nat) :
    ∃ entries, program.types.Lists TypeDecl.name TypeDef.name (Taken (LowersType program limit))
        entries ∧ (program.lower limit).schema.types = entries.map Prod.snd :=
  Table.exists_lists (fun _ _ taken => taken.type_name)
    ((program.types_lowered limit).taken (fun _ _ _ _ one => one.frame) rfl)

theorem findType?_related {program : Program}
    (keyed : ∀ key decl, program.types.find? key = some decl → decl.name = key) (limit : Nat)
    (key : String) :
    Option.Rel (Taken (LowersType program limit)) (program.types.find? key)
      ((program.lower limit).schema.findType? key) := by
  obtain ⟨entries, lists, htypes⟩ := program.types_listed limit
  rw [Schema.findType?, htypes]
  exact lists.find?_related keyed key

theorem afterTypes_depth (program : Program) (limit : Nat) : (program.afterTypes limit).depth = 0 :=
  (program.types_lowered limit).frame fun _ _ _ _ one => one.frame

section Enums

variable {program : Program}
  (keyed : ∀ key decl, program.enums.find? key = some decl → decl.name = key) (limit : Nat)

include keyed

theorem enums_lowered :
    Each (LowersEnum program limit) program.enums.sorted (program.afterTypes limit)
      (eachStep (program.lowerEnum limit) program.enums.sorted (program.afterTypes limit)).1
      (program.afterEnums limit) :=
  each_eachStep program.enums.sorted (fun decl _ st => .total keyed limit decl st) _

theorem enums_listed :
    ∃ entries, program.enums.Lists EnumDecl.name EnumDef.name (Taken (LowersEnum program limit))
        entries ∧ (program.lower limit).schema.enums = entries.map Prod.snd :=
  Table.exists_lists (fun _ _ taken => taken.enum_name)
    ((enums_lowered keyed limit).taken (fun _ _ _ _ one => one.frame)
      (program.afterTypes_depth limit))

theorem findEnum?_related (key : String) :
    Option.Rel (Taken (LowersEnum program limit)) (program.enums.find? key)
      ((program.lower limit).schema.findEnum? key) := by
  obtain ⟨entries, lists, henums⟩ := enums_listed keyed limit
  rw [Schema.findEnum?, henums]
  exact lists.find?_related keyed key

theorem constants_listed :
    ∃ entries, program.consts.Lists ConstDecl.name ConstantDef.name
        (Taken (LowersConstant program limit)) entries ∧
      (program.lower limit).schema.constants = entries.map Prod.snd := by
  have hdepth : (program.afterEnums limit).depth = 0 :=
    ((enums_lowered keyed limit).frame fun _ _ _ _ one => one.frame).trans
      (program.afterTypes_depth limit)
  have valued := each_eachStep program.consts.sorted
    (fun decl _ st => LowersConstant.total program limit decl st) (program.afterEnums limit)
  exact Table.exists_lists (fun _ _ taken => taken.constant_name)
    (valued.taken (fun _ _ _ _ one => one.frame) hdepth)

end Enums

/-- Where enumerations are declared under their own names, a lowered schema has one entry for each
type, enumeration and constant, under the name of its declaration; entries are sorted by name,
and by key where they have the same name. If all declarations are under their own names, the
names increase and are the keys, and look-ups succeed for these and no others. The documentation
is that of the blocks with something in them, in their order. -/
theorem lower_lists_declarations (program : Program) (limit : Nat)
    (enums : ∀ key decl, program.enums.find? key = some decl → decl.name = key) :
    let schema := (program.lower limit).schema
    ((∃ entries, program.types.Lists TypeDecl.name TypeDef.name
        (Taken (LowersType program limit)) entries ∧ schema.types = entries.map Prod.snd) ∧
      (∃ entries, program.enums.Lists EnumDecl.name EnumDef.name
        (Taken (LowersEnum program limit)) entries ∧ schema.enums = entries.map Prod.snd) ∧
      ∃ entries, program.consts.Lists ConstDecl.name ConstantDef.name
        (Taken (LowersConstant program limit)) entries ∧
          schema.constants = entries.map Prod.snd) ∧
    ((∀ key decl, program.types.find? key = some decl → decl.name = key) →
      (∀ key decl, program.consts.find? key = some decl → decl.name = key) →
        program.types.Indexed (schema.types.map (·.name)) (schema.findType? · |>.isSome) ∧
        program.enums.Indexed (schema.enums.map (·.name)) (schema.findEnum? · |>.isSome) ∧
        program.consts.Indexed (schema.constants.map (·.name))
          (schema.findConstant? · |>.isSome)) ∧
    List.Forall₂ DocDecl.Becomes (program.standaloneDocs.filter DocDecl.hasContent)
      schema.docs := by
  intro schema
  obtain ⟨typeEntries, htypes, htypesEq⟩ := program.types_listed limit
  obtain ⟨enumEntries, henums, henumsEq⟩ := enums_listed enums limit
  obtain ⟨constEntries, hconsts, hconstsEq⟩ := constants_listed enums limit
  refine ⟨⟨⟨_, htypes, htypesEq⟩, ⟨_, henums, henumsEq⟩, ⟨_, hconsts, hconstsEq⟩⟩,
    fun types consts => ⟨?_, ?_, ?_⟩, docs_lowered program.standaloneDocs⟩
  · have hindexed := htypes.indexed types
    rw [← htypesEq] at hindexed
    exact hindexed
  · have hindexed := henums.indexed enums
    rw [← henumsEq] at hindexed
    exact hindexed
  · have hindexed := hconsts.indexed consts
    rw [← hconstsEq] at hindexed
    exact hindexed

/-- Two types have one name, and nothing but an enumeration is under its own. -/
def misfiled : Program :=
  let labels := ({} : Program).declareEnum ((EnumDecl.called "Label" .string).withName "new")
    |>.document " \n" |>.document "  About parts " "Part"
  { labels with
    types := ((Table.empty.insert "y" ((TypeDecl.called "Part").withDoc "second")).insert "z"
      (TypeDecl.called "Box")).insert "x" ((TypeDecl.called "Part").withDoc "first")
    consts := Table.empty.insert "key" (.called "lost" (.constant "lost")) }

/-- The same with the types and the constant filed under their names. -/
def filed : Program :=
  { misfiled with
    types := (Table.empty.insert "Part" (TypeDecl.called "Part")).insert "Box"
      (TypeDecl.called "Box")
    consts := Table.empty.insert "lost" (.called "lost" (.constant "lost")) }

theorem lower_lists_declarations_misfiled :
    ((misfiled.lower 2).schema.types.map fun type => (type.name, type.doc)) =
        [("Box", none), ("Part", some "first"), ("Part", some "second")] ∧
      (∃ entries, misfiled.types.Lists TypeDecl.name TypeDef.name
        (Taken (LowersType misfiled 2)) entries ∧
          (misfiled.lower 2).schema.types = entries.map Prod.snd) ∧
      List.Forall₂ DocDecl.Becomes [⟨some "Part", "  About parts "⟩]
        (misfiled.lower 2).schema.docs ∧
      filed.types.Indexed ((filed.lower 2).schema.types.map (·.name))
        ((filed.lower 2).schema.findType? · |>.isSome) ∧
      filed.consts.Indexed ((filed.lower 2).schema.constants.map (·.name))
        ((filed.lower 2).schema.findConstant? · |>.isSome) := by
  have enums : ∀ entry ∈ misfiled.enums.entries, entry.2.name = entry.1 := by decide
  have types : ∀ entry ∈ filed.types.entries, entry.2.name = entry.1 := by decide
  have consts : ∀ entry ∈ filed.consts.entries, entry.2.name = entry.1 := by decide
  obtain ⟨⟨htypes, -, -⟩, -, hdocs⟩ := lower_lists_declarations misfiled 2
    fun _ _ found => enums _ (Table.mem_of_find? found)
  obtain ⟨-, hindexed, -⟩ := lower_lists_declarations filed 2
    fun _ _ found => enums _ (Table.mem_of_find? found)
  obtain ⟨hfiled, -, hvalues⟩ := hindexed (fun _ _ found => types _ (Table.mem_of_find? found))
    fun _ _ found => consts _ (Table.mem_of_find? found)
  have hshown : misfiled.standaloneDocs.filter DocDecl.hasContent =
      [⟨some "Part", "  About parts "⟩] := by cbv
  rw [hshown] at hdocs
  exact ⟨by cbv, htypes, hdocs, hfiled, hvalues⟩

end Program

end SchemaIR
