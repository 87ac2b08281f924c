import Mathlib
import SchemaIR.Program.Builder
import SchemaIR.Proofs.Flattening
import SchemaIR.Proofs.Memoization

/-!
# References in a lowered schema

A lowered type refers to other declarations by name, on any level of it, and says of each name
whether it is that of a type or that of an enumeration, and then with which values. Whoever
reads the schema looks the names up in it. This file is about these look-ups.

Flattening makes references in one place only, from a name that is declared as the type of a
field; the rest of it moves fields around. So wherever a reference turns up, through whatever
spreads and inline objects it got there, it says what `Program.namedType` says of its name. The
other half is that a declaration is emitted under its own name, once.
-/

namespace SchemaIR

/-! ## What refers -/

mutual

/-- The references in a type, at any depth. -/
def TypeRef.references : TypeRef → List TypeRef
  | .named name => [.named name]
  | .enumeration name valueType => [.enumeration name valueType]
  | .array item _ => item.references
  | .map value => value.references
  | .object fields => fieldsReferences fields
  | .primitive _ => []

/-- The references in the types of fields. -/
def fieldsReferences : List Field → List TypeRef
  | [] => []
  | ⟨_, _, _, _, type⟩ :: rest => type.references ++ fieldsReferences rest

end

/-- All references in a schema. -/
def Schema.references (schema : Schema) : List TypeRef :=
  schema.types.flatMap (fieldsReferences ·.fields) ++
    schema.constants.flatMap (·.type.references)

theorem fieldsReferences_append (fields more : List Field) :
    fieldsReferences (fields ++ more) = fieldsReferences fields ++ fieldsReferences more := by
  induction fields with
  | nil => rfl
  | cons field rest ih =>
      obtain ⟨name, doc, optional, annotations, type⟩ := field
      simp only [List.cons_append, fieldsReferences, ih, List.append_assoc]

mutual

/-- The names that a declared type refers to, at any depth. -/
def FieldType.customs : FieldType → List String
  | ⟨base, _⟩ => base.customs

/-- The names that a base refers to. -/
def BaseType.customs : BaseType → List String
  | .primitive _ => []
  | .custom name => [name]
  | .map value => value.customs
  | .object body => body.customs

/-- The names that the fields of an inline object refer to. Its spreads do not count. -/
def InlineObject.customs : InlineObject → List String
  | ⟨fields, _⟩ => fieldsCustoms fields

/-- The names that the type of a declared field refers to. -/
def FieldDecl.customs : FieldDecl → List String
  | ⟨_, _, _, _, type⟩ => type.customs

/-- The names that the types of declared fields refer to. -/
def fieldsCustoms : List FieldDecl → List String
  | [] => []
  | field :: rest => field.customs ++ fieldsCustoms rest

end

/-- The names that the fields of declared types refer to. -/
def Program.customs (program : Program) : List String :=
  program.types.sorted.flatMap (fieldsCustoms ·.fields)

theorem Program.mem_customs {program : Program} {key name : String} {decl : TypeDecl}
    (found : program.types.find? key = some decl) (h : name ∈ fieldsCustoms decl.fields) :
    name ∈ program.customs :=
  List.mem_flatMap.mpr ⟨decl, Table.mem_sorted.mpr ⟨key, found⟩, h⟩

/-! ## Flattening -/

namespace FieldQuery

/-- The references in what is answered. -/
def references : (query : FieldQuery) → query.Answer → List TypeRef
  | .type _ => TypeRef.references
  | .base _ => TypeRef.references
  | .object _ => fieldsReferences
  | .field _ => fun field => field.type.references
  | .fields _ => fieldsReferences
  | .spreads _ _ => fun answer => fieldsReferences answer.1

/-- The names in what is asked for. Spreads bring those of other declarations. -/
def customs : FieldQuery → List String
  | .type declared => declared.customs
  | .base declared => declared.customs
  | .object body => body.customs
  | .field decl => decl.customs
  | .fields decls => fieldsCustoms decls
  | .spreads _ _ => []

end FieldQuery

namespace Program

variable {program : Program} {limit : Nat}

theorem lowerPrimitive_references (name : String) (st : Lowering) :
    (lowerPrimitive name st).1.references = [] := by
  unfold lowerPrimitive
  cases Primitive.ofName? name <;> rfl

theorem namedType_references (program : Program) (name : String) :
    (program.namedType name).references = [program.namedType name] := by
  unfold namedType
  cases program.enums.find? name <;> rfl

/-- The reference says what the program says of one of the names. -/
def Cites (program : Program) (names : List String) (reference : TypeRef) : Prop :=
  ∃ name, (name ∈ names ∨ name ∈ program.customs) ∧ reference = program.namedType name

theorem Cites.weaken {names more : List String} {reference : TypeRef}
    (h : program.Cites names reference)
    (subset : ∀ name ∈ names, name ∈ more ∨ name ∈ program.customs) :
    program.Cites more reference := by
  obtain ⟨name, hname, rfl⟩ := h
  exact ⟨name, hname.elim (subset name) .inr, rfl⟩

end Program

/-- Every reference in an answer is made from a name in the query or in some declaration. -/
theorem Flattens.cites {program : Program} {limit : Nat} {query : FieldQuery}
    {st st' : Lowering} {answer : query.Answer}
    (run : Flattens program limit query st answer st') :
    ∀ reference ∈ query.references answer, program.Cites query.customs reference := by
  induction run with
  | plain _ ih | array _ _ ih | map _ ih | inline _ ih | field _ _ ih => exact ih
  | @primitive name st =>
      rw [FieldQuery.references, Program.lowerPrimitive_references]
      exact List.forall_mem_nil _
  | @custom name st =>
      rw [FieldQuery.references, Program.namedType_references, List.forall_mem_singleton]
      exact ⟨name, .inl (List.mem_singleton_self name), rfl⟩
  | refusedObject | noFields | noSpreads => exact List.forall_mem_nil _
  | object _ _ _ ih₁ ih₂ =>
      rw [FieldQuery.references, fieldsReferences_append, List.forall_mem_append]
      exact ⟨fun reference h => (ih₁ reference h).weaken (List.forall_mem_nil _), ih₂⟩
  | @moreFields field rest result _ _ _ _ _ _ ih₁ ih₂ =>
      obtain ⟨name, doc, optional, annotations, type⟩ := result
      refine List.forall_mem_append.mpr ⟨fun reference h => ?_, fun reference h => ?_⟩
      · exact (ih₁ reference h).weaken fun name h => .inl (List.mem_append_left _ h)
      · exact (ih₂ reference h).weaken fun name h => .inl (List.mem_append_right _ h)
  | memberSpread _ _ ih | circularSpread _ _ _ ih | undeclaredSpread _ _ _ _ ih
  | refusedSpread _ _ _ _ _ ih => exact ih
  | spread _ _ found _ _ _ _ ih₁ ih₂ ih₃ =>
      simp only [FieldQuery.references, fieldsReferences_append, List.forall_mem_append]
      refine ⟨⟨ih₁, fun reference h => ?_⟩, ih₃⟩
      exact (ih₂ reference h).weaken fun name h => .inr (Program.mem_customs found h)

/-! ## Constants

A constant refers to what it is declared as. The type that a value shows is made of primitives. -/

theorem TypeRef.arrayOf_references (type : TypeRef) :
    type.arrayOf.references = type.references := by
  cases type <;> rfl

mutual

theorem Value.inferType_references (value : Value) : value.inferType.references = [] := by
  match value with
  | .string _ | .int _ | .float _ | .bool _ | .array [] => rfl
  | .object entries => exact inferFields_references entries
  | .array (item :: rest) =>
      rw [Value.inferType, TypeRef.arrayOf_references, item.inferType_references]

theorem inferFields_references (entries : List (String × Value)) :
    fieldsReferences (inferFields entries) = [] := by
  match entries with
  | [] => rfl
  | (key, value) :: rest =>
      rw [inferFields, fieldsReferences, value.inferType_references, inferFields_references rest]
      rfl

end

namespace Program

variable {program : Program} {limit : Nat} {reference : TypeRef}

/-- The name is declared as a type or as an enumeration. -/
def Declares (program : Program) (name : String) : Prop :=
  program.types.contains name ∨ program.enums.contains name

theorem declaredType?_references {name : String} {type : TypeRef}
    (h : program.declaredType? name = some type) (hreference : reference ∈ type.references) :
    program.Declares name ∧ reference = program.namedType name := by
  unfold declaredType? at h
  split at h
  · cases h
    cases hreference
  · split at h
    · next declared =>
        cases h
        rw [namedType_references, List.mem_singleton] at hreference
        exact ⟨((Bool.or_eq_true _ _).mp declared).symm, hreference⟩
    · cases h

theorem constantType_references {decl : ConstDecl} {value : Value}
    (h : reference ∈ (program.constantType decl value).references) :
    ∃ name, program.Declares name ∧ reference = program.namedType name := by
  unfold constantType at h
  cases hdeclared : decl.explicitType.bind program.declaredType? with
  | none =>
      rw [hdeclared, Option.getD_none, value.inferType_references] at h
      cases h
  | some type =>
      rw [hdeclared, Option.getD_some] at h
      obtain ⟨name, -, hname⟩ := Option.bind_eq_some_iff.mp hdeclared
      exact ⟨name, declaredType?_references hname h⟩

theorem typeFields_cites (program : Program) (limit : Nat) (decl : TypeDecl) (st : Lowering) :
    ∀ reference ∈ fieldsReferences (program.typeFields limit decl st).1,
      program.Cites (fieldsCustoms decl.fields) reference := by
  have hinherited := program.flattens_flatten limit (.spreads decl.spreads [decl.name]) st
  have hown := program.flattens_flatten limit (.fields decl.fields)
    (program.flatten limit (.spreads decl.spreads [decl.name]) st).2
  rw [typeFields, fieldsReferences_append, List.forall_mem_append]
  refine ⟨fun reference h => ?_, hown.cites⟩
  exact (hinherited.cites reference h).weaken (List.forall_mem_nil _)

/-- Every reference in a lowered schema says what the program says of its name, which is that of
a declaration or that of the type of a field. -/
theorem lower_cites (h : reference ∈ (program.lower limit).schema.references) :
    ∃ name, (name ∈ program.customs ∨ program.Declares name) ∧
      reference = program.namedType name := by
  rcases List.mem_append.mp h with h | h
  · obtain ⟨type, htype, hreference⟩ := List.mem_flatMap.mp h
    obtain ⟨decl, hdecl, st, rfl⟩ := exists_of_mem_eachStep (mem_sortByName.mp htype)
    obtain ⟨key, found⟩ := Table.mem_sorted.mp hdecl
    obtain ⟨name, hname, rfl⟩ := program.typeFields_cites limit decl _ reference hreference
    exact ⟨name, .inl (hname.elim (mem_customs found) id), rfl⟩
  · obtain ⟨constant, hconstant, hreference⟩ := List.mem_flatMap.mp h
    obtain ⟨decl, -, st, rfl⟩ := exists_of_mem_eachStep (mem_sortByName.mp hconstant)
    obtain ⟨name, hdeclared, rfl⟩ := constantType_references hreference
    exact ⟨name, .inr hdeclared, rfl⟩

/-! ## What is referred to -/

section Emission

variable {α β : Type} {table : Table α} {key : α → String} {name : β → String}
  {step : α → Step β}

/-- Where declarations stand under their own names, what is emitted of them is found under the
same names. -/
theorem find?_sortByName_eachStep
    (keyed : ∀ wanted a, table.find? wanted = some a → key a = wanted)
    (named : ∀ a st, name (step a st).1 = key a) (st : Lowering) (wanted : String) :
    ∃ mid, (sortByName name (eachStep step table.sorted st).1).find? (name · = wanted) =
      (table.find? wanted).map fun a => (step a mid).1 := by
  set emitted := sortByName name (eachStep step table.sorted st).1 with hemitted
  have origin : ∀ b ∈ emitted, ∃ a mid, table.find? (name b) = some a ∧ (step a mid).1 = b := by
    intro b hb
    obtain ⟨a, ha, mid, rfl⟩ := exists_of_mem_eachStep (mem_sortByName.mp hb)
    obtain ⟨other, found⟩ := Table.mem_sorted.mp ha
    refine ⟨a, mid, ?_, rfl⟩
    rw [named, keyed other a found, found]
  cases hfind : emitted.find? (name · = wanted) with
  | some b =>
      have hname : name b = wanted := by simpa using List.find?_some hfind
      obtain ⟨a, mid, found, rfl⟩ := origin b (List.mem_of_find?_eq_some hfind)
      rw [hname] at found
      exact ⟨mid, by rw [found, Option.map_some]⟩
  | none =>
      refine ⟨st, ?_⟩
      cases found : table.find? wanted with
      | none => rfl
      | some a =>
          obtain ⟨b, hmem, hname⟩ := exists_mem_sortByName named found st
          have habsent := List.find?_eq_none.mp hfind b hmem
          simp [hname, keyed wanted a found] at habsent

end Emission

theorem findType?_lower (limit : Nat)
    (keyed : ∀ key decl, program.types.find? key = some decl → decl.name = key) (name : String) :
    ((program.lower limit).schema.findType? name).isSome = program.types.contains name := by
  have named : ∀ decl st, (program.lowerType limit decl st).1.name = decl.name := fun _ _ => rfl
  obtain ⟨mid, h⟩ := find?_sortByName_eachStep keyed named {} name
  have hfind : (program.lower limit).schema.findType? name = _ := h
  rw [hfind, Option.isSome_map]
  rfl

theorem findEnum?_lower (limit : Nat)
    (keyed : ∀ key decl, program.enums.find? key = some decl → decl.name = key) (name : String) :
    ((program.lower limit).schema.findEnum? name).map EnumDef.valueType =
      (program.enums.find? name).map EnumDecl.valueType := by
  let types := eachStep (program.lowerType limit) program.types.sorted {}
  have named : ∀ decl st, (program.lowerEnum limit decl st).1.name = decl.name := fun _ _ => rfl
  obtain ⟨mid, h⟩ := find?_sortByName_eachStep keyed named types.2 name
  have hfind : (program.lower limit).schema.findEnum? name = _ := h
  rw [hfind, Option.map_map]
  rfl

/-- Where types and enumerations are declared under their own names, an enumeration that a
lowered schema refers to is found in it, with the values that the reference says it has. If the
fields of types refer to nothing that is not declared, then a type that the schema refers to is
found in it too, and no enumeration has its name. -/
theorem references_found (program : Program) (limit : Nat)
    (types : ∀ key decl, program.types.find? key = some decl → decl.name = key)
    (enums : ∀ key decl, program.enums.find? key = some decl → decl.name = key) :
    let schema := (program.lower limit).schema
    (∀ name valueType, .enumeration name valueType ∈ schema.references →
      ∃ enum, schema.findEnum? name = some enum ∧ enum.valueType = valueType) ∧
    ((∀ name ∈ program.customs, program.Declares name) →
      ∀ name, .named name ∈ schema.references →
        (∃ type, schema.findType? name = some type) ∧ schema.findEnum? name = none ∧
          program.enums.contains name = false) := by
  intro schema
  refine ⟨fun name valueType h => ?_, fun declared name h => ?_⟩
  · obtain ⟨other, -, hname⟩ := lower_cites h
    unfold namedType at hname
    split at hname
    · next decl found =>
        cases hname
        have henum := findEnum?_lower limit enums name
        rw [found, Option.map_some] at henum
        exact Option.map_eq_some_iff.mp henum
    · cases hname
  · obtain ⟨other, hother, hname⟩ := lower_cites h
    have hdeclared : program.Declares other := hother.elim (declared other) id
    unfold namedType at hname
    split at hname
    · cases hname
    · next absent =>
        cases hname
        have habsent : program.enums.contains name = false := by
          rw [Table.contains, absent]
          rfl
        have htype : program.types.contains name := by simpa [Declares, habsent] using hdeclared
        have henum := findEnum?_lower limit enums name
        rw [absent, Option.map_none, Option.map_eq_none_iff] at henum
        rw [← findType?_lower limit types] at htype
        exact ⟨Option.isSome_iff_exists.mp htype, henum, habsent⟩

/-- An enumeration is referred to in an array, in a map and in an inline object that spreads the
type it belongs to, and by a constant. -/
def warehouse : Program :=
  ({} : Program).declareEnum ((EnumDecl.called "Size" .int).withMember "Large" "3")
    |>.declareType ((TypeDecl.called "Part").withField
        (.called "sizes" ((FieldType.custom "Size").arrayOf 2)))
    |>.declareType ((TypeDecl.called "Shelf").withField
        (.called "boxes" (.map (.object ((({} : InlineObject).withSpread "Part").withField
          (.called "lids" ((FieldType.custom "Part").arrayOf 1)))))))
    |>.declareConst ((ConstDecl.called "usual" (.member "Size" "Large")).typed "Size")

theorem references_found_warehouse :
    let schema := (warehouse.lower 4).schema
    schema.references = [.enumeration "Size" .int, .enumeration "Size" .int, .named "Part",
      .enumeration "Size" .int] ∧
    (∃ enum, schema.findEnum? "Size" = some enum ∧ enum.valueType = .int) ∧
    (∃ type, schema.findType? "Part" = some type) ∧ schema.findEnum? "Part" = none := by
  intro schema
  have types : ∀ entry ∈ warehouse.types.entries, entry.2.name = entry.1 := by decide
  have enums : ∀ entry ∈ warehouse.enums.entries, entry.2.name = entry.1 := by decide
  have declared : ∀ name ∈ warehouse.customs, warehouse.Declares name := by
    have hcustoms : warehouse.customs = ["Size", "Part"] := by cbv
    rw [hcustoms]
    simp only [Declares]
    decide
  have hreferences : schema.references = [.enumeration "Size" .int, .enumeration "Size" .int,
      .named "Part", .enumeration "Size" .int] := by cbv
  obtain ⟨henums, htypes⟩ := references_found warehouse 4
    (fun _ _ found => types _ (Table.mem_of_find? found))
    (fun _ _ found => enums _ (Table.mem_of_find? found))
  have hsize := henums "Size" .int (by rw [hreferences]; simp)
  obtain ⟨hpart, hnone, -⟩ := htypes declared "Part" (by rw [hreferences]; simp)
  exact ⟨hreferences, hsize, hpart, hnone⟩

end Program

end SchemaIR
