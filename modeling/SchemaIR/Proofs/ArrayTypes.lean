import Mathlib
import SchemaIR.Program.Builder
import SchemaIR.Proofs.Numbers

/-!
# An array type is one node

The dimensions of an array stand together in one node, so a reader of a schema never has to add
up arrays of arrays. Such nodes come from two places that have nothing to do with each other. A
declared type has its dimensions beside its base, and they are put around the base in one step;
no base is an array, whatever is inside it. The type that a value shows is found from the inside
out, one dimension at a time, and the next dimension goes into the node that is there already.

The second place keeps arrays apart only because the node it finds is a merged one, and it has
32 bits to count in. A value that fits under a limit below that cannot exhaust them.
-/

namespace SchemaIR

/-! ## The types inside a type -/

mutual

/-- A type and all types inside it, at any depth. -/
def TypeRef.parts : TypeRef → List TypeRef
  | .array item dims => .array item dims :: item.parts
  | .map value => .map value :: value.parts
  | .object fields => .object fields :: fieldsParts fields
  | .primitive primitive => [.primitive primitive]
  | .named name => [.named name]
  | .enumeration name valueType => [.enumeration name valueType]

/-- The types of fields and all types inside them. -/
def fieldsParts : List Field → List TypeRef
  | [] => []
  | ⟨_, _, _, _, type⟩ :: rest => type.parts ++ fieldsParts rest

end

/-- All types that occur in a schema, at any depth. -/
def Schema.typeParts (schema : Schema) : List TypeRef :=
  schema.types.flatMap (fieldsParts ·.fields) ++ schema.constants.flatMap (·.type.parts)

theorem mem_fieldsParts {part : TypeRef} {fields : List Field} :
    part ∈ fieldsParts fields ↔ ∃ field ∈ fields, part ∈ field.type.parts := by
  induction fields with
  | nil => simp [fieldsParts]
  | cons field rest ih =>
      obtain ⟨name, doc, optional, annotations, type⟩ := field
      rw [fieldsParts, List.mem_append, ih, List.exists_mem_cons_iff]

mutual

theorem TypeRef.mem_dimensions {item : TypeRef} {dims : UInt32} (type : TypeRef)
    (h : .array item dims ∈ type.parts) : dims ∈ type.dimensions := by
  match type with
  | .primitive _ | .named _ | .enumeration _ _ =>
      rw [TypeRef.parts, List.mem_singleton] at h
      cases h
  | .array inner more =>
      rw [TypeRef.parts, List.mem_cons] at h
      rcases h with h | h
      · cases h
        exact List.mem_cons_self
      · exact List.mem_cons_of_mem _ (TypeRef.mem_dimensions inner h)
  | .map value =>
      rw [TypeRef.parts, List.mem_cons] at h
      rcases h with h | h
      · cases h
      · exact TypeRef.mem_dimensions value h
  | .object fields =>
      rw [TypeRef.parts, List.mem_cons] at h
      rcases h with h | h
      · cases h
      · exact mem_fieldsDimensions fields h

theorem mem_fieldsDimensions {item : TypeRef} {dims : UInt32} (fields : List Field)
    (h : .array item dims ∈ fieldsParts fields) : dims ∈ fieldsDimensions fields := by
  match fields with
  | [] => cases h
  | ⟨_, _, _, _, type⟩ :: rest =>
      rw [fieldsParts, List.mem_append] at h
      rw [fieldsDimensions, List.mem_append]
      rcases h with h | h
      · exact .inl (TypeRef.mem_dimensions type h)
      · exact .inr (mem_fieldsDimensions rest h)

end

theorem Schema.mem_dimensions {schema : Schema} {item : TypeRef} {dims : UInt32}
    (h : .array item dims ∈ schema.typeParts) : dims ∈ schema.dimensions := by
  rw [typeParts, List.mem_append, List.mem_flatMap, List.mem_flatMap] at h
  rw [dimensions, List.mem_append, List.mem_flatMap, List.mem_flatMap]
  rcases h with ⟨type, htype, h⟩ | ⟨constant, hconstant, h⟩
  · exact .inl ⟨type, htype, mem_fieldsDimensions type.fields h⟩
  · exact .inr ⟨constant, hconstant, TypeRef.mem_dimensions constant.type h⟩

/-! ## Arrays of arrays -/

namespace TypeRef

/-- Whether a type is an array, whatever its dimensions. -/
def isArray : TypeRef → Bool
  | .array _ _ => true
  | .primitive _ | .named _ | .enumeration _ _ | .map _ | .object _ => false

/-- Whether a type is an array of arrays in two nodes. -/
def isStacked : TypeRef → Bool
  | .array item _ => item.isArray
  | .primitive _ | .named _ | .enumeration _ _ | .map _ | .object _ => false

/-- Nowhere in the type is there an array of arrays in two nodes. -/
def Merged (type : TypeRef) : Prop := ∀ part ∈ type.parts, part.isStacked = false

theorem Simple.merged {type : TypeRef} (h : type.Simple) : type.isArray = false ∧ type.Merged := by
  cases h <;> exact ⟨rfl, List.forall_mem_singleton.mpr rfl⟩

theorem Merged.array {item : TypeRef} (h : item.Merged) (single : item.isArray = false)
    (dims : UInt32) : (array item dims).Merged :=
  List.forall_mem_cons.mpr ⟨single, h⟩

/-- One more dimension goes into the node that is there, or makes the first one. -/
theorem Merged.arrayOf {type : TypeRef} (h : type.Merged) : type.arrayOf.Merged := by
  cases type with
  | array item dims =>
      obtain ⟨hsingle, hitem⟩ := List.forall_mem_cons.mp h
      exact Merged.array hitem hsingle (dims + 1)
  | primitive | named | enumeration | map | object => exact Merged.array h rfl 1

theorem Merged.map {value : TypeRef} (h : value.Merged) : (map value).Merged :=
  List.forall_mem_cons.mpr ⟨rfl, h⟩

theorem Merged.object {fields : List Field} (h : ∀ field ∈ fields, field.type.Merged) :
    (object fields).Merged := by
  refine List.forall_mem_cons.mpr ⟨rfl, fun part hpart => ?_⟩
  obtain ⟨field, hfield, hpart⟩ := mem_fieldsParts.mp hpart
  exact h field hfield part hpart

end TypeRef

/-! ## Declared types -/

/-- The types in an answer are merged. What a base is answered with is no array besides, so that
dimensions can be put around it. -/
def FieldQuery.Merged : (query : FieldQuery) → query.Answer → Prop
  | .type _ => TypeRef.Merged
  | .base _ => fun type => type.isArray = false ∧ type.Merged
  | .object _ | .fields _ => fun fields => ∀ field ∈ fields, field.type.Merged
  | .field _ => fun field => field.type.Merged
  | .spreads _ _ => fun answer => ∀ field ∈ answer.1, field.type.Merged

theorem Flattens.merged {program : Program} {limit : Nat} {query : FieldQuery} {st st' : Lowering}
    {answer : query.Answer} (run : Flattens program limit query st answer st') :
    query.Merged answer := by
  induction run with
  | plain _ ih => exact ih.2
  | array _ _ ih => exact ih.2.array ih.1 _
  | primitive => exact (Program.lowerPrimitive_simple _ _).merged
  | custom => exact (program.namedType_simple _).merged
  | map _ ih => exact ⟨rfl, .map ih⟩
  | inline _ ih => exact ⟨rfl, .object ih⟩
  | field _ _ ih => exact ih
  | refusedObject | noFields | noSpreads => exact List.forall_mem_nil _
  | object _ _ _ ih₁ ih₂ => exact List.forall_mem_append.mpr ⟨ih₁, ih₂⟩
  | moreFields _ _ ih₁ ih₂ => exact List.forall_mem_cons.mpr ⟨ih₁, ih₂⟩
  | memberSpread _ _ ih | circularSpread _ _ _ ih | undeclaredSpread _ _ _ _ ih
  | refusedSpread _ _ _ _ _ ih => exact ih
  | spread _ _ _ _ _ _ _ ih₁ ih₂ ih₃ =>
      refine List.forall_mem_append.mpr ⟨List.forall_mem_append.mpr ⟨ih₁, ih₂⟩, ih₃⟩

/-! ## Types that values show -/

mutual

theorem Value.inferType_merged (value : Value) : value.inferType.Merged := by
  match value with
  | .string _ | .int _ | .float _ | .bool _ => exact (TypeRef.Simple.primitive _).merged.2
  | .object entries => exact .object (inferFields_merged entries)
  | .array [] => exact (TypeRef.Simple.primitive .string).merged.2.array rfl 1
  | .array (item :: rest) =>
      rw [Value.inferType]
      exact item.inferType_merged.arrayOf

theorem inferFields_merged (entries : List (String × Value)) :
    ∀ field ∈ inferFields entries, field.type.Merged := by
  match entries with
  | [] => exact List.forall_mem_nil _
  | (key, value) :: rest =>
      rw [inferFields, List.forall_mem_cons]
      exact ⟨value.inferType_merged, inferFields_merged rest⟩

end

/-! ## Lowered schemas -/

namespace Program

variable {program : Program} {limit : Nat}

theorem constantType_merged (program : Program) (decl : ConstDecl) (value : Value) :
    (program.constantType decl value).Merged := by
  rcases program.constantType_cases decl value with h | h
  · rw [h]
    exact value.inferType_merged
  · exact h.merged.2

theorem typeFields_merged (program : Program) (limit : Nat) (decl : TypeDecl) (st : Lowering) :
    ∀ field ∈ (program.typeFields limit decl st).1, field.type.Merged := by
  have hinherited := program.flattens_flatten limit (.spreads decl.spreads [decl.name]) st
  have hown := program.flattens_flatten limit (.fields decl.fields)
    (program.flatten limit (.spreads decl.spreads [decl.name]) st).2
  rw [typeFields, List.forall_mem_append]
  exact ⟨hinherited.merged, hown.merged⟩

theorem lower_merged {part : TypeRef} (h : part ∈ (program.lower limit).schema.typeParts) :
    part.isStacked = false := by
  rw [Schema.typeParts, List.mem_append, List.mem_flatMap, List.mem_flatMap] at h
  rcases h with ⟨type, htype, hpart⟩ | ⟨constant, hconstant, hpart⟩
  · obtain ⟨decl, -, st, rfl⟩ := exists_of_mem_eachStep (mem_sortByName.mp htype)
    obtain ⟨field, hfield, hpart⟩ := mem_fieldsParts.mp hpart
    exact program.typeFields_merged limit decl _ field hfield part hpart
  · obtain ⟨decl, -, st, rfl⟩ := exists_of_mem_eachStep (mem_sortByName.mp hconstant)
    exact program.constantType_merged decl _ part hpart

/-- Wherever an array type occurs in a lowered schema, it has at least one dimension, and what it
is an array of is no array type. The limit has to leave room for the count of dimensions. -/
theorem lower_arrays_merged (program : Program) (limit : Nat) (room : limit < UInt32.size - 1)
    (item : TypeRef) (dims : UInt32)
    (h : .array item dims ∈ (program.lower limit).schema.typeParts) :
    1 ≤ dims.toNat ∧ ∀ inner more, item ≠ .array inner more := by
  constructor
  · have hcounted := program.lower_dimensions limit fun constant hconstant =>
      lower_depth_lt room hconstant
    have hdims : dims ≠ 0 := fun hzero => hcounted (hzero ▸ Schema.mem_dimensions h)
    have htoNat : dims.toNat ≠ 0 := fun hzero => hdims (UInt32.toNat_inj.mp hzero)
    omega
  · rintro inner more rfl
    have hstacked := lower_merged h
    cases hstacked

/-- Arrays of arrays all over: in a field of maps and inline objects, in what spreads bring in,
and in a constant that takes an array from another one. -/
def grids : Program :=
  let cells := ({} : InlineObject).withSpread "Row" |>.withField
    (.called "marks" ((FieldType.primitive "bool").arrayOf 1))
  ({} : Program).declareType ((TypeDecl.called "Row").withField
      (.called "cells" ((FieldType.primitive "int").arrayOf 2)))
    |>.declareType ((TypeDecl.called "Sheet").withField
      (.called "rows" ((FieldType.map ((FieldType.object cells).arrayOf 1)).arrayOf 3)))
    |>.declareConst (.called "line" (.array [.array []]))
    |>.declareConst (.called "plane" (.array [.constant "line"]))

theorem lower_arrays_merged_grids :
    let parts := (grids.lower 4).schema.typeParts
    let ints := [TypeRef.array (.primitive .int) 2, .primitive .int]
    let cells := TypeRef.object [⟨"cells", none, false, [], .array (.primitive .int) 2⟩,
      ⟨"marks", none, false, [], .array (.primitive .bool) 1⟩]
    let rows := TypeRef.map (.array cells 1)
    parts = ints ++ [.array rows 3, rows, .array cells 1, cells] ++ ints ++
        [.array (.primitive .bool) 1, .primitive .bool, .array (.primitive .string) 2,
          .primitive .string, .array (.primitive .string) 3, .primitive .string] ∧
      (1 ≤ (3 : UInt32).toNat ∧ ∀ inner more, rows ≠ .array inner more) ∧
      (1 ≤ (3 : UInt32).toNat ∧ ∀ inner more, .primitive .string ≠ TypeRef.array inner more) := by
  intro parts ints cells rows
  have hparts : parts = ints ++ [.array rows 3, rows, .array cells 1, cells] ++ ints ++
      [.array (.primitive .bool) 1, .primitive .bool, .array (.primitive .string) 2,
        .primitive .string, .array (.primitive .string) 3, .primitive .string] := by
    dsimp only [parts, ints, cells, rows]
    cbv
  have hmerged := lower_arrays_merged grids 4 (by decide)
  refine ⟨hparts, hmerged rows 3 ?_, hmerged (.primitive .string) 3 ?_⟩
  · show _ ∈ parts
    rw [hparts]
    simp
  · show _ ∈ parts
    rw [hparts]
    simp

end Program

end SchemaIR
