import Mathlib
import SchemaIR.Proofs.Numbers

/-!
# How deep the document of a schema nests

A schema is written as nested objects and arrays, several of them for each level of what they
stand for: an object value takes three, for itself, the list of its entries and the entry. This
file counts them. Values nest under the limit, and so do the types that they show, so the part of
a document that comes from values has a bound that only the limit enters. What is left are the
fields of types, which have none.
-/

namespace SchemaIR

namespace Json

theorem itemsDepth_le {items : List Json} {bound : Nat} :
    itemsDepth items ≤ bound ↔ ∀ item ∈ items, item.depth ≤ bound := by
  induction items with
  | nil => simp [itemsDepth]
  | cons item rest ih => rw [itemsDepth, Nat.max_le, ih, List.forall_mem_cons]

theorem itemsDepth_map_le {α : Type} {encode : α → Json} {as : List α} {bound : Nat} :
    itemsDepth (as.map encode) ≤ bound ↔ ∀ a ∈ as, (encode a).depth ≤ bound := by
  rw [itemsDepth_le, List.forall_mem_map]

theorem elim_text_depth (text? : Option String) : (text?.map Json.string).elim 0 depth = 0 := by
  cases text? <;> rfl

end Json

/-- How deep the documents of annotations nest. -/
def annotationsDepth (annotations : List Annotation) : Nat :=
  Json.itemsDepth (annotations.map Annotation.toJson)

/-- How deep the documents of fields nest. -/
def fieldsDepth (fields : List Field) : Nat := Json.itemsDepth (fieldsToJson fields)

theorem fieldsDepth_le {fields : List Field} {bound : Nat} :
    fieldsDepth fields ≤ bound ↔ ∀ field ∈ fields, field.toJson.depth ≤ bound := by
  rw [fieldsDepth, fieldsToJson_eq_map, Json.itemsDepth_map_le]

theorem fieldsDepth_append_le {fields more : List Field} {bound : Nat} :
    fieldsDepth (fields ++ more) ≤ bound ↔
      fieldsDepth fields ≤ bound ∧ fieldsDepth more ≤ bound := by
  simp only [fieldsDepth_le, List.forall_mem_append]

theorem Annotation.toJson_depth (a : Annotation) :
    a.toJson.depth = 1 + a.argument.elim 0 (·.toJson.depth) := by
  unfold Annotation.toJson
  rw [Json.depth_record]
  cases a.argument <;> simp [Json.fieldsDepth, Json.depth]

theorem Field.toJson_depth (name : String) (doc : Option String) (optional : Bool)
    (annotations : List Annotation) (type : TypeRef) :
    (Field.mk name doc optional annotations type).toJson.depth =
      1 + max (1 + annotationsDepth annotations) type.toJson.depth := by
  rw [Field.toJson, Json.depth_record]
  simp only [Json.fieldsDepth, Json.elim_text_depth, Json.depth, Option.elim_some, annotationsDepth]
  omega

/-! ## Values and the types they show -/

mutual

theorem Value.toJson_depth_lt (value : Value) : value.toJson.depth < 3 * value.depth := by
  match value with
  | .string _ | .int _ | .float _ | .bool _ => exact (by decide : 1 < 3)
  | .object entries =>
      have hentries := entriesToJson_depth_le entries
      simp only [Value.toJson, Json.depth, Json.membersDepth, Value.depth]
      omega
  | .array items =>
      have hitems := itemsToJson_depth_le items
      simp only [Value.toJson, Json.depth, Json.membersDepth, Value.depth]
      omega

theorem entriesToJson_depth_le (entries : List (String × Value)) :
    Json.itemsDepth (entriesToJson entries) ≤ 3 * Value.entriesDepth entries := by
  match entries with
  | [] => exact Nat.le_refl 0
  | (key, value) :: rest =>
      have hvalue := value.toJson_depth_lt
      have hrest := entriesToJson_depth_le rest
      simp only [entriesToJson, Json.itemsDepth, Json.depth, Json.membersDepth, Value.entriesDepth]
      omega

theorem itemsToJson_depth_le (items : List Value) :
    Json.itemsDepth (itemsToJson items) ≤ 3 * Value.itemsDepth items := by
  match items with
  | [] => exact Nat.le_refl 0
  | item :: rest =>
      have hitem := item.toJson_depth_lt
      have hrest := itemsToJson_depth_le rest
      simp only [itemsToJson, Json.itemsDepth, Value.itemsDepth]
      omega

end

theorem TypeRef.arrayOf_toJson_depth_le (type : TypeRef) :
    type.arrayOf.toJson.depth ≤ 1 + type.toJson.depth := by
  cases type <;> simp only [TypeRef.arrayOf, TypeRef.toJson, Json.depth, Json.membersDepth] <;>
    omega

mutual

theorem Value.inferType_depth_lt (value : Value) :
    value.inferType.toJson.depth < 3 * value.depth := by
  match value with
  | .string _ | .int _ | .float _ | .bool _ => exact (by decide : 1 < 3)
  | .array [] => exact (by decide : 2 < 3)
  | .object entries =>
      have hfields := inferFields_depth_le entries
      rw [fieldsDepth] at hfields
      simp only [Value.inferType, TypeRef.toJson, Json.depth, Json.membersDepth, Value.depth]
      omega
  | .array (item :: rest) =>
      have hitem := item.inferType_depth_lt
      have harray := item.inferType.arrayOf_toJson_depth_le
      simp only [Value.inferType, Value.depth, Value.itemsDepth]
      omega

theorem inferFields_depth_le (entries : List (String × Value)) :
    fieldsDepth (inferFields entries) ≤ 3 * Value.entriesDepth entries := by
  match entries with
  | [] => exact Nat.le_refl 0
  | (key, value) :: rest =>
      have hvalue := value.inferType_depth_lt
      have hrest := inferFields_depth_le rest
      have hfield := Field.toJson_depth key none false [] value.inferType
      have hannotations : annotationsDepth [] = 0 := rfl
      simp only [inferFields, fieldsDepth, fieldsToJson, Json.itemsDepth, Value.entriesDepth]
        at hrest ⊢
      omega

end

/-! ## Schemas -/

/-- The document of a value that nests at most one level deeper than the limit. -/
def valueLevels (limit : Nat) : Nat := 3 * limit + 2

theorem Value.toJson_depth_le {value : Value} {limit : Nat} (capped : value.depth ≤ limit + 1) :
    value.toJson.depth ≤ valueLevels limit := by
  have hvalue := value.toJson_depth_lt
  unfold valueLevels
  omega

theorem annotationsDepth_le {annotations : List Annotation} {limit : Nat}
    (capped : ∀ value ∈ annotationsArguments annotations, value.depth ≤ limit + 1) :
    annotationsDepth annotations ≤ 1 + valueLevels limit := by
  refine Json.itemsDepth_map_le.mpr fun a hmem => ?_
  rw [a.toJson_depth]
  cases hargument : a.argument with
  | none => exact Nat.le_add_right 1 _
  | some value =>
      have hvalue : value ∈ annotationsArguments annotations :=
        List.mem_flatMap.mpr ⟨a, hmem, Option.mem_toList.mpr hargument⟩
      exact Nat.add_le_add_left (Value.toJson_depth_le (capped value hvalue)) 1

theorem TypeDef.toJson_depth (type : TypeDef) :
    type.toJson.depth = 2 + max (annotationsDepth type.annotations) (fieldsDepth type.fields) := by
  rw [TypeDef.toJson, Json.depth_record]
  simp only [Json.fieldsDepth, Json.elim_text_depth, Json.depth, Option.elim_some,
    annotationsDepth, fieldsDepth]
  omega

theorem EnumMember.toJson_depth (member : EnumMember) :
    member.toJson.depth = 2 + annotationsDepth member.annotations := by
  rw [EnumMember.toJson, Json.depth_record]
  simp only [Json.fieldsDepth, Json.elim_text_depth, Json.depth, Option.elim_some, annotationsDepth]
  omega

theorem EnumDef.toJson_depth (enum : EnumDef) :
    enum.toJson.depth = 2 + max (annotationsDepth enum.annotations)
      (Json.itemsDepth (enum.members.map EnumMember.toJson)) := by
  rw [EnumDef.toJson, Json.depth_record]
  simp only [Json.fieldsDepth, Json.elim_text_depth, Json.depth, Option.elim_some, annotationsDepth]
  omega

theorem ConstantDef.toJson_depth (constant : ConstantDef) :
    constant.toJson.depth = 1 + max (1 + annotationsDepth constant.annotations)
      (max constant.type.toJson.depth constant.value.toJson.depth) := by
  rw [ConstantDef.toJson, Json.depth_record]
  simp only [Json.fieldsDepth, Json.elim_text_depth, Json.depth, Option.elim_some, annotationsDepth]
  omega

theorem DocDef.toJson_depth (doc : DocDef) : doc.toJson.depth = 1 := by
  rw [DocDef.toJson, Json.depth_record]
  simp only [Json.fieldsDepth, Json.elim_text_depth, Json.depth, Option.elim_some]
  omega

theorem Schema.toJson_depth (schema : Schema) :
    schema.toJson.depth = 2 + max (Json.itemsDepth (schema.types.map TypeDef.toJson))
      (max (Json.itemsDepth (schema.enums.map EnumDef.toJson))
        (max (Json.itemsDepth (schema.constants.map ConstantDef.toJson))
          (Json.itemsDepth (schema.docs.map DocDef.toJson)))) := by
  simp only [Schema.toJson, Json.depth, Json.membersDepth]
  omega

theorem TypeRef.Simple.depth {type : TypeRef} (h : type.Simple) : type.toJson.depth = 1 := by
  cases h <;> rfl

namespace Program

variable {program : Program} {limit : Nat}

theorem lower_argument_depth_le {value : Value}
    (h : value ∈ (program.lower limit).schema.arguments) : value.depth ≤ limit + 1 := by
  obtain ⟨_, _, _, _, _, hcapped⟩ :=
    ((lowerAll_visited program limit {}).1.emits value h).capped
  exact hcapped.1

theorem constantType_depth_le (program : Program) (decl : ConstDecl) {value : Value}
    (capped : value.depth ≤ limit + 1) :
    (program.constantType decl value).toJson.depth ≤ valueLevels limit := by
  unfold valueLevels
  rcases program.constantType_cases decl value with h | h
  · have hinferred := value.inferType_depth_lt
    rw [h]
    omega
  · rw [h.depth]
    omega

/-- A bound that leaves room for values under the limit is kept by the document of a lowered
schema if the fields of its types keep it. -/
theorem lower_depth_le_iff {bound : Nat} (room : valueLevels limit + 7 ≤ bound) :
    (program.lower limit).schema.toJson.depth ≤ bound ↔
      ∀ type ∈ (program.lower limit).schema.types, ∀ field ∈ type.fields,
        4 + field.toJson.depth ≤ bound := by
  set schema := (program.lower limit).schema
  have hcapped : ∀ value ∈ schema.arguments, value.depth ≤ limit + 1 :=
    fun value => lower_argument_depth_le
  simp only [Schema.arguments, List.mem_append, List.mem_flatMap] at hcapped
  rw [schema.toJson_depth]
  constructor
  · intro hdepth type htype field hfield
    have htypes := Json.itemsDepth_map_le.mp (show Json.itemsDepth
      (schema.types.map TypeDef.toJson) ≤ bound - 2 by omega) type htype
    rw [type.toJson_depth] at htypes
    have hdepth : fieldsDepth type.fields ≤ bound - 4 := by omega
    have hfields := fieldsDepth_le.mp hdepth field hfield
    omega
  · intro hfields
    have htypes : Json.itemsDepth (schema.types.map TypeDef.toJson) ≤ bound - 2 := by
      refine Json.itemsDepth_map_le.mpr fun type htype => ?_
      have hannotations : annotationsDepth type.annotations ≤ 1 + valueLevels limit :=
        annotationsDepth_le fun value h =>
          hcapped value (.inl (.inl ⟨type, htype, List.mem_append_left _ h⟩))
      have hdepth : fieldsDepth type.fields ≤ bound - 4 := fieldsDepth_le.mpr fun field hfield => by
        have := hfields type htype field hfield
        omega
      rw [type.toJson_depth]
      omega
    have henums : Json.itemsDepth (schema.enums.map EnumDef.toJson) ≤ bound - 2 := by
      refine Json.itemsDepth_map_le.mpr fun enum henum => ?_
      have hannotations : annotationsDepth enum.annotations ≤ 1 + valueLevels limit :=
        annotationsDepth_le fun value h =>
          hcapped value (.inl (.inr ⟨enum, henum, List.mem_append_right _ h⟩))
      have hmembers : Json.itemsDepth (enum.members.map EnumMember.toJson) ≤
          3 + valueLevels limit := by
        refine Json.itemsDepth_map_le.mpr fun member hmember => ?_
        have hannotations : annotationsDepth member.annotations ≤ 1 + valueLevels limit :=
          annotationsDepth_le fun value h => hcapped value (.inl (.inr ⟨enum, henum,
            List.mem_append_left _ (List.mem_flatMap.mpr ⟨member, hmember, h⟩)⟩))
        rw [member.toJson_depth]
        omega
      rw [enum.toJson_depth]
      omega
    have hconstants : Json.itemsDepth (schema.constants.map ConstantDef.toJson) ≤ bound - 2 := by
      refine Json.itemsDepth_map_le.mpr fun constant hconstant => ?_
      have hannotations : annotationsDepth constant.annotations ≤ 1 + valueLevels limit :=
        annotationsDepth_le fun value h =>
          hcapped value (.inr ⟨constant, hconstant, List.mem_append_left _ h⟩)
      have hdepth := lower_depth_le hconstant
      have hvalue := Value.toJson_depth_le hdepth
      have htype : constant.type.toJson.depth ≤ valueLevels limit := by
        obtain ⟨decl, -, st, rfl⟩ := exists_of_mem_eachStep (mem_sortByName.mp hconstant)
        exact program.constantType_depth_le decl hdepth
      rw [constant.toJson_depth]
      omega
    have hdocs : Json.itemsDepth (schema.docs.map DocDef.toJson) ≤ bound - 2 := by
      refine Json.itemsDepth_map_le.mpr fun doc _ => ?_
      rw [doc.toJson_depth]
      omega
    omega

end Program

end SchemaIR
