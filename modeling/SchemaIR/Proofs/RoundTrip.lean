import Mathlib
import SchemaIR.Proofs.JsonText
import SchemaIR.Proofs.Reading
import SchemaIR.Proofs.Visits
import SchemaIR.Schema.Decoding
import SchemaIR.Schema.Text

/-!
# Schemas come back from their texts

Each encoder is followed twice, once for what its decoder makes of the document and once for
the numbers in it, since numbers are all that a JSON text could lose. Integers never are:
what a schema holds fits into 64 bits. Floats are a matter of their own, and that each one is
read from its text as itself is taken as given.

A schema of any shape is then read from its text, in either layout, up to the depth that the
reader of JSON goes to, and refused beyond it.
-/

namespace SchemaIR

open Decoder
open Reading (bind_given pure_given)

/-! ## Values -/

mutual

theorem Value.decode_reads (value : Value) {fuel : Nat} (enough : value.toJson.depth ≤ fuel) :
    (Value.decode fuel).Reads value.toJson value := by
  match value, fuel with
  | value, 0 => cases value <;> simp only [Value.toJson, Json.depth] at enough <;> omega
  | .string text, fuel + 1 =>
      exact union_reads (by decide) (by simp) (field_reads (text_reads text) Value.string)
  | .int number, fuel + 1 =>
      exact union_reads (by decide) (by simp) (field_reads (int64_reads number) Value.int)
  | .float number, fuel + 1 =>
      exact union_reads (by decide) (by simp) (field_reads (float_reads number) Value.float)
  | .bool flag, fuel + 1 =>
      exact union_reads (by decide) (by simp) (field_reads (bool_reads flag) Value.bool)
  | .object entries, fuel + 1 =>
      have hentries :
          List.Forall₂ (Value.decodeEntry fuel).Reads (entriesToJson entries) entries := by
        refine Value.decodeEntries_read entries ?_
        simp only [Value.toJson, Json.depth, Json.membersDepth] at enough
        omega
      exact union_reads (by decide) (by simp) (field_reads (list_reads hentries) Value.object)
  | .array items, fuel + 1 =>
      have hitems : List.Forall₂ (Value.decode fuel).Reads (itemsToJson items) items := by
        refine Value.decodeItems_read items ?_
        simp only [Value.toJson, Json.depth, Json.membersDepth] at enough
        omega
      exact union_reads (by decide) (by simp) (field_reads (list_reads hitems) Value.array)

theorem Value.decodeEntries_read (entries : List (String × Value)) {fuel : Nat}
    (enough : Json.itemsDepth (entriesToJson entries) ≤ fuel) :
    List.Forall₂ (Value.decodeEntry fuel).Reads (entriesToJson entries) entries := by
  match entries, fuel with
  | [], _ => exact .nil
  | (key, value) :: rest, 0 =>
      -- An entry is a record, which is a level more than its value.
      simp only [entriesToJson, Json.itemsDepth, Json.depth] at enough
      omega
  | (key, value) :: rest, fuel + 1 =>
      simp only [entriesToJson, Json.itemsDepth, Json.depth, Json.membersDepth] at enough
      have hvalue : (Value.decode fuel).Reads value.toJson value :=
        Value.decode_reads value (by omega)
      refine .cons ?_ (Value.decodeEntries_read rest (by omega))
      refine record_reads [("key", some (.string key)), ("value", some value.toJson)] (by simp)
        fun record holds => ?_
      exact bind_given (holds.required (by simp) (text_reads key))
        (bind_given (holds.required (by simp) hvalue) (pure_given _ _))

theorem Value.decodeItems_read (items : List Value) {fuel : Nat}
    (enough : Json.itemsDepth (itemsToJson items) ≤ fuel) :
    List.Forall₂ (Value.decode fuel).Reads (itemsToJson items) items := by
  match items with
  | [] => exact .nil
  | item :: rest =>
      simp only [itemsToJson, Json.itemsDepth] at enough
      exact .cons (Value.decode_reads item (by omega)) (Value.decodeItems_read rest (by omega))

end

theorem Value.decodeAny_reads (value : Value) : Value.decodeAny.Reads value.toJson value := by
  intro r
  have hfuel : value.toJson.depth ≤ value.toJson.toNode.depth := (Json.depth_toNode _).ge
  exact Value.decode_reads value hfuel r

theorem Value.toJson_isNull (value : Value) : value.toJson.toNode.isNull = false := by
  cases value <;> rfl

theorem Annotation.decode_reads (a : Annotation) : Annotation.decode.Reads a.toJson a := by
  refine record_reads [("name", some (.string a.name)),
    ("argument", a.argument.map Value.toJson)] (by simp) fun record holds => ?_
  exact bind_given (holds.required (by simp) (text_reads a.name))
    (bind_given (holds.optional (by simp) (fun value _ => value.decodeAny_reads)
      Value.toJson_isNull) (pure_given _ _))

/-! ## Types -/

theorem Primitive.ofName?_name (primitive : Primitive) :
    ofName? primitive.name = some primitive := by
  cases primitive <;> rfl

theorem ValueType.ofName?_name (type : ValueType) : ofName? type.name = some type := by
  cases type <;> rfl

theorem annotations_read (annotations : List Annotation) :
    (list Annotation.decode).Reads (.array (annotations.map Annotation.toJson)) annotations :=
  list_reads_map fun a _ => a.decode_reads

mutual

theorem TypeRef.decode_reads (type : TypeRef) {fuel : Nat} (enough : type.toJson.depth ≤ fuel) :
    (TypeRef.decode fuel).Reads type.toJson type := by
  match type, fuel with
  | type, 0 => cases type <;> simp only [TypeRef.toJson, Json.depth] at enough <;> omega
  | .primitive primitive, fuel + 1 =>
      have hword := word_reads (Primitive.ofName?_name primitive)
      exact union_reads (by decide) (by simp) (field_reads hword TypeRef.primitive)
  | .named name, fuel + 1 =>
      exact union_reads (by decide) (by simp) (field_reads (text_reads name) TypeRef.named)
  | .enumeration name valueType, fuel + 1 =>
      have hword := word_reads (ValueType.ofName?_name valueType)
      refine union_reads (by decide) (by simp) ?_
      refine record_reads [("name", some (.string name)),
        ("valueType", some (.string valueType.name))] (by simp) (fun record holds => ?_) .settled
      exact bind_given (holds.required (by simp) (text_reads name))
        (bind_given (holds.required (by simp) hword) (pure_given _ _))
  | .array item dims, fuel + 1 =>
      simp only [TypeRef.toJson, Json.depth, Json.membersDepth] at enough
      have hitem : (TypeRef.decode fuel).Reads item.toJson item :=
        TypeRef.decode_reads item (by omega)
      refine union_reads (by decide) (by simp) ?_
      refine record_reads [("item", some item.toJson), ("dims", some (.int dims.toNat))] (by simp)
        (fun record holds => ?_) .settled
      exact bind_given (holds.required (by simp) hitem)
        (bind_given (holds.required (by simp) (uint32_reads dims))
          (pure_given _ _))
  | .map value, fuel + 1 =>
      simp only [TypeRef.toJson, Json.depth, Json.membersDepth] at enough
      have hvalue : (TypeRef.decode fuel).Reads value.toJson value :=
        TypeRef.decode_reads value (by omega)
      exact union_reads (by decide) (by simp) (field_reads hvalue TypeRef.map)
  | .object fields, fuel + 1 =>
      simp only [TypeRef.toJson, Json.depth, Json.membersDepth] at enough
      have hfields : List.Forall₂ (Field.decode fuel).Reads (fieldsToJson fields) fields :=
        Field.decodeFields_read fields (by omega)
      exact union_reads (by decide) (by simp) (field_reads (list_reads hfields) TypeRef.object)

theorem Field.decode_reads (field : Field) {fuel : Nat} (enough : field.toJson.depth ≤ fuel) :
    (Field.decode fuel).Reads field.toJson field := by
  match field, fuel with
  | ⟨_, _, _, _, _⟩, 0 =>
      rw [Field.toJson, Json.depth_record] at enough
      omega
  | ⟨name, doc, optional, annotations, type⟩, fuel + 1 =>
      rw [Field.toJson, Json.depth_record] at enough
      simp only [Json.fieldsDepth, Option.elim] at enough
      have htype : (TypeRef.decode fuel).Reads type.toJson type :=
        TypeRef.decode_reads type (by omega)
      refine record_reads [("name", some (.string name)), ("doc", doc.map .string),
        ("optional", some (.bool optional)),
        ("annotations", some (.array (annotations.map Annotation.toJson))),
        ("type", some type.toJson)] (by simp) fun record holds => ?_
      exact bind_given (holds.required (by simp) (text_reads name))
        (bind_given (holds.optional (by simp) (fun text _ => text_reads text) fun _ => rfl)
          (bind_given (holds.withDefault (by simp) (bool_reads optional))
            (bind_given (holds.withDefault (by simp) (annotations_read annotations))
              (bind_given (holds.required (by simp) htype) (pure_given _ _)))))

theorem Field.decodeFields_read (fields : List Field) {fuel : Nat}
    (enough : Json.itemsDepth (fieldsToJson fields) ≤ fuel) :
    List.Forall₂ (Field.decode fuel).Reads (fieldsToJson fields) fields := by
  match fields with
  | [] => exact .nil
  | field :: rest =>
      simp only [fieldsToJson, Json.itemsDepth] at enough
      exact .cons (Field.decode_reads field (by omega)) (Field.decodeFields_read rest (by omega))

end

theorem TypeRef.decodeAny_reads (type : TypeRef) : TypeRef.decodeAny.Reads type.toJson type := by
  intro r
  have hfuel : type.toJson.depth ≤ type.toJson.toNode.depth := (Json.depth_toNode _).ge
  exact TypeRef.decode_reads type hfuel r

theorem Field.decodeAny_reads (field : Field) : Field.decodeAny.Reads field.toJson field := by
  intro r
  have hfuel : field.toJson.depth ≤ field.toJson.toNode.depth := (Json.depth_toNode _).ge
  exact Field.decode_reads field hfuel r

theorem fieldsToJson_eq_map (fields : List Field) :
    fieldsToJson fields = fields.map Field.toJson := by
  induction fields with
  | nil => rfl
  | cons field rest ih => rw [fieldsToJson, ih, List.map_cons]

/-! ## Declarations -/

theorem TypeDef.decode_reads (type : TypeDef) : TypeDef.decode.Reads type.toJson type := by
  have hfields : (list Field.decodeAny).Reads (.array (fieldsToJson type.fields)) type.fields := by
    rw [fieldsToJson_eq_map]
    exact list_reads_map fun field _ => field.decodeAny_reads
  refine record_reads [("name", some (.string type.name)), ("doc", type.doc.map .string),
    ("annotations", some (.array (type.annotations.map Annotation.toJson))),
    ("fields", some (.array (fieldsToJson type.fields)))] (by simp) fun record holds => ?_
  exact bind_given (holds.required (by simp) (text_reads type.name))
    (bind_given (holds.optional (by simp) (fun text _ => text_reads text) fun _ => rfl)
      (bind_given (holds.withDefault (by simp) (annotations_read type.annotations))
        (bind_given (holds.required (by simp) hfields) (pure_given _ _))))

theorem EnumMember.decode_reads (member : EnumMember) :
    EnumMember.decode.Reads member.toJson member := by
  refine record_reads [("name", some (.string member.name)), ("value", some (.string member.value)),
    ("doc", member.doc.map .string),
    ("annotations", some (.array (member.annotations.map Annotation.toJson)))] (by simp)
    fun record holds => ?_
  exact bind_given (holds.required (by simp) (text_reads member.name))
    (bind_given (holds.required (by simp) (text_reads member.value))
      (bind_given (holds.optional (by simp) (fun text _ => text_reads text) fun _ => rfl)
        (bind_given (holds.withDefault (by simp) (annotations_read member.annotations))
          (pure_given _ _))))

theorem EnumDef.decode_reads (enum : EnumDef) : EnumDef.decode.Reads enum.toJson enum := by
  have hmembers : (list EnumMember.decode).Reads (.array (enum.members.map EnumMember.toJson))
      enum.members := list_reads_map fun member _ => member.decode_reads
  have hword := word_reads (ValueType.ofName?_name enum.valueType)
  refine record_reads [("name", some (.string enum.name)), ("doc", enum.doc.map .string),
    ("annotations", some (.array (enum.annotations.map Annotation.toJson))),
    ("valueType", some (.string enum.valueType.name)),
    ("members", some (.array (enum.members.map EnumMember.toJson)))] (by simp)
    fun record holds => ?_
  exact bind_given (holds.required (by simp) (text_reads enum.name))
    (bind_given (holds.optional (by simp) (fun text _ => text_reads text) fun _ => rfl)
      (bind_given (holds.withDefault (by simp) (annotations_read enum.annotations))
        (bind_given (holds.required (by simp) hword)
          (bind_given (holds.required (by simp) hmembers) (pure_given _ _)))))

theorem ConstantDef.decode_reads (constant : ConstantDef) :
    ConstantDef.decode.Reads constant.toJson constant := by
  refine record_reads [("name", some (.string constant.name)), ("doc", constant.doc.map .string),
    ("annotations", some (.array (constant.annotations.map Annotation.toJson))),
    ("type", some constant.type.toJson), ("value", some constant.value.toJson)] (by simp)
    fun record holds => ?_
  exact bind_given (holds.required (by simp) (text_reads constant.name))
    (bind_given (holds.optional (by simp) (fun text _ => text_reads text) fun _ => rfl)
      (bind_given (holds.withDefault (by simp) (annotations_read constant.annotations))
        (bind_given (holds.required (by simp) constant.type.decodeAny_reads)
          (bind_given (holds.required (by simp) constant.value.decodeAny_reads)
            (pure_given _ _)))))

theorem DocDef.decode_reads (doc : DocDef) : DocDef.decode.Reads doc.toJson doc := by
  refine record_reads [("scope", doc.scope.map .string), ("content", some (.string doc.content))]
    (by simp) fun record holds => ?_
  exact bind_given (holds.optional (by simp) (fun text _ => text_reads text) fun _ => rfl)
    (bind_given (holds.required (by simp) (text_reads doc.content)) (pure_given _ _))

theorem Schema.decode_reads (schema : Schema) : Schema.decode.Reads schema.toJson schema := by
  have htypes : (list TypeDef.decode).Reads (.array (schema.types.map TypeDef.toJson))
      schema.types := list_reads_map fun type _ => type.decode_reads
  have henums : (list EnumDef.decode).Reads (.array (schema.enums.map EnumDef.toJson))
      schema.enums := list_reads_map fun enum _ => enum.decode_reads
  have hconstants : (list ConstantDef.decode).Reads
      (.array (schema.constants.map ConstantDef.toJson)) schema.constants :=
    list_reads_map fun constant _ => constant.decode_reads
  have hdocs : (list DocDef.decode).Reads (.array (schema.docs.map DocDef.toJson)) schema.docs :=
    list_reads_map fun doc _ => doc.decode_reads
  refine record_reads [("types", some (.array (schema.types.map TypeDef.toJson))),
    ("enums", some (.array (schema.enums.map EnumDef.toJson))),
    ("constants", some (.array (schema.constants.map ConstantDef.toJson))),
    ("docs", some (.array (schema.docs.map DocDef.toJson)))] (by simp) fun record holds => ?_
  exact bind_given (holds.required (by simp) htypes)
    (bind_given (holds.required (by simp) henums)
      (bind_given (holds.required (by simp) hconstants)
        (bind_given (holds.required (by simp) hdocs) (pure_given _ _))))

/-! ## Numbers in schemas -/

mutual

/-- The floats in a value. -/
def Value.floats : Value → List Float
  | .float number => [number]
  | .object entries => entriesFloats entries
  | .array items => itemsFloats items
  | .string _ | .int _ | .bool _ => []

/-- The floats in the values of some entries. -/
def entriesFloats : List (String × Value) → List Float
  | [] => []
  | (_, value) :: rest => value.floats ++ entriesFloats rest

/-- The floats in some values. -/
def itemsFloats : List Value → List Float
  | [] => []
  | item :: rest => item.floats ++ itemsFloats rest

end

/-- The floats in the values of a schema, which are the arguments of its annotations and the
values of its constants. -/
def Schema.floats (schema : Schema) : List Float :=
  (schema.arguments ++ schema.constants.map (·.value)).flatMap Value.floats

/-- Every float in a value is read as itself. -/
def Value.Rereads (value : Value) : Prop := ∀ x ∈ value.floats, Json.Rereads x

theorem Json.fits64_toInt (number : Int64) : Json.Fits64 number.toInt := by
  have hleast := number.le_toInt
  have hgreatest := number.toInt_lt
  simp only [Json.Fits64, Number.signed64, Json.greatestSignificand, UInt64.size]
  omega

theorem Json.fits64_toNat (number : UInt32) : Json.Fits64 number.toNat := by
  have hgreatest := number.toNat_lt
  simp only [Json.Fits64, Number.signed64, Json.greatestSignificand, UInt64.size]
  omega

mutual

theorem Value.toJson_readable (value : Value) (h : value.Rereads) : value.toJson.Readable := by
  match value with
  | .string _ | .bool _ => exact ⟨trivial, trivial, trivial⟩
  | .int number => exact ⟨trivial, Json.fits64_toInt number, trivial⟩
  | .float number => exact ⟨trivial, h number List.mem_cons_self, trivial⟩
  | .object entries => exact ⟨trivial, entriesToJson_readable entries h, trivial⟩
  | .array items => exact ⟨trivial, itemsToJson_readable items h, trivial⟩

theorem entriesToJson_readable (entries : List (String × Value))
    (h : ∀ x ∈ entriesFloats entries, Json.Rereads x) :
    Json.itemsReadable (entriesToJson entries) := by
  match entries with
  | [] => trivial
  | (key, value) :: rest =>
      have hvalue := value.toJson_readable fun x hx => h x (List.mem_append_left _ hx)
      have hrest := entriesToJson_readable rest fun x hx => h x (List.mem_append_right _ hx)
      exact ⟨⟨trivial, hvalue, trivial⟩, hrest⟩

theorem itemsToJson_readable (items : List Value) (h : ∀ x ∈ itemsFloats items, Json.Rereads x) :
    Json.itemsReadable (itemsToJson items) := by
  match items with
  | [] => trivial
  | item :: rest =>
      have hitem := item.toJson_readable fun x hx => h x (List.mem_append_left _ hx)
      have hrest := itemsToJson_readable rest fun x hx => h x (List.mem_append_right _ hx)
      exact ⟨hitem, hrest⟩

end

namespace Json

theorem itemsReadable_map {α : Type} {encode : α → Json} {as : List α}
    (h : ∀ a ∈ as, (encode a).Readable) : itemsReadable (as.map encode) := by
  induction as with
  | nil => trivial
  | cons a as ih =>
      exact ⟨h a List.mem_cons_self, ih fun a ha => h a (List.mem_cons_of_mem _ ha)⟩

/-- The fields of a record that are there are readable. -/
def fieldsReadable : List (String × Option Json) → Prop
  | [] => True
  | (_, value?) :: rest => (∀ value ∈ value?, value.Readable) ∧ fieldsReadable rest

theorem record_readable {fields : List (String × Option Json)} (h : fieldsReadable fields) :
    (record fields).Readable := by
  have hmembers : membersReadable (present fields) := by
    induction fields with
    | nil => trivial
    | cons field rest ih =>
        obtain ⟨key, value?⟩ := field
        cases value? with
        | none => exact ih h.2
        | some value => exact ⟨h.1 value rfl, ih h.2⟩
  exact hmembers

theorem some_readable {json : Json} (h : json.Readable) : ∀ value ∈ some json, value.Readable := by
  rintro value ⟨⟩
  exact h

theorem text_readable (text? : Option String) :
    ∀ value ∈ text?.map Json.string, value.Readable := by
  intro value hvalue
  obtain ⟨text, _, rfl⟩ := Option.map_eq_some_iff.mp hvalue
  trivial

end Json

open Json (record_readable some_readable text_readable itemsReadable_map)

theorem Annotation.toJson_readable (a : Annotation) (h : ∀ value ∈ a.argument, value.Rereads) :
    a.toJson.Readable := by
  refine record_readable ⟨some_readable trivial, ?_, trivial⟩
  intro json hjson
  obtain ⟨value, hvalue, rfl⟩ := Option.map_eq_some_iff.mp hjson
  exact value.toJson_readable (h value hvalue)

theorem annotations_readable (annotations : List Annotation)
    (h : ∀ value ∈ annotationsArguments annotations, value.Rereads) :
    (Json.array (annotations.map Annotation.toJson)).Readable := by
  refine itemsReadable_map fun a hmem => a.toJson_readable fun value hvalue => ?_
  exact h value (List.mem_flatMap.mpr ⟨a, hmem, Option.mem_toList.mpr hvalue⟩)

mutual

theorem TypeRef.toJson_readable (type : TypeRef) (h : ∀ value ∈ type.arguments, value.Rereads) :
    type.toJson.Readable := by
  match type with
  | .primitive _ | .named _ => exact ⟨trivial, trivial, trivial⟩
  | .enumeration _ _ => exact ⟨trivial, trivial, trivial, trivial⟩
  | .array item dims => exact ⟨trivial, item.toJson_readable h, Json.fits64_toNat dims, trivial⟩
  | .map value => exact ⟨trivial, value.toJson_readable h, trivial⟩
  | .object fields => exact ⟨trivial, fieldsToJson_readable fields h, trivial⟩

theorem fieldsToJson_readable (fields : List Field)
    (h : ∀ value ∈ fieldsArguments fields, value.Rereads) :
    Json.itemsReadable (fieldsToJson fields) := by
  match fields with
  | [] => trivial
  | ⟨name, doc, optional, annotations, type⟩ :: rest =>
      simp only [fieldsArguments, List.mem_append] at h
      have hannotations := annotations_readable annotations fun value hvalue =>
        h value (.inl (.inl hvalue))
      have htype := type.toJson_readable fun value hvalue => h value (.inl (.inr hvalue))
      have hrest := fieldsToJson_readable rest fun value hvalue => h value (.inr hvalue)
      exact ⟨record_readable ⟨some_readable trivial, text_readable doc, some_readable trivial,
        some_readable hannotations, some_readable htype, trivial⟩, hrest⟩

end

theorem TypeDef.toJson_readable (type : TypeDef) (h : ∀ value ∈ type.arguments, value.Rereads) :
    type.toJson.Readable := by
  simp only [TypeDef.arguments, List.mem_append] at h
  have hannotations := annotations_readable type.annotations fun value hvalue =>
    h value (.inl hvalue)
  have hfields := fieldsToJson_readable type.fields fun value hvalue => h value (.inr hvalue)
  exact record_readable ⟨some_readable trivial, text_readable type.doc,
    some_readable hannotations, some_readable hfields, trivial⟩

theorem EnumMember.toJson_readable (member : EnumMember)
    (h : ∀ value ∈ member.arguments, value.Rereads) : member.toJson.Readable :=
  record_readable ⟨some_readable trivial, some_readable trivial, text_readable member.doc,
    some_readable (annotations_readable member.annotations h), trivial⟩

theorem EnumDef.toJson_readable (enum : EnumDef) (h : ∀ value ∈ enum.arguments, value.Rereads) :
    enum.toJson.Readable := by
  simp only [EnumDef.arguments, List.mem_append] at h
  have hannotations := annotations_readable enum.annotations fun value hvalue =>
    h value (.inr hvalue)
  have hmembers : (Json.array (enum.members.map EnumMember.toJson)).Readable :=
    itemsReadable_map fun member hmem => member.toJson_readable fun value hvalue =>
      h value (.inl (List.mem_flatMap.mpr ⟨member, hmem, hvalue⟩))
  exact record_readable ⟨some_readable trivial, text_readable enum.doc,
    some_readable hannotations, some_readable trivial, some_readable hmembers, trivial⟩

theorem ConstantDef.toJson_readable (constant : ConstantDef)
    (h : ∀ value ∈ constant.arguments, value.Rereads) (hvalue : constant.value.Rereads) :
    constant.toJson.Readable := by
  simp only [ConstantDef.arguments, List.mem_append] at h
  have hannotations := annotations_readable constant.annotations fun value hvalue =>
    h value (.inl hvalue)
  have htype := constant.type.toJson_readable fun value hvalue => h value (.inr hvalue)
  exact record_readable ⟨some_readable trivial, text_readable constant.doc,
    some_readable hannotations, some_readable htype,
    some_readable (constant.value.toJson_readable hvalue), trivial⟩

theorem DocDef.toJson_readable (doc : DocDef) : doc.toJson.Readable :=
  record_readable ⟨text_readable doc.scope, some_readable trivial, trivial⟩

namespace Schema

theorem toJson_readable (schema : Schema) (floats : ∀ x ∈ schema.floats, Json.Rereads x) :
    schema.toJson.Readable := by
  -- Values stand in four places: the annotations of the three kinds of declarations, and constants.
  have hvalues : ∀ value ∈ schema.arguments ++ schema.constants.map (·.value), value.Rereads :=
    fun value hvalue x hx => floats x (List.mem_flatMap.mpr ⟨value, hvalue, hx⟩)
  simp only [arguments, List.mem_append, List.mem_flatMap, List.mem_map] at hvalues
  refine ⟨itemsReadable_map fun type hmem => type.toJson_readable fun value hvalue => ?_,
    itemsReadable_map fun enum hmem => enum.toJson_readable fun value hvalue => ?_,
    itemsReadable_map fun constant hmem => constant.toJson_readable (fun value hvalue => ?_) ?_,
    itemsReadable_map fun doc _ => doc.toJson_readable, trivial⟩
  · exact hvalues value (.inl (.inl (.inl ⟨type, hmem, hvalue⟩)))
  · exact hvalues value (.inl (.inl (.inr ⟨enum, hmem, hvalue⟩)))
  · exact hvalues value (.inl (.inr ⟨constant, hmem, hvalue⟩))
  · exact hvalues constant.value (.inr ⟨constant, hmem, rfl⟩)

/-- A schema whose floats are read as themselves comes back from its text, in either layout,
if the document nests at most 127 levels; a deeper document is refused. -/
theorem ofJson_render (schema : Schema) (settings : EmitSettings)
    (floats : ∀ x ∈ schema.floats, Json.Rereads x) :
    Schema.ofJson (schema.render settings) =
      if schema.toJson.depth ≤ 127 then .ok schema else .error .json := by
  have hparsed := Json.parse?_render (layout settings) (schema.toJson_readable floats)
  have hread : (Json.parse? (schema.render settings)).bind (Schema.decode .json) =
      Reading.json.given schema.toJson.depth schema := by
    rw [render, hparsed, Option.bind_some]
    exact schema.decode_reads .json
  have hfits : Reading.json.fits schema.toJson.depth = decide (schema.toJson.depth ≤ 127) := rfl
  rw [ofJson, hread, Reading.given, hfits]
  by_cases shallow : schema.toJson.depth ≤ 127
  · rw [decide_eq_true shallow, if_pos shallow]
    rfl
  · rw [decide_eq_false shallow, if_neg shallow]
    rfl

/-- A half inside so many arrays. -/
def nestedHalf : Nat → Value
  | 0 => .float 0.5
  | depth + 1 => .array [nestedHalf depth]

/-- A schema with such a value, and with a text that has to be escaped. -/
def holding (value : Value) : Schema where
  types := []
  enums := []
  constants := [
    { name := "half", doc := some "caf\u00e9 \"\x1f\"\n", annotations := [],
      type := .primitive .float, value }]
  docs := []

theorem floats_holding_nestedHalf (depth : Nat) : (holding (nestedHalf depth)).floats = [0.5] := by
  have hvalue : (nestedHalf depth).floats = [0.5] := by
    induction depth with
    | zero => rfl
    | succ depth ih => rw [nestedHalf, Value.floats, itemsFloats, ih, itemsFloats, List.append_nil]
  have hfloats : (holding (nestedHalf depth)).floats = (nestedHalf depth).floats ++ [] := rfl
  rw [hfloats, hvalue, List.append_nil]

set_option maxRecDepth 20000 in
theorem ofJson_render_nestedHalf :
    Schema.ofJson ((holding (nestedHalf 1)).render { minify := true }) =
        .ok (holding (nestedHalf 1)) ∧
      Schema.ofJson ((holding (nestedHalf 61)).render {}) = .ok (holding (nestedHalf 61)) ∧
      Schema.ofJson ((holding (nestedHalf 62)).render {}) = .error .json := by
  have half : Json.Rereads 0.5 := ⟨by decide +kernel, rfl⟩
  have floats (depth : Nat) : ∀ x ∈ (holding (nestedHalf depth)).floats, Json.Rereads x := by
    intro x hx
    rw [floats_holding_nestedHalf, List.mem_singleton] at hx
    exact hx ▸ half
  refine ⟨(ofJson_render _ _ (floats 1)).trans ?_, (ofJson_render _ _ (floats 61)).trans ?_,
    (ofJson_render _ _ (floats 62)).trans ?_⟩
  · exact if_pos (by decide +kernel)
  · exact if_pos (by decide +kernel)
  · exact if_neg (by decide +kernel)

end Schema

end SchemaIR
