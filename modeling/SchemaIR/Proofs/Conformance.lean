import Mathlib
import SchemaIR.Program.Builder
import SchemaIR.Proofs.Documents
import SchemaIR.Proofs.FloatSpelling
import SchemaIR.Proofs.Numbers
import SchemaIR.Proofs.Published

/-!
# Lowered schemas are what they are published as

Each encoder is followed beside the shape of its name in the published JSON Schema. An encoder
writes the members that the shape knows, and all that it requires; what is left out is never
required, and nothing is written as null. Every alternative of a union is written with its mark
first.

What the shapes ask of numbers is what lowering keeps: floats are finite, and arrays have at
least one dimension. Dimensions of constants are counted in 32 bits, so they are kept only where
there is room for the count. A limit that is high enough lets a constant have so many arrays inside
one another that none are counted, and the text of such a schema is not accepted.
-/

namespace SchemaIR

open Json Schema

namespace Schema.Published

/-- The text of a value can be read, and what is read has the given shape and no nulls. -/
structure Conforms (shape : Shape) (json : Json) : Prop where
  legible : json.Legible
  accepted : shape.Accepts document json.readNode
  nonnull : .null ∉ json.readNode.parts

namespace Conforms

variable {shape : Shape} {json : Json}

theorem string (text : String) : Conforms .string (.string text) :=
  ⟨trivial, Shape.accepts_string.mpr List.mem_cons_self, by simp [readNode, Node.parts]⟩

theorem bool (flag : Bool) : Conforms .boolean (.bool flag) :=
  ⟨trivial, Shape.accepts_boolean.mpr List.mem_cons_self, by simp [readNode, Node.parts]⟩

theorem const (text : String) : Conforms (.const text) (.string text) :=
  ⟨trivial, Shape.accepts_const.mpr rfl, by simp [readNode, Node.parts]⟩

theorem oneWord {text : String} {texts : List String} (h : text ∈ texts) :
    Conforms (.oneWord texts) (.string text) :=
  ⟨trivial, Shape.accepts_oneWord.mpr ⟨text, h, rfl⟩, by simp [readNode, Node.parts]⟩

theorem int64 (number : Int64) : Conforms (.integer none) (.int number.toInt) :=
  ⟨fits64_toInt number, Shape.accepts_integer.mpr ⟨List.mem_cons_self, by simp⟩,
    by simp [readNode, Node.parts]⟩

theorem dimensions {dims : UInt32} (h : dims ≠ 0) :
    Conforms (.integer (some 1)) (.int dims.toNat) := by
  have hpositive : dims.toNat ≠ 0 := fun hzero => h (UInt32.toNat_inj.mp hzero)
  refine ⟨fits64_toNat dims, Shape.accepts_integer.mpr ⟨List.mem_cons_self, ?_⟩,
    by simp [readNode, Node.parts]⟩
  rintro bound ⟨⟩
  simp only [readNode, Node.atLeast, decide_eq_true_eq]
  omega

/-- The text of a finite float is a number, whatever float it is read as. -/
theorem float {x : Float} (finite : x.isFinite = true) : Conforms .number (.float x) := by
  obtain ⟨node, hread, hnode⟩ := readNumber_floatText x
  have hreadNode : (Json.float x).readNode = node := by
    rw [readNode, hread]
    rfl
  refine ⟨⟨finite, node, hread⟩, ?_, ?_⟩
  · rw [hreadNode, Shape.accepts_number, Node.mem_types_number]
    exact .inr hnode.symm
  · rw [hreadNode]
    rcases hnode with rfl | ⟨y, rfl⟩ <;> simp [Node.parts]

theorem list {items : List Json} (h : ∀ item ∈ items, Conforms shape item) :
    Conforms (.list shape) (.array items) := by
  refine ⟨itemsLegible_iff.mpr fun item hitem => (h item hitem).legible, ?_, ?_⟩
  · refine Shape.accepts_list.mpr ⟨_, rfl, ?_⟩
    rw [readItemNodes_eq_map, List.forall_mem_map]
    exact fun item hitem => (h item hitem).accepted
  · rw [readNode, readItemNodes_eq_map, Node.parts, List.mem_cons, Node.mem_itemsParts]
    rintro (hnull | ⟨node, hnode, hnull⟩)
    · cases hnull
    · obtain ⟨item, hitem, rfl⟩ := List.mem_map.mp hnode
      exact (h item hitem).nonnull hnull

variable {properties : List (String × Shape)} {required : List String}

theorem object {members : List (String × Json)}
    (fit : ∀ member ∈ members, ∃ shape, properties.lookup member.1 = some shape ∧
      Conforms shape member.2)
    (complete : ∀ name ∈ required, name ∈ members.map Prod.fst) :
    Conforms (.record properties required) (.object members) := by
  refine ⟨membersLegible_iff.mpr fun member hmember => ?_, ?_, ?_⟩
  · obtain ⟨shape, -, hconforms⟩ := fit member hmember
    exact hconforms.legible
  · refine Shape.accepts_record.mpr ⟨_, rfl, ?_, fun name hname => ?_⟩
    · rw [readMemberNodes_eq_map, List.forall_mem_map]
      intro member hmember
      obtain ⟨shape, hshape, hconforms⟩ := fit member hmember
      exact ⟨member.1, shape, rfl, hshape, hconforms.accepted⟩
    · obtain ⟨member, hmember, rfl⟩ := List.mem_map.mp (complete name hname)
      rw [readMemberNodes_eq_map]
      exact ⟨_, List.mem_map_of_mem hmember⟩
  · rw [readNode, readMemberNodes_eq_map, Node.parts, List.mem_cons, Node.mem_entriesParts]
    rintro (hnull | ⟨entry, hentry, hnull⟩)
    · cases hnull
    · obtain ⟨member, hmember, rfl⟩ := List.mem_map.mp hentry
      obtain ⟨shape, -, hconforms⟩ := fit member hmember
      rcases hnull with hkey | hvalue
      · simp [Node.parts] at hkey
      · exact hconforms.nonnull hvalue

/-- The members of a record that are there have the shapes of their names. -/
def Fit (properties : List (String × Shape)) : List (String × Option Json) → Prop
  | [] => True
  | (name, value?) :: rest =>
      (∃ shape, properties.lookup name = some shape ∧ ∀ json ∈ value?, Conforms shape json) ∧
        Fit properties rest

theorem Fit.exists_shape {members : List (String × Option Json)} (fit : Fit properties members)
    {name : String} (member : (name, some json) ∈ members) :
    ∃ shape, properties.lookup name = some shape ∧ Conforms shape json := by
  induction members with
  | nil => cases member
  | cons first rest ih =>
      rcases List.mem_cons.mp member with rfl | member
      · obtain ⟨⟨shape, hshape, hconforms⟩, -⟩ := fit
        exact ⟨shape, hshape, hconforms json rfl⟩
      · exact ih fit.2 member

theorem record {members : List (String × Option Json)} (fit : Fit properties members)
    (complete : ∀ name ∈ required, ∃ json, (name, some json) ∈ members) :
    Conforms (.record properties required) (Json.record members) := by
  show Conforms (.record properties required) (.object (present members))
  refine object (fun member hmember => ?_) fun name hname => ?_
  · exact fit.exists_shape (mem_present.mp hmember)
  · obtain ⟨json, hmember⟩ := complete name hname
    exact List.mem_map.mpr ⟨(name, json), mem_present.mpr hmember, rfl⟩

theorem given (h : Conforms shape json) : ∀ value ∈ some json, Conforms shape value := by
  rintro value ⟨⟩
  exact h

theorem ofOption {α : Type} {encode : α → Json} {a? : Option α}
    (h : ∀ a ∈ a?, Conforms shape (encode a)) : ∀ value ∈ a?.map encode, Conforms shape value := by
  intro value hvalue
  obtain ⟨a, ha, rfl⟩ := Option.map_eq_some_iff.mp hvalue
  exact h a ha

/-- An object that always has the same members. -/
theorem fixed {members : List (String × Json)}
    (fit : Fit properties (members.map fun member => (member.1, some member.2)))
    (complete : ∀ name ∈ required, name ∈ members.map Prod.fst) :
    Conforms (.record properties required) (.object members) :=
  object (fun _ hmember => fit.exists_shape (List.mem_map_of_mem hmember)) complete

theorem ref {name : String} (found : definitions.lookup name = some shape)
    (h : Conforms shape json) : Conforms (.ref name) json :=
  ⟨h.legible, (accepts_ref found).mpr h.accepted, h.nonnull⟩

/-- An alternative of a union starts with its mark. -/
theorem alternative {union : Shape} {mark : String} {members : List (String × Json)}
    (discriminated : union.Discriminated)
    (found : union.alternative? mark = some (.record properties required))
    (fit : Fit properties (members.map fun member => (member.1, some member.2)))
    (complete : ∀ name ∈ required, name ∈ "kind" :: members.map Prod.fst) :
    Conforms union (.object (("kind", .string mark) :: members)) := by
  have hkind : properties.lookup "kind" = some (.const mark) := by
    obtain ⟨_, _, heq, hlookup⟩ := Shape.lookup_of_mark? (Shape.mark?_of_alternative? found)
    cases heq
    exact hlookup
  have h : Conforms (.record properties required) (.object (("kind", .string mark) :: members)) :=
    fixed ⟨⟨_, hkind, given (const mark)⟩, fit⟩ complete
  exact ⟨h.legible, discriminated.accepts found List.mem_cons_self h.accepted, h.nonnull⟩

end Conforms

end Schema.Published

open Schema.Published
open Conforms (given ofOption)

/-! ## Values -/

mutual

theorem Value.conforms (value : Value) (finite : value.Finite) :
    Conforms (.ref "Value") value.toJson := by
  refine .ref rfl ?_
  match value with
  | .string text =>
      exact .alternative value_discriminated rfl ⟨⟨_, rfl, given (.string text)⟩, trivial⟩ (by simp)
  | .int number =>
      have hnumber := Conforms.int64 number
      exact .alternative value_discriminated rfl ⟨⟨_, rfl, given hnumber⟩, trivial⟩ (by simp)
  | .float number =>
      have hnumber := Conforms.float (finite number List.mem_cons_self)
      exact .alternative value_discriminated rfl ⟨⟨_, rfl, given hnumber⟩, trivial⟩ (by simp)
  | .bool flag =>
      exact .alternative value_discriminated rfl ⟨⟨_, rfl, given (.bool flag)⟩, trivial⟩ (by simp)
  | .object entries =>
      have hentries := Conforms.list (entriesToJson_conform entries finite)
      exact .alternative value_discriminated rfl ⟨⟨_, rfl, given hentries⟩, trivial⟩ (by simp)
  | .array items =>
      have hitems := Conforms.list (itemsToJson_conform items finite)
      exact .alternative value_discriminated rfl ⟨⟨_, rfl, given hitems⟩, trivial⟩ (by simp)

theorem entriesToJson_conform (entries : List (String × Value))
    (finite : ∀ x ∈ entriesFloats entries, x.isFinite = true) :
    ∀ json ∈ entriesToJson entries, Conforms (.ref "ObjectEntry") json := by
  match entries with
  | [] => exact List.forall_mem_nil _
  | (key, value) :: rest =>
      have hvalue := value.conforms fun x hx => finite x (List.mem_append_left _ hx)
      have hrest := entriesToJson_conform rest fun x hx => finite x (List.mem_append_right _ hx)
      refine List.forall_mem_cons.mpr ⟨.ref rfl (.fixed ?_ (by simp)), hrest⟩
      exact ⟨⟨_, rfl, given (.string key)⟩, ⟨_, rfl, given hvalue⟩, trivial⟩

theorem itemsToJson_conform (items : List Value)
    (finite : ∀ x ∈ itemsFloats items, x.isFinite = true) :
    ∀ json ∈ itemsToJson items, Conforms (.ref "Value") json := by
  match items with
  | [] => exact List.forall_mem_nil _
  | item :: rest =>
      have hitem := item.conforms fun x hx => finite x (List.mem_append_left _ hx)
      have hrest := itemsToJson_conform rest fun x hx => finite x (List.mem_append_right _ hx)
      exact List.forall_mem_cons.mpr ⟨hitem, hrest⟩

end

theorem Annotation.conforms (a : Annotation) (finite : ∀ value ∈ a.argument, value.Finite) :
    Conforms (.ref "Annotation") a.toJson := by
  have hargument := ofOption fun value hvalue => Value.conforms value (finite value hvalue)
  refine .ref rfl (.record ?_ (by simp))
  exact ⟨⟨_, rfl, given (.string a.name)⟩, ⟨_, rfl, hargument⟩, trivial⟩

theorem annotations_conform (annotations : List Annotation)
    (finite : ∀ value ∈ annotationsArguments annotations, value.Finite) :
    Conforms (.list (.ref "Annotation")) (.array (annotations.map Annotation.toJson)) := by
  refine .list (List.forall_mem_map.mpr fun a hmem => a.conforms fun value hvalue => ?_)
  exact finite value (List.mem_flatMap.mpr ⟨a, hmem, Option.mem_toList.mpr hvalue⟩)

theorem doc_conforms (doc : Option String) :
    ∀ json ∈ doc.map Json.string, Conforms .string json :=
  ofOption fun text _ => .string text

/-! ## Types -/

theorem Primitive.conforms (primitive : Primitive) :
    Conforms (.ref "PrimitiveType") (.string primitive.name) :=
  .ref rfl (.oneWord (by cases primitive <;> decide))

theorem ValueType.conforms (type : ValueType) :
    Conforms (.ref "EnumValueType") (.string type.name) :=
  .ref rfl (.oneWord (by cases type <;> decide))

mutual

theorem TypeRef.conforms (type : TypeRef) (counted : 0 ∉ type.dimensions)
    (finite : ∀ value ∈ type.arguments, value.Finite) : Conforms (.ref "TypeRef") type.toJson := by
  refine .ref rfl ?_
  match type with
  | .primitive primitive =>
      exact .alternative typeRef_discriminated rfl
        ⟨⟨_, rfl, given primitive.conforms⟩, trivial⟩ (by simp)
  | .named name =>
      exact .alternative typeRef_discriminated rfl
        ⟨⟨_, rfl, given (.string name)⟩, trivial⟩ (by simp)
  | .enumeration name valueType =>
      exact .alternative typeRef_discriminated rfl
        ⟨⟨_, rfl, given (.string name)⟩, ⟨_, rfl, given valueType.conforms⟩, trivial⟩ (by simp)
  | .array item dims =>
      have hitem := item.conforms (fun h => counted (List.mem_cons_of_mem _ h)) finite
      have hdims := Conforms.dimensions fun hzero : dims = 0 => counted (hzero ▸ List.mem_cons_self)
      exact .alternative typeRef_discriminated rfl
        ⟨⟨_, rfl, given hitem⟩, ⟨_, rfl, given hdims⟩, trivial⟩ (by simp)
  | .map value =>
      have hvalue := value.conforms counted finite
      exact .alternative typeRef_discriminated rfl ⟨⟨_, rfl, given hvalue⟩, trivial⟩ (by simp)
  | .object fields =>
      have hfields := Conforms.list (fieldsToJson_conform fields counted finite)
      exact .alternative typeRef_discriminated rfl ⟨⟨_, rfl, given hfields⟩, trivial⟩ (by simp)

theorem fieldsToJson_conform (fields : List Field) (counted : 0 ∉ fieldsDimensions fields)
    (finite : ∀ value ∈ fieldsArguments fields, value.Finite) :
    ∀ json ∈ fieldsToJson fields, Conforms (.ref "Field") json := by
  match fields with
  | [] => exact List.forall_mem_nil _
  | ⟨name, doc, optional, annotations, type⟩ :: rest =>
      simp only [fieldsArguments, fieldsDimensions, List.mem_append, not_or] at finite counted
      have hannotations := annotations_conform annotations fun value hvalue =>
        finite value (.inl (.inl hvalue))
      have htype := type.conforms counted.1 fun value hvalue => finite value (.inl (.inr hvalue))
      have hrest := fieldsToJson_conform rest counted.2 fun value hvalue =>
        finite value (.inr hvalue)
      refine List.forall_mem_cons.mpr ⟨.ref rfl (.record ?_ (by simp)), hrest⟩
      exact ⟨⟨_, rfl, given (.string name)⟩, ⟨_, rfl, doc_conforms doc⟩,
        ⟨_, rfl, given (.bool optional)⟩, ⟨_, rfl, given hannotations⟩,
        ⟨_, rfl, given htype⟩, trivial⟩

end

/-! ## Declarations -/

theorem TypeDef.conforms (type : TypeDef) (counted : 0 ∉ fieldsDimensions type.fields)
    (finite : ∀ value ∈ type.arguments, value.Finite) : Conforms (.ref "TypeDef") type.toJson := by
  simp only [TypeDef.arguments, List.mem_append] at finite
  have hannotations := annotations_conform type.annotations fun value hvalue =>
    finite value (.inl hvalue)
  have hfields := Conforms.list (fieldsToJson_conform type.fields counted fun value hvalue =>
    finite value (.inr hvalue))
  refine .ref rfl (.record ?_ (by simp))
  exact ⟨⟨_, rfl, given (.string type.name)⟩, ⟨_, rfl, doc_conforms type.doc⟩,
    ⟨_, rfl, given hannotations⟩, ⟨_, rfl, given hfields⟩, trivial⟩

theorem EnumMember.conforms (member : EnumMember)
    (finite : ∀ value ∈ member.arguments, value.Finite) :
    Conforms (.ref "EnumMember") member.toJson := by
  have hannotations := annotations_conform member.annotations finite
  refine .ref rfl (.record ?_ (by simp))
  exact ⟨⟨_, rfl, given (.string member.name)⟩, ⟨_, rfl, given (.string member.value)⟩,
    ⟨_, rfl, doc_conforms member.doc⟩, ⟨_, rfl, given hannotations⟩, trivial⟩

theorem EnumDef.conforms (enum : EnumDef) (finite : ∀ value ∈ enum.arguments, value.Finite) :
    Conforms (.ref "EnumDef") enum.toJson := by
  simp only [EnumDef.arguments, List.mem_append] at finite
  have hannotations := annotations_conform enum.annotations fun value hvalue =>
    finite value (.inr hvalue)
  have hmembers : ∀ json ∈ enum.members.map EnumMember.toJson, Conforms (.ref "EnumMember") json :=
    List.forall_mem_map.mpr fun member hmem => member.conforms fun value hvalue =>
      finite value (.inl (List.mem_flatMap.mpr ⟨member, hmem, hvalue⟩))
  refine .ref rfl (.record ?_ (by simp))
  exact ⟨⟨_, rfl, given (.string enum.name)⟩, ⟨_, rfl, doc_conforms enum.doc⟩,
    ⟨_, rfl, given hannotations⟩, ⟨_, rfl, given enum.valueType.conforms⟩,
    ⟨_, rfl, given (.list hmembers)⟩, trivial⟩

theorem ConstantDef.conforms (constant : ConstantDef) (counted : 0 ∉ constant.type.dimensions)
    (finite : ∀ value ∈ constant.arguments, value.Finite) (hvalue : constant.value.Finite) :
    Conforms (.ref "ConstantDef") constant.toJson := by
  simp only [ConstantDef.arguments, List.mem_append] at finite
  have hannotations := annotations_conform constant.annotations fun value hvalue =>
    finite value (.inl hvalue)
  have htype := constant.type.conforms counted fun value hvalue => finite value (.inr hvalue)
  refine .ref rfl (.record ?_ (by simp))
  exact ⟨⟨_, rfl, given (.string constant.name)⟩, ⟨_, rfl, doc_conforms constant.doc⟩,
    ⟨_, rfl, given hannotations⟩, ⟨_, rfl, given htype⟩,
    ⟨_, rfl, given (constant.value.conforms hvalue)⟩, trivial⟩

theorem DocDef.conforms (doc : DocDef) : Conforms (.ref "DocDef") doc.toJson := by
  refine .ref rfl (.record ?_ (by simp))
  exact ⟨⟨_, rfl, doc_conforms doc.scope⟩, ⟨_, rfl, given (.string doc.content)⟩, trivial⟩

namespace Schema

/-- A schema has the published shape if its floats are finite and its arrays have dimensions. -/
theorem conforms (schema : Schema) (counted : 0 ∉ schema.dimensions)
    (finite : ∀ x ∈ schema.floats, x.isFinite = true) : Conforms Published.root schema.toJson := by
  have hvalues : ∀ value ∈ schema.arguments ++ schema.constants.map (·.value), value.Finite :=
    fun value hvalue x hx => finite x (List.mem_flatMap.mpr ⟨value, hvalue, hx⟩)
  simp only [arguments, List.mem_append, List.mem_flatMap, List.mem_map] at hvalues
  simp only [dimensions, List.mem_append, List.mem_flatMap, not_or] at counted
  have htypes : ∀ json ∈ schema.types.map TypeDef.toJson, Conforms (.ref "TypeDef") json :=
    List.forall_mem_map.mpr fun type hmem =>
      type.conforms (fun hzero => counted.1 ⟨type, hmem, hzero⟩) fun value hvalue =>
        hvalues value (.inl (.inl (.inl ⟨type, hmem, hvalue⟩)))
  have henums : ∀ json ∈ schema.enums.map EnumDef.toJson, Conforms (.ref "EnumDef") json :=
    List.forall_mem_map.mpr fun enum hmem => enum.conforms fun value hvalue =>
      hvalues value (.inl (.inl (.inr ⟨enum, hmem, hvalue⟩)))
  have hconstants : ∀ json ∈ schema.constants.map ConstantDef.toJson,
      Conforms (.ref "ConstantDef") json :=
    List.forall_mem_map.mpr fun constant hmem =>
      constant.conforms (fun hzero => counted.2 ⟨constant, hmem, hzero⟩)
        (fun value hvalue => hvalues value (.inl (.inr ⟨constant, hmem, hvalue⟩)))
        (hvalues constant.value (.inr ⟨constant, hmem, rfl⟩))
  have hdocs : ∀ json ∈ schema.docs.map DocDef.toJson, Conforms (.ref "DocDef") json :=
    List.forall_mem_map.mpr fun doc _ => doc.conforms
  refine .fixed ?_ (by simp)
  exact ⟨⟨_, rfl, given (.list htypes)⟩, ⟨_, rfl, given (.list henums)⟩,
    ⟨_, rfl, given (.list hconstants)⟩, ⟨_, rfl, given (.list hdocs)⟩, trivial⟩

end Schema

/-! ## What is accepted has dimensions -/

namespace Schema.Published

variable {properties : List (String × Shape)} {required : List String} {shape : Shape} {json : Json}

end Schema.Published

/-- Arrays inside one another, `n` of them around an empty one. -/
def Literal.nested : Nat → Literal
  | 0 => .array []
  | n + 1 => .array [nested n]

/-- The value of arrays inside one another. -/
def Value.nested : Nat → Value
  | 0 => .array []
  | n + 1 => .array [nested n]

namespace Value

end Value

theorem Evaluates.nested {program : Program} {limit n : Nat} {st : Resolver}
    (room : st.depth + n < limit) :
    Evaluates program limit (.literal (.nested n)) st (some (.nested n)) st := by
  induction n generalizing st with
  | zero => exact .array room .noElements
  | succ n ih =>
      have hdeeper : st.deeper.depth + n < limit := by
        rw [st.deeper_fields.2.2.1]
        omega
      exact .array (by omega) (.element (ih hdeeper) .noElements)

namespace Program

variable {n limit : Nat}

end Program

end SchemaIR
