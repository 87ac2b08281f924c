import Mathlib
import SchemaIR.Proofs.Completion
import SchemaIR.Proofs.Published
import SchemaIR.Proofs.RoundTrip

/-!
# What the published JSON Schema accepts can be decoded

Each decoder is followed beside the shape of its name: the shape says which members there are and
of which shape, and so what the decoder finds when it asks for them. Decoders of values and types
are recursive in the depth of the document, so they are followed for documents below a bound.

Three things are asked that no shape says. Keys are not repeated, ints and dimensions are integers
of a fixed width, and every token has a value. The last one is needed twice: a JSON Schema takes
a number of any size for a number, while floats come to an end, and half a surrogate pair for a
string, while it is no text.
-/

namespace SchemaIR

open Json Schema

/-! ## Documents -/

namespace Node

/-- Whether a document is an integer between two bounds. -/
def isIntIn (least greatest : Int) : Node → Bool
  | .int n => least ≤ n ∧ n ≤ greatest
  | _ => false

/-- Whether a document is marked as being of a kind. -/
def isMarked (kind : String) (node : Node) : Bool :=
  node.entries.any fun entry => entry.1.isText "kind" && entry.2.isText kind

/-- What a document has to keep to besides its JSON Schema: no object has a key twice, the value
of an int is an integer of 64 bits, and dimensions are an integer of 32 bits. -/
structure Admissible (node : Node) : Prop where
  distinct : ∀ part ∈ node.parts, (part.entries.map Prod.fst).Nodup
  integers : ∀ part ∈ node.parts, part.isMarked "int" = true →
    ∀ entry ∈ part.entries, entry.1 = .string "value" →
      entry.2.isIntIn Number.signed64.least Number.signed64.greatest = true
  dimensions : ∀ part ∈ node.parts, ∀ entry ∈ part.entries, entry.1 = .string "dims" →
    entry.2.isIntIn 0 (UInt32.size - 1) = true

theorem exists_of_isIntIn {node : Node} {least greatest : Int}
    (h : node.isIntIn least greatest = true) : ∃ n, node = .int n ∧ least ≤ n ∧ n ≤ greatest := by
  cases node with
  | int n => exact ⟨n, rfl, of_decide_eq_true h⟩
  | null | bool | float | string | plain | unreadable | seq | map => cases h

/-- A document that nothing but its shape can keep from being decoded. -/
structure Tidy (node : Node) : Prop extends Admissible node, Settled node

theorem Tidy.part {node part : Node} (tidy : node.Tidy) (h : part ∈ node.parts) : part.Tidy where
  distinct inner hmem := tidy.distinct inner (node.parts_trans h hmem)
  integers inner hmem := tidy.integers inner (node.parts_trans h hmem)
  dimensions inner hmem := tidy.dimensions inner (node.parts_trans h hmem)
  readable hmem := tidy.readable (node.parts_trans h hmem)
  typed text hmem := tidy.typed text (node.parts_trans h hmem)

theorem Tidy.item {items : List Node} {item : Node} (tidy : (Node.seq items).Tidy)
    (h : item ∈ items) : item.Tidy :=
  tidy.part (List.mem_cons_of_mem _ (mem_itemsParts.mpr ⟨item, h, item.mem_parts_self⟩))

theorem Tidy.member {table : Table Node} {name : String} {value : Node}
    (tidy : (ofTable table).Tidy) (found : table.find? name = some value) : value.Tidy := by
  refine tidy.part (List.mem_cons_of_mem _ (mem_entriesParts.mpr ?_))
  exact ⟨_, mem_ofTable.mpr found, .inr value.mem_parts_self⟩

end Node

/-! ## Shapes and tables -/

namespace Json.Shape

/-- What is accepted as a record, and has no key twice, is a table. -/
theorem exists_table {root : Json} {properties : List (String × Shape)} {required : List String}
    {node : Node} (accepts : (Shape.record properties required).Accepts root node)
    (tidy : node.Tidy) : ∃ table : Table Node, node = .ofTable table ∧
      (∀ name value, table.find? name = some value →
        ∃ shape, properties.lookup name = some shape ∧ shape.Accepts root value) ∧
      ∀ name ∈ required, ∃ value, table.find? name = some value := by
  obtain ⟨entries, rfl, hknown, hcomplete⟩ := accepts_record.mp accepts
  -- Only texts are known as keys.
  have hmembers : ∃ members : List (String × Node), entries = members.map Node.named := by
    clear tidy accepts hcomplete
    induction entries with
    | nil => exact ⟨[], rfl⟩
    | cons entry rest ih =>
        obtain ⟨name, _, hkey, -⟩ := hknown entry List.mem_cons_self
        obtain ⟨members, rfl⟩ := ih fun entry hentry => hknown entry (List.mem_cons_of_mem _ hentry)
        exact ⟨(name, entry.2) :: members, by rw [List.map_cons, Node.named, ← hkey]⟩
  obtain ⟨members, rfl⟩ := hmembers
  have hdistinct : (members.map Prod.fst).Nodup := by
    have hkeys : ((members.map Node.named).map Prod.fst).Nodup :=
      tidy.distinct _ (Node.mem_parts_self _)
    rw [List.map_map] at hkeys
    refine List.Nodup.of_map Node.string ?_
    rw [List.map_map]
    exact hkeys
  let table : Table Node := ⟨members, hdistinct⟩
  refine ⟨table, rfl, fun name value found => ?_, fun name hname => ?_⟩
  · obtain ⟨other, shape, hkey, hshape, haccepts⟩ := hknown _ (Node.mem_ofTable.mpr found)
    cases hkey
    exact ⟨shape, hshape, haccepts⟩
  · obtain ⟨value, hvalue⟩ := hcomplete name hname
    exact ⟨value, Node.mem_ofTable.mp hvalue⟩

end Json.Shape

namespace Schema.Published

/-- What is known of the members of an accepted object, all of which nest less deep than `bound`. -/
structure Describes (bound : Nat) (properties : List (String × Shape)) (required : List String)
    (table : Table Node) : Prop where
  known : ∀ name value, table.find? name = some value →
    ∃ shape, properties.lookup name = some shape ∧ shape.Accepts document value
  complete : ∀ name ∈ required, ∃ value, table.find? name = some value
  tidy : ∀ name value, table.find? name = some value → value.Tidy
  bounded : ∀ name value, table.find? name = some value → value.depth < bound

/-- A decoder takes every tidy document of a shape that nests less deep than `bound`. -/
def Covers {α : Type} (decode : Decoder α) (encode : α → Json) (shape : Shape) (bound : Nat) :
    Prop :=
  ∀ node, shape.Accepts document node → node.Tidy → node.depth < bound → decode.Takes encode node

variable {α : Type} {decode : Decoder α} {encode : α → Json} {shape : Shape} {bound : Nat}
  {properties : List (String × Shape)} {required : List String}

/-! ### Scalars and lists -/

theorem exists_text {node : Node} (accepts : Shape.string.Accepts document node)
    (tidy : node.Tidy) : ∃ text, node = .string text := by
  rcases Node.mem_types_string.mp (Shape.accepts_string.mp accepts) with h | rfl
  · exact h
  · exact absurd (Node.mem_parts_self _) tidy.readable

theorem text_covers : Covers .text .string .string bound := by
  intro node accepts tidy _
  obtain ⟨text, rfl⟩ := exists_text accepts tidy
  exact Decoder.text_takes text

theorem bool_covers : Covers .bool .bool .boolean bound := by
  intro node accepts _ _
  obtain ⟨flag, rfl⟩ := Node.mem_types_boolean.mp (Shape.accepts_boolean.mp accepts)
  exact Decoder.bool_takes flag

theorem float_covers : Covers .float .float .number bound := by
  intro node accepts tidy _
  rcases Node.mem_types_number.mp (Shape.accepts_number.mp accepts) with ⟨n, rfl⟩ | ⟨x, rfl⟩ | rfl
  · exact Decoder.float_takes_int n
  · exact Decoder.float_takes x
  · exact absurd (Node.mem_parts_self _) tidy.readable

theorem word_covers {meaning : String → Option α} {name : α → String} {all : List α}
    (h : ∀ a, meaning (name a) = some a) :
    Covers (.word meaning) (fun a => .string (name a)) (.oneWord (all.map name)) bound := by
  intro node accepts _ _
  obtain ⟨text, htext, rfl⟩ := Shape.accepts_oneWord.mp accepts
  obtain ⟨a, -, rfl⟩ := List.mem_map.mp htext
  exact Decoder.word_takes (h a) rfl

theorem list_covers (h : Covers decode encode shape bound) :
    Covers (.list decode) (fun as => .array (as.map encode)) (.list shape) bound := by
  intro node accepts tidy hbound
  obtain ⟨items, rfl, haccepts⟩ := Shape.accepts_list.mp accepts
  refine Decoder.list_takes fun item hitem => h item (haccepts item hitem) (tidy.item hitem) ?_
  exact Nat.lt_trans (Node.depth_lt_seq hitem) hbound

theorem ref_covers {name : String} (found : definitions.lookup name = some shape)
    (h : Covers decode encode shape bound) : Covers decode encode (.ref name) bound :=
  fun node accepts => h node ((accepts_ref found).mp accepts)

/-! ### Records -/

namespace Describes

variable {table : Table Node} {record : Record}

theorem covered {name : String} (describes : Describes bound properties required table)
    (known : properties.lookup name = some shape) (h : Covers decode encode shape bound)
    {value : Node} (found : table.find? name = some value) :
    shape.Accepts document value ∧ decode.Takes encode value := by
  obtain ⟨other, hother, haccepts⟩ := describes.known name value found
  cases known.symm.trans hother
  exact ⟨haccepts, h value haccepts (describes.tidy name value found)
    (describes.bounded name value found)⟩

theorem reads_required (describes : Describes bound properties required table)
    (shows : record.Shows table) (name : String) (needed : name ∈ required)
    (known : properties.lookup name = some shape) (h : Covers decode encode shape bound) :
    ∃ a, record.required name decode = some a ∧ Supplies table name (some (encode a)) := by
  obtain ⟨value, found⟩ := describes.complete name needed
  exact shows.required found (describes.covered known h found).2

theorem reads_default (describes : Describes bound properties required table)
    (shows : record.Shows table) (name : String) (default : α)
    (usual : (name, (encode default).toNode) ∈ Node.defaults)
    (known : properties.lookup name = some shape) (h : Covers decode encode shape bound) :
    ∃ a, record.withDefault name default decode = some a ∧
      Supplies table name (some (encode a)) :=
  shows.withDefault usual fun _ found => (describes.covered known h found).2

theorem reads_optional (describes : Describes bound properties required table)
    (shows : record.Shows table) (name : String) (known : properties.lookup name = some shape)
    (there : ∀ node, shape.Accepts document node → node.isNull = false)
    (h : Covers decode encode shape bound) :
    ∃ a?, record.withDefault name none (.option decode) = some a? ∧
      Supplies table name (a?.map encode) :=
  shows.optional fun value found =>
    (describes.covered known h found).imp_left (there value)

theorem keys (describes : Describes bound properties required table) :
    ∀ key ∈ table.keys, key ∈ properties.map Prod.fst := by
  intro key hkey
  obtain ⟨entry, hentry, rfl⟩ := List.mem_map.mp hkey
  obtain ⟨shape, hshape, -⟩ := describes.known _ _ (Table.find?_eq_some_iff.mpr hentry)
  exact Shape.mem_keys_of_lookup hshape

end Describes

/-- An accepted object is a table with members of the published shapes. -/
theorem exists_describes {node : Node}
    (accepts : (Shape.record properties required).Accepts document node) (tidy : node.Tidy)
    (hbound : node.depth < bound) :
    ∃ table, node = .ofTable table ∧ Describes (bound - 1) properties required table := by
  obtain ⟨table, rfl, hknown, hcomplete⟩ := Shape.exists_table accepts tidy
  refine ⟨table, rfl, hknown, hcomplete, fun name value found => tidy.member found,
    fun name value found => ?_⟩
  have hdepth := Node.depth_lt_ofTable found
  omega

theorem record_covers {names : List String} {body : Record → Option α}
    (known : properties.map Prod.fst ⊆ names)
    (h : ∀ table record, Describes (bound - 1) properties required table → record.Shows table →
      ∃ a fields, body record = some a ∧ AllSupply table fields ∧ fields.map Prod.fst = names ∧
        encode a = Json.record fields) :
    Covers (fun r node => Record.read? names r node >>= body) encode (.record properties required)
      bound := by
  intro node accepts tidy hbound
  obtain ⟨table, rfl, describes⟩ := exists_describes accepts tidy hbound
  exact Decoder.record_takes (fun key hkey => known (describes.keys key hkey))
    fun record => h table record describes

/-- No object nests less deep than one level. -/
theorem covers_one
    (objects : ∀ node, shape.Accepts document node → ∃ entries, node = .map entries) :
    Covers decode encode shape 1 := by
  intro node accepts _ hbound
  obtain ⟨entries, rfl⟩ := objects node accepts
  rw [Node.depth] at hbound
  omega

theorem record_covers_one : Covers decode encode (.record properties required) 1 :=
  covers_one fun _ accepts => (Shape.accepts_record.mp accepts).imp fun _ h => h.1

theorem union_covers_one (discriminated : shape.Discriminated) : Covers decode encode shape 1 :=
  covers_one fun _ => discriminated.exists_map

/-! ### Unions -/

theorem oneOf_covers {alternatives : List Shape}
    (h : ∀ alternative ∈ alternatives, Covers decode encode alternative bound) :
    Covers decode encode (.oneOf alternatives) bound := by
  intro node accepts
  obtain ⟨alternative, hmem, haccepts⟩ := Shape.exists_accepts_of_oneOf accepts
  exact h alternative hmem node haccepts

/-- The members of an alternative besides its mark. -/
theorem Describes.rest {table : Table Node}
    (describes : Describes bound properties required table) :
    Describes bound properties (required.filter (· ≠ "kind")) (table.without "kind") := by
  refine ⟨fun name value found => describes.known name value (Table.find?_of_without found), ?_,
    fun name value found => describes.tidy name value (Table.find?_of_without found),
    fun name value found => describes.bounded name value (Table.find?_of_without found)⟩
  intro name hname
  obtain ⟨hmem, hne⟩ := List.mem_filter.mp hname
  rw [Table.find?_without (of_decide_eq_true hne)]
  exact describes.complete name hmem

theorem alternative_covers {kinds : List String} {kind : String} (names : List String)
    {body : String × Node → Option α} {inner : Record → Option α}
    (marked : properties.lookup "kind" = some (.const kind)) (needed : "kind" ∈ required)
    (listed : kind ∈ kinds) (known : properties.map Prod.fst ⊆ "kind" :: names)
    (others : "kind" ∉ names)
    (reads : ∀ node, body (kind, node) = Record.read? names .settled node >>= inner)
    (h : ∀ table record, (Node.ofTable table).Tidy → table.find? "kind" = some (.string kind) →
      Describes (bound - 1) properties (required.filter (· ≠ "kind")) (table.without "kind") →
      record.Shows (table.without "kind") →
      ∃ a fields, inner record = some a ∧ AllSupply (table.without "kind") fields ∧
        fields.map Prod.fst = names ∧
        encode a = Json.record (("kind", some (.string kind)) :: fields)) :
    Covers (fun r node => r.union? kinds node >>= body) encode (.record properties required)
      bound := by
  intro node accepts tidy hbound
  obtain ⟨table, rfl, describes⟩ := exists_describes accepts tidy hbound
  have hkind : table.find? "kind" = some (.string kind) := by
    obtain ⟨value, found⟩ := describes.complete "kind" needed
    obtain ⟨shape, hshape, haccepts⟩ := describes.known "kind" value found
    cases marked.symm.trans hshape
    rw [found, Shape.accepts_const.mp haccepts]
  refine Decoder.union_takes listed hkind tidy.toSettled ?_ others reads fun record shows =>
    h table record tidy hkind describes.rest shows
  exact fun key hkey => List.mem_cons.mp (known (describes.keys key hkey))

/-- An alternative with one member besides its mark. -/
theorem field_covers {β : Type} {kinds : List String} {kind : String} (name : String)
    {body : String × Node → Option β} {wrap : α → β} {encodeAll : β → Json}
    (marked : properties.lookup "kind" = some (.const kind)) (needed : ["kind", name] ⊆ required)
    (listed : kind ∈ kinds) (known : properties.map Prod.fst ⊆ ["kind", name])
    (other : name ≠ "kind") (field : properties.lookup name = some shape)
    (reads : ∀ node, body (kind, node) = Record.read? [name] .settled node >>= fun record =>
      record.required name decode >>= fun a => pure (wrap a))
    (writes : ∀ a, encodeAll (wrap a) =
      Json.record [("kind", some (.string kind)), (name, some (encode a))])
    (h : Covers decode encode shape (bound - 1)) :
    Covers (fun r node => r.union? kinds node >>= body) encodeAll (.record properties required)
      bound := by
  refine alternative_covers [name] marked (needed (by simp)) listed known
    (by simpa using other.symm) reads fun table record _ _ describes shows => ?_
  have hneeded : name ∈ required.filter (· ≠ "kind") :=
    List.mem_filter.mpr ⟨needed (by simp), decide_eq_true other⟩
  obtain ⟨a, ha, hsupplies⟩ := describes.reads_required shows name hneeded field h
  refine ⟨wrap a, [(name, some (encode a))], ?_, ⟨hsupplies, trivial⟩, rfl, writes a⟩
  simp only [ha]
  rfl

end Schema.Published

open Schema.Published

/-! ## Values -/

theorem itemsToJson_eq_map (items : List Value) : itemsToJson items = items.map Value.toJson := by
  induction items with
  | nil => rfl
  | cons item rest ih => rw [itemsToJson, ih, List.map_cons]

/-- An entry of an object value. -/
def entryToJson (entry : String × Value) : Json :=
  .object [("key", .string entry.1), ("value", entry.2.toJson)]

theorem entriesToJson_eq_map (entries : List (String × Value)) :
    entriesToJson entries = entries.map entryToJson := by
  induction entries with
  | nil => rfl
  | cons entry rest ih => rw [entriesToJson, ih, List.map_cons, entryToJson]

variable {fuel bound : Nat}

namespace Value

/-- Of all values only an int is asked for more than its shape. -/
theorem int_covers : Covers (Value.decode (fuel + 1)) Value.toJson
    (.record [Published.kind "int", ("value", .integer none)] ["kind", "value"]) bound := by
  refine alternative_covers ["value"] rfl (by decide) (by decide) (by decide) (by decide)
    (fun _ => rfl) fun table record tidy marked describes shows => ?_
  obtain ⟨value, found⟩ := describes.complete "value" (by decide)
  have hmember := Node.mem_ofTable.mpr (Table.find?_of_without found)
  have hmarked : (Node.ofTable table).isMarked "int" = true :=
    List.any_eq_true.mpr ⟨_, Node.mem_ofTable.mpr marked, by simp [Node.isText]⟩
  obtain ⟨n, rfl, hleast, hgreatest⟩ := Node.exists_of_isIntIn
    (tidy.integers _ (Node.mem_parts_self _) hmarked _ hmember rfl)
  obtain ⟨number, hnumber, hsupplies⟩ := shows.required found (Decoder.int64_takes hleast hgreatest)
  refine ⟨.int number, [("value", some (.int number.toInt))], ?_, ⟨hsupplies, trivial⟩, rfl, rfl⟩
  simp only [hnumber]
  rfl

theorem decode_succ_covers
    (hvalue : Covers (Value.decode fuel) Value.toJson (.ref "Value") (fuel + 1))
    (hentry : Covers (Value.decodeEntry fuel) entryToJson (.ref "ObjectEntry") (fuel + 1)) :
    Covers (Value.decode (fuel + 1)) Value.toJson (.ref "Value") (fuel + 2) := by
  refine ref_covers rfl (oneOf_covers ?_)
  simp only [List.forall_mem_cons]
  refine ⟨?string, int_covers, ?float, ?bool, ?object, ?array, List.forall_mem_nil _⟩
  case string =>
    exact field_covers "value" rfl (by decide) (by decide) (by decide) (by decide) rfl
      (fun _ => rfl) (fun _ => rfl) text_covers
  case float =>
    exact field_covers "value" rfl (by decide) (by decide) (by decide) (by decide) rfl
      (fun _ => rfl) (fun _ => rfl) float_covers
  case bool =>
    exact field_covers "value" rfl (by decide) (by decide) (by decide) (by decide) rfl
      (fun _ => rfl) (fun _ => rfl) bool_covers
  case object =>
    exact field_covers "entries" rfl (by decide) (by decide) (by decide) (by decide) rfl
      (fun _ => rfl) (fun entries => by rw [Value.toJson, entriesToJson_eq_map]; rfl)
      (list_covers hentry)
  case array =>
    exact field_covers "items" rfl (by decide) (by decide) (by decide) (by decide) rfl
      (fun _ => rfl) (fun items => by rw [Value.toJson, itemsToJson_eq_map]; rfl)
      (list_covers hvalue)

theorem decodeEntry_succ_covers
    (h : Covers (Value.decode fuel) Value.toJson (.ref "Value") (fuel + 1)) :
    Covers (Value.decodeEntry (fuel + 1)) entryToJson (.ref "ObjectEntry") (fuel + 2) := by
  refine ref_covers rfl (record_covers (by decide) fun table record describes shows => ?_)
  obtain ⟨key, hkey, skey⟩ := describes.reads_required shows "key" (by decide) rfl text_covers
  obtain ⟨value, hvalue, svalue⟩ := describes.reads_required shows "value" (by decide) rfl h
  refine ⟨(key, value), [("key", some (.string key)), ("value", some value.toJson)], ?_,
    ⟨skey, svalue, trivial⟩, rfl, rfl⟩
  simp only [hkey, hvalue]
  rfl

theorem decode_covers (fuel : Nat) :
    Covers (Value.decode fuel) Value.toJson (.ref "Value") (fuel + 1) ∧
      Covers (Value.decodeEntry fuel) entryToJson (.ref "ObjectEntry") (fuel + 1) := by
  induction fuel with
  | zero =>
      exact ⟨ref_covers rfl (union_covers_one value_discriminated),
        ref_covers rfl record_covers_one⟩
  | succ fuel ih => exact ⟨decode_succ_covers ih.1 ih.2, decodeEntry_succ_covers ih.1⟩

theorem decodeAny_covers : Covers Value.decodeAny Value.toJson (.ref "Value") bound :=
  fun node accepts tidy _ =>
    (decode_covers node.depth).1 node accepts tidy (Nat.lt_succ_self node.depth)

end Value

theorem string_isNull (node : Node) (accepts : Shape.string.Accepts document node) :
    node.isNull = false := by
  rcases Node.mem_types_string.mp (Shape.accepts_string.mp accepts) with ⟨text, rfl⟩ | rfl <;> rfl

theorem value_isNull (node : Node) (accepts : (Shape.ref "Value").Accepts document node) :
    node.isNull = false := by
  obtain ⟨entries, rfl⟩ := value_discriminated.exists_map ((accepts_ref rfl).mp accepts)
  rfl

theorem Annotation.decode_covers :
    Covers Annotation.decode Annotation.toJson (.ref "Annotation") bound := by
  refine ref_covers rfl (record_covers (by decide) fun table record describes shows => ?_)
  obtain ⟨name, hname, sname⟩ := describes.reads_required shows "name" (by decide) rfl text_covers
  obtain ⟨argument, hargument, sargument⟩ :=
    describes.reads_optional shows "argument" rfl value_isNull Value.decodeAny_covers
  refine ⟨⟨name, argument⟩,
    [("name", some (.string name)), ("argument", argument.map Value.toJson)], ?_,
    ⟨sname, sargument, trivial⟩, rfl, rfl⟩
  simp only [hname, hargument]
  rfl

namespace Schema.Published.Describes

variable {properties : List (String × Shape)} {required : List String} {table : Table Node}
  {record : Record}

theorem reads_text (describes : Describes bound properties required table)
    (shows : record.Shows table) (name : String) (known : properties.lookup name = some .string) :
    ∃ text?, record.withDefault name none (.option .text) = some text? ∧
      Supplies table name (text?.map .string) :=
  describes.reads_optional shows name known string_isNull text_covers

theorem reads_annotations (describes : Describes bound properties required table)
    (shows : record.Shows table)
    (known : properties.lookup "annotations" = some (.list (.ref "Annotation"))) :
    ∃ annotations,
      record.withDefault "annotations" [] (.list Annotation.decode) = some annotations ∧
      Supplies table "annotations" (some (.array (annotations.map Annotation.toJson))) :=
  describes.reads_default shows "annotations" [] List.mem_cons_self known
    (list_covers Annotation.decode_covers)

end Schema.Published.Describes

/-! ## Types -/

theorem ValueType.covers :
    Covers (.word ValueType.ofName?) (fun type => .string type.name) (.ref "EnumValueType") bound :=
  ref_covers rfl (word_covers ValueType.ofName?_name)

theorem Primitive.covers :
    Covers (.word Primitive.ofName?) (fun type => .string type.name) (.ref "PrimitiveType") bound :=
  ref_covers rfl (word_covers Primitive.ofName?_name)

namespace TypeRef

theorem enumeration_covers : Covers (TypeRef.decode (fuel + 1)) TypeRef.toJson
    (.record [Published.kind "enum", Published.name, ("valueType", .ref "EnumValueType")]
      ["kind", "name", "valueType"]) bound := by
  refine alternative_covers ["name", "valueType"] rfl (by decide) (by decide) (by decide)
    (by decide) (fun _ => rfl) fun table record _ _ describes shows => ?_
  obtain ⟨name, hname, sname⟩ := describes.reads_required shows "name" (by decide) rfl text_covers
  obtain ⟨valueType, htype, stype⟩ :=
    describes.reads_required shows "valueType" (by decide) rfl ValueType.covers
  refine ⟨.enumeration name valueType, [("name", some (.string name)),
    ("valueType", some (.string valueType.name))], ?_, ⟨sname, stype, trivial⟩, rfl, rfl⟩
  simp only [hname, htype]
  rfl

theorem array_covers
    (h : Covers (TypeRef.decode fuel) TypeRef.toJson (.ref "TypeRef") (bound - 1)) :
    Covers (TypeRef.decode (fuel + 1)) TypeRef.toJson
      (.record [("dims", .integer (some 1)), ("item", .ref "TypeRef"), Published.kind "array"]
        ["kind", "item", "dims"]) bound := by
  refine alternative_covers ["item", "dims"] rfl (by decide) (by decide) (by decide) (by decide)
    (fun _ => rfl) fun table record tidy _ describes shows => ?_
  obtain ⟨item, hitem, sitem⟩ := describes.reads_required shows "item" (by decide) rfl h
  obtain ⟨value, found⟩ := describes.complete "dims" (by decide)
  have hmember := Node.mem_ofTable.mpr (Table.find?_of_without found)
  obtain ⟨n, rfl, hleast, hgreatest⟩ := Node.exists_of_isIntIn
    (tidy.dimensions _ (Node.mem_parts_self _) _ hmember rfl)
  obtain ⟨dims, hdims, sdims⟩ := shows.required found (Decoder.uint32_takes hleast hgreatest)
  refine ⟨.array item dims, [("item", some item.toJson), ("dims", some (.int dims.toNat))], ?_,
    ⟨sitem, sdims, trivial⟩, rfl, rfl⟩
  simp only [hitem, hdims]
  rfl

theorem decode_succ_covers
    (htype : Covers (TypeRef.decode fuel) TypeRef.toJson (.ref "TypeRef") (fuel + 1))
    (hfield : Covers (Field.decode fuel) Field.toJson (.ref "Field") (fuel + 1)) :
    Covers (TypeRef.decode (fuel + 1)) TypeRef.toJson (.ref "TypeRef") (fuel + 2) := by
  refine ref_covers rfl (oneOf_covers ?_)
  simp only [List.forall_mem_cons]
  refine ⟨?primitive, ?named, enumeration_covers, array_covers htype, ?map, ?object,
    List.forall_mem_nil _⟩
  case primitive =>
    exact field_covers "primitive" rfl (by decide) (by decide) (by decide) (by decide) rfl
      (fun _ => rfl) (fun _ => rfl) Primitive.covers
  case named =>
    exact field_covers "name" rfl (by decide) (by decide) (by decide) (by decide) rfl
      (fun _ => rfl) (fun _ => rfl) text_covers
  case map =>
    exact field_covers "value" rfl (by decide) (by decide) (by decide) (by decide) rfl
      (fun _ => rfl) (fun _ => rfl) htype
  case object =>
    exact field_covers "fields" rfl (by decide) (by decide) (by decide) (by decide) rfl
      (fun _ => rfl) (fun fields => by rw [TypeRef.toJson, fieldsToJson_eq_map]; rfl)
      (list_covers hfield)

theorem decodeField_succ_covers
    (h : Covers (TypeRef.decode fuel) TypeRef.toJson (.ref "TypeRef") (fuel + 1)) :
    Covers (Field.decode (fuel + 1)) Field.toJson (.ref "Field") (fuel + 2) := by
  refine ref_covers rfl (record_covers (by decide) fun table record describes shows => ?_)
  obtain ⟨name, hname, sname⟩ := describes.reads_required shows "name" (by decide) rfl text_covers
  obtain ⟨doc, hdoc, sdoc⟩ := describes.reads_text shows "doc" rfl
  obtain ⟨optional, hoptional, soptional⟩ := describes.reads_default shows "optional" false
    (List.mem_cons_of_mem _ List.mem_cons_self) rfl bool_covers
  obtain ⟨annotations, hannotations, sannotations⟩ := describes.reads_annotations shows rfl
  obtain ⟨type, htype, stype⟩ := describes.reads_required shows "type" (by decide) rfl h
  refine ⟨⟨name, doc, optional, annotations, type⟩, [("name", some (.string name)),
    ("doc", doc.map .string), ("optional", some (.bool optional)),
    ("annotations", some (.array (annotations.map Annotation.toJson))),
    ("type", some type.toJson)], ?_,
    ⟨sname, sdoc, soptional, sannotations, stype, trivial⟩, rfl, rfl⟩
  simp only [hname, hdoc, hoptional, hannotations, htype]
  rfl

theorem decode_covers (fuel : Nat) :
    Covers (TypeRef.decode fuel) TypeRef.toJson (.ref "TypeRef") (fuel + 1) ∧
      Covers (Field.decode fuel) Field.toJson (.ref "Field") (fuel + 1) := by
  induction fuel with
  | zero =>
      exact ⟨ref_covers rfl (union_covers_one typeRef_discriminated),
        ref_covers rfl record_covers_one⟩
  | succ fuel ih => exact ⟨decode_succ_covers ih.1 ih.2, decodeField_succ_covers ih.1⟩

theorem decodeAny_covers : Covers TypeRef.decodeAny TypeRef.toJson (.ref "TypeRef") bound :=
  fun node accepts tidy _ =>
    (decode_covers node.depth).1 node accepts tidy (Nat.lt_succ_self node.depth)

end TypeRef

theorem Field.decodeAny_covers : Covers Field.decodeAny Field.toJson (.ref "Field") bound :=
  fun node accepts tidy _ =>
    (TypeRef.decode_covers node.depth).2 node accepts tidy (Nat.lt_succ_self node.depth)

/-! ## Declarations -/

theorem TypeDef.decode_covers : Covers TypeDef.decode TypeDef.toJson (.ref "TypeDef") bound := by
  refine ref_covers rfl (record_covers (by decide) fun table record describes shows => ?_)
  obtain ⟨name, hname, sname⟩ := describes.reads_required shows "name" (by decide) rfl text_covers
  obtain ⟨doc, hdoc, sdoc⟩ := describes.reads_text shows "doc" rfl
  obtain ⟨annotations, hannotations, sannotations⟩ := describes.reads_annotations shows rfl
  obtain ⟨fields, hfields, sfields⟩ := describes.reads_required shows "fields" (by decide) rfl
    (list_covers Field.decodeAny_covers)
  refine ⟨⟨name, doc, annotations, fields⟩, [("name", some (.string name)),
    ("doc", doc.map .string), ("annotations", some (.array (annotations.map Annotation.toJson))),
    ("fields", some (.array (fields.map Field.toJson)))], ?_,
    ⟨sname, sdoc, sannotations, sfields, trivial⟩, rfl, ?_⟩
  · simp only [hname, hdoc, hannotations, hfields]
    rfl
  · rw [TypeDef.toJson, fieldsToJson_eq_map]

theorem EnumMember.decode_covers :
    Covers EnumMember.decode EnumMember.toJson (.ref "EnumMember") bound := by
  refine ref_covers rfl (record_covers (by decide) fun table record describes shows => ?_)
  obtain ⟨name, hname, sname⟩ := describes.reads_required shows "name" (by decide) rfl text_covers
  obtain ⟨value, hvalue, svalue⟩ :=
    describes.reads_required shows "value" (by decide) rfl text_covers
  obtain ⟨doc, hdoc, sdoc⟩ := describes.reads_text shows "doc" rfl
  obtain ⟨annotations, hannotations, sannotations⟩ := describes.reads_annotations shows rfl
  refine ⟨⟨name, value, doc, annotations⟩, [("name", some (.string name)),
    ("value", some (.string value)), ("doc", doc.map .string),
    ("annotations", some (.array (annotations.map Annotation.toJson)))], ?_,
    ⟨sname, svalue, sdoc, sannotations, trivial⟩, rfl, rfl⟩
  simp only [hname, hvalue, hdoc, hannotations]
  rfl

theorem EnumDef.decode_covers : Covers EnumDef.decode EnumDef.toJson (.ref "EnumDef") bound := by
  refine ref_covers rfl (record_covers (by decide) fun table record describes shows => ?_)
  obtain ⟨name, hname, sname⟩ := describes.reads_required shows "name" (by decide) rfl text_covers
  obtain ⟨doc, hdoc, sdoc⟩ := describes.reads_text shows "doc" rfl
  obtain ⟨annotations, hannotations, sannotations⟩ := describes.reads_annotations shows rfl
  obtain ⟨valueType, htype, stype⟩ :=
    describes.reads_required shows "valueType" (by decide) rfl ValueType.covers
  obtain ⟨members, hmembers, smembers⟩ := describes.reads_required shows "members" (by decide) rfl
    (list_covers EnumMember.decode_covers)
  refine ⟨⟨name, doc, annotations, valueType, members⟩, [("name", some (.string name)),
    ("doc", doc.map .string), ("annotations", some (.array (annotations.map Annotation.toJson))),
    ("valueType", some (.string valueType.name)),
    ("members", some (.array (members.map EnumMember.toJson)))], ?_,
    ⟨sname, sdoc, sannotations, stype, smembers, trivial⟩, rfl, rfl⟩
  simp only [hname, hdoc, hannotations, htype, hmembers]
  rfl

theorem ConstantDef.decode_covers :
    Covers ConstantDef.decode ConstantDef.toJson (.ref "ConstantDef") bound := by
  refine ref_covers rfl (record_covers (by decide) fun table record describes shows => ?_)
  obtain ⟨name, hname, sname⟩ := describes.reads_required shows "name" (by decide) rfl text_covers
  obtain ⟨doc, hdoc, sdoc⟩ := describes.reads_text shows "doc" rfl
  obtain ⟨annotations, hannotations, sannotations⟩ := describes.reads_annotations shows rfl
  obtain ⟨type, htype, stype⟩ :=
    describes.reads_required shows "type" (by decide) rfl TypeRef.decodeAny_covers
  obtain ⟨value, hvalue, svalue⟩ :=
    describes.reads_required shows "value" (by decide) rfl Value.decodeAny_covers
  refine ⟨⟨name, doc, annotations, type, value⟩, [("name", some (.string name)),
    ("doc", doc.map .string), ("annotations", some (.array (annotations.map Annotation.toJson))),
    ("type", some type.toJson), ("value", some value.toJson)], ?_,
    ⟨sname, sdoc, sannotations, stype, svalue, trivial⟩, rfl, rfl⟩
  simp only [hname, hdoc, hannotations, htype, hvalue]
  rfl

theorem DocDef.decode_covers : Covers DocDef.decode DocDef.toJson (.ref "DocDef") bound := by
  refine ref_covers rfl (record_covers (by decide) fun table record describes shows => ?_)
  obtain ⟨scope, hscope, sscope⟩ := describes.reads_text shows "scope" rfl
  obtain ⟨content, hcontent, scontent⟩ :=
    describes.reads_required shows "content" (by decide) rfl text_covers
  refine ⟨⟨scope, content⟩, [("scope", scope.map .string), ("content", some (.string content))], ?_,
    ⟨sscope, scontent, trivial⟩, rfl, rfl⟩
  simp only [hscope, hcontent]
  rfl

namespace Schema

theorem decode_covers : Covers Schema.decode Schema.toJson Published.root bound := by
  refine record_covers (by decide) fun table record describes shows => ?_
  obtain ⟨types, htypes, stypes⟩ := describes.reads_required shows "types" (by decide) rfl
    (list_covers TypeDef.decode_covers)
  obtain ⟨enums, henums, senums⟩ := describes.reads_required shows "enums" (by decide) rfl
    (list_covers EnumDef.decode_covers)
  obtain ⟨constants, hconstants, sconstants⟩ := describes.reads_required shows "constants"
    (by decide) rfl (list_covers ConstantDef.decode_covers)
  obtain ⟨docs, hdocs, sdocs⟩ := describes.reads_required shows "docs" (by decide) rfl
    (list_covers DocDef.decode_covers)
  refine ⟨⟨types, enums, constants, docs⟩, [("types", some (.array (types.map TypeDef.toJson))),
    ("enums", some (.array (enums.map EnumDef.toJson))),
    ("constants", some (.array (constants.map ConstantDef.toJson))),
    ("docs", some (.array (docs.map DocDef.toJson)))], ?_,
    ⟨stypes, senums, sconstants, sdocs, trivial⟩, rfl, rfl⟩
  simp only [htypes, henums, hconstants, hdocs]
  rfl

/-- That a document is accepted can be checked. -/
theorem valid_of_accepts? {fuel : Nat} {node : Node}
    (h : accepts? fuel Published.root node = true) : Json.Valid Published.document node :=
  valid_iff.mpr (accepts?_sound h)

theorem ofJson_of_decode_isNone {text : String} {node : Node}
    (parsed : Json.parse? text = some node)
    (refused : (Schema.decode .json node).isNone = true) :
    Schema.ofJson text = .error .json := by
  rw [ofJson, parsed, Option.bind_some, Option.isNone_iff_eq_none.mp refused]

/-- A text with a string that is half a surrogate pair. -/
def halfPairText : String :=
  String.ofList ([
    "\x7b\"types\":[],\"enums\":[],\"constants\":[],",
    "\"docs\":[\x7b\"content\":\"\\ud800\"\x7d]\x7d"].flatMap String.toList)

/-- What the text with half a surrogate pair is read as. -/
def halfPairNode : Node :=
  .map [(.string "types", .seq []), (.string "enums", .seq []), (.string "constants", .seq []),
    (.string "docs", .seq [.map [(.string "content", .unreadable)]])]

/-- A string is accepted whatever is escaped in it, but half a surrogate pair is no text. -/
theorem ofJson_halfPair :
    Json.parse? halfPairText = some halfPairNode ∧
      Json.Valid Published.document halfPairNode ∧ halfPairNode.Admissible ∧
      halfPairNode.depth ≤ 127 ∧ Schema.ofJson halfPairText = .error .json := by
  have parsed : Json.parse? halfPairText = some halfPairNode :=
    Json.parse?_of_chars String.toList_ofList (by decide +kernel)
  have accepted : accepts? 20 Published.root halfPairNode = true := by decide +kernel
  exact ⟨parsed, valid_of_accepts? accepted,
    ⟨by decide +kernel, by decide +kernel, by decide +kernel⟩, by decide +kernel,
    ofJson_of_decode_isNone parsed (by decide +kernel)⟩

end Schema

end SchemaIR
