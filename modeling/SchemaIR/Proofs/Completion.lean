import Mathlib
import SchemaIR.Proofs.Documents
import SchemaIR.Proofs.Reading

/-!
# Documents that leave something out

A document may leave out what the encoder would write, and its members may stand in any order.
Decoding it and encoding the result completes it: `Completes` says that nothing is lost and that
nothing is added but what is left out by default.

A decoder takes a document if it reads it wherever there are levels enough, and completes it.
As for documents that were encoded, this is composed along the decoders. Members are looked up
in a table, and a union is a table with one member that says which kind it is.
-/

namespace SchemaIR

namespace Node

/-- What is written for a member that is left out. -/
def defaults : List (String × Node) := [("annotations", .seq []), ("optional", .bool false)]

/-- `node.Completes full`: the document `full` says what `node` says, with the defaults written
out. An integer may stand for a float. -/
inductive Completes : Node → Node → Prop where
  | same {node : Node} : Completes node node
  | number {n : Int} : Completes (.int n) (.float (Decoder.floatOfInt n))
  | seq {items others : List Node} (each : List.Forall₂ Completes items others) :
      Completes (.seq items) (.seq others)
  | map {entries others : List (Node × Node)}
      (kept : ∀ key value, (key, value) ∈ entries → ∃ other, (key, other) ∈ others)
      (said : ∀ key value other, (key, value) ∈ entries → (key, other) ∈ others →
        Completes value other)
      (added : ∀ key other, (key, other) ∈ others → (∃ value, (key, value) ∈ entries) ∨
        ∃ name, key = .string name ∧ (name, other) ∈ defaults) :
      Completes (.map entries) (.map others)

theorem itemsDepth_le {items : List Node} {bound : Nat} :
    itemsDepth items ≤ bound ↔ ∀ item ∈ items, item.depth ≤ bound := by
  induction items with
  | nil => simp [itemsDepth]
  | cons item rest ih => rw [itemsDepth, Nat.max_le, ih, List.forall_mem_cons]

theorem entriesDepth_le {entries : List (Node × Node)} {bound : Nat} :
    entriesDepth entries ≤ bound ↔
      ∀ entry ∈ entries, entry.1.depth ≤ bound ∧ entry.2.depth ≤ bound := by
  induction entries with
  | nil => simp [entriesDepth]
  | cons entry rest ih => rw [entriesDepth, Nat.max_le, Nat.max_le, ih, List.forall_mem_cons]

theorem depth_lt_seq {items : List Node} {item : Node} (h : item ∈ items) :
    item.depth < (Node.seq items).depth := by
  have hitem := itemsDepth_le.mp (Nat.le_refl _) item h
  rw [depth]
  omega

theorem mem_ofTable {table : Table Node} {name : String} {value : Node} :
    (.string name, value) ∈ table.entries.map named ↔ table.find? name = some value := by
  simp [named, Table.find?_eq_some_iff]

theorem depth_lt_ofTable {table : Table Node} {name : String} {value : Node}
    (found : table.find? name = some value) : value.depth < (ofTable table).depth := by
  have hvalue : value.depth ≤ entriesDepth (table.entries.map named) :=
    (entriesDepth_le.mp (Nat.le_refl _) _ (mem_ofTable.mpr found)).2
  rw [ofTable, depth]
  omega

end Node

namespace Reading

variable {r : Reading} {m n : Nat}

theorem fits_of_le (fits : r.fits n = true) (h : m ≤ n) : r.fits m = true := by
  rw [← Nat.max_eq_right h, fits_max, Bool.and_eq_true] at fits
  exact fits.1

/-- What has a level for a container has the others for its parts. -/
theorem exists_deeper (fits : r.fits n = true) (h : 0 < n) :
    ∃ deeper, r.deeper? = some deeper ∧ ∀ m < n, deeper.fits m = true := by
  obtain ⟨levels, positional, surplus⟩ := r
  match levels with
  | none => exact ⟨_, rfl, fun _ _ => rfl⟩
  | some 0 =>
      have hzero : n ≤ 0 := of_decide_eq_true fits
      omega
  | some (levels + 1) =>
      have hlevels : n ≤ levels + 1 := of_decide_eq_true fits
      exact ⟨_, rfl, fun m hm => decide_eq_true (by omega : m ≤ levels)⟩

end Reading

/-! ## Decoders -/

namespace Decoder

variable {α : Type} {decode : Decoder α} {encode : α → Json}

/-- A decoder reads a document for which there are levels enough, and completes it. -/
def Takes (decode : Decoder α) (encode : α → Json) (node : Node) : Prop :=
  ∀ r : Reading, r.fits node.depth = true →
    ∃ a, decode r node = some a ∧ node.Completes (encode a).toNode

theorem text_takes (content : String) : text.Takes .string (.string content) :=
  fun _ _ => ⟨content, rfl, .same⟩

theorem bool_takes (flag : Bool) : bool.Takes .bool (.bool flag) :=
  fun _ _ => ⟨flag, rfl, .same⟩

theorem float_takes (x : Float) : float.Takes .float (.float x) :=
  fun _ _ => ⟨x, rfl, .same⟩

theorem float_takes_int (n : Int) : float.Takes .float (.int n) :=
  fun _ _ => ⟨floatOfInt n, rfl, .number⟩

theorem word_takes {meaning : String → Option α} {name : α → String} {spelling : String} {a : α}
    (h : meaning spelling = some a) (hname : name a = spelling) :
    (word meaning).Takes (fun a => .string (name a)) (.string spelling) :=
  fun _ _ => ⟨a, h, hname ▸ .same⟩

theorem int64_takes {n : Int} (least : Number.signed64.least ≤ n)
    (greatest : n ≤ Number.signed64.greatest) :
    int64.Takes (fun number => .int number.toInt) (.int n) := by
  have hnumber : (Int64.ofInt n).toInt = n :=
    Int64.toInt_ofInt_of_le least (Int.lt_of_le_of_lt greatest (by decide))
  refine fun _ _ => ⟨Int64.ofInt n, ?_, ?_⟩
  · simp only [int64, int?, least, greatest, and_self, if_true]
  · simp only [Json.toNode, hnumber]
    exact .same

theorem uint32_takes {n : Int} (least : 0 ≤ n) (greatest : n ≤ UInt32.size - 1) :
    uint32.Takes (fun number => .int number.toNat) (.int n) := by
  obtain ⟨n, rfl⟩ := Int.eq_ofNat_of_zero_le least
  have hbound : n ≤ UInt32.size - 1 := by
    simp only [UInt32.size] at greatest ⊢
    omega
  have hnumber : n.toUInt32.toNat = n := Nat.mod_eq_of_lt (Nat.lt_of_le_pred (by decide) hbound)
  refine fun _ _ => ⟨n.toUInt32, ?_, ?_⟩
  · show (if n ≤ UInt32.size - 1 then some n else none).map Nat.toUInt32 = some n.toUInt32
    rw [if_pos hbound]
    rfl
  · simp only [Json.toNode, hnumber]
    exact .same

theorem mapM_takes {items : List Node} (h : ∀ item ∈ items, decode.Takes encode item) (r : Reading)
    (fits : ∀ item ∈ items, r.fits item.depth = true) :
    ∃ as, items.mapM (decode r) = some as ∧
      List.Forall₂ Node.Completes items (Json.itemNodes (as.map encode)) := by
  induction items with
  | nil => exact ⟨[], rfl, .nil⟩
  | cons item rest ih =>
      obtain ⟨a, ha, hitem⟩ := h item List.mem_cons_self r (fits item List.mem_cons_self)
      obtain ⟨as, has, hrest⟩ := ih (fun item hitem => h item (List.mem_cons_of_mem _ hitem))
        fun item hitem => fits item (List.mem_cons_of_mem _ hitem)
      refine ⟨a :: as, ?_, .cons hitem hrest⟩
      simp only [List.mapM_cons, ha, has]
      rfl

theorem list_takes {items : List Node} (h : ∀ item ∈ items, decode.Takes encode item) :
    (list decode).Takes (fun as => .array (as.map encode)) (.seq items) := by
  intro r fits
  obtain ⟨deeper, hdeeper, hfits⟩ := Reading.exists_deeper fits (by rw [Node.depth]; omega)
  obtain ⟨as, has, hitems⟩ := mapM_takes h deeper fun item hitem =>
    hfits _ (Node.depth_lt_seq hitem)
  refine ⟨as, ?_, .seq hitems⟩
  simp only [list, Reading.items?, hdeeper, Option.map_some, has]

end Decoder

/-! ## Records -/

/-- What an encoder writes under a name is what the table says, or a default. -/
structure Supplies (table : Table Node) (name : String) (json? : Option Json) : Prop where
  said : ∀ value, table.find? name = some value → ∃ json, json? = some json ∧
    value.Completes json.toNode
  added : table.find? name = none → ∀ json ∈ json?, (name, json.toNode) ∈ Node.defaults

/-- Each field is supplied. -/
def AllSupply (table : Table Node) : List (String × Option Json) → Prop
  | [] => True
  | (name, json?) :: rest => Supplies table name json? ∧ AllSupply table rest

theorem AllSupply.supplies {table : Table Node} {fields : List (String × Option Json)}
    (h : AllSupply table fields) {field : String × Option Json} (mem : field ∈ fields) :
    Supplies table field.1 field.2 := by
  induction fields with
  | nil => cases mem
  | cons first rest ih =>
      rcases List.mem_cons.mp mem with rfl | mem
      · exact h.1
      · exact ih h.2 mem

/-- A record whose fields are supplied completes the table. -/
theorem AllSupply.completes {table : Table Node} {fields : List (String × Option Json)}
    (h : AllSupply table fields) (known : ∀ key ∈ table.keys, key ∈ fields.map Prod.fst) :
    (Node.ofTable table).Completes (Json.record fields).toNode := by
  -- A completion is about keys and values; first, which of them stand on either side.
  have hgiven : ∀ key value, (key, value) ∈ table.entries.map Node.named ↔
      ∃ name, key = .string name ∧ table.find? name = some value := by
    intro key value
    simp only [List.mem_map, Node.named, Prod.mk.injEq, Prod.exists, Table.find?_eq_some_iff]
    constructor
    · rintro ⟨name, value, hmem, rfl, rfl⟩
      exact ⟨name, rfl, hmem⟩
    · rintro ⟨name, rfl, hmem⟩
      exact ⟨name, value, hmem, rfl, rfl⟩
  have hwritten : ∀ key other, (key, other) ∈ Json.memberNodes (Json.present fields) ↔
      ∃ name json, key = .string name ∧ (name, some json) ∈ fields ∧ other = json.toNode := by
    intro key other
    simp only [Json.memberNodes_eq_map, List.mem_map, Prod.mk.injEq, Prod.exists, Json.mem_present]
    constructor
    · rintro ⟨name, json, hmem, rfl, rfl⟩
      exact ⟨name, json, rfl, hmem, rfl⟩
    · rintro ⟨name, json, rfl, hmem, rfl⟩
      exact ⟨name, json, hmem, rfl, rfl⟩
  refine .map ?_ ?_ ?_
  · intro key value hvalue
    obtain ⟨name, rfl, hfound⟩ := (hgiven _ _).mp hvalue
    obtain ⟨⟨_, json?⟩, hmem, rfl⟩ := List.mem_map.mp (known _ (Table.mem_keys_of_find? hfound))
    obtain ⟨json, rfl, -⟩ := (h.supplies hmem).said value hfound
    exact ⟨json.toNode, (hwritten _ _).mpr ⟨_, json, rfl, hmem, rfl⟩⟩
  · intro key value other hvalue hother
    obtain ⟨name, rfl, hfound⟩ := (hgiven _ _).mp hvalue
    obtain ⟨_, json, heq, hmem, rfl⟩ := (hwritten _ _).mp hother
    cases heq
    obtain ⟨_, heq, hcompletes⟩ := (h.supplies hmem).said value hfound
    cases heq
    exact hcompletes
  · intro key other hother
    obtain ⟨name, json, rfl, hmem, rfl⟩ := (hwritten _ _).mp hother
    cases hfound : table.find? name with
    | some value => exact .inl ⟨value, (hgiven _ _).mpr ⟨name, rfl, hfound⟩⟩
    | none => exact .inr ⟨name, rfl, (h.supplies hmem).added hfound json rfl⟩

namespace Record

variable {α : Type} {record : Record} {table : Table Node} {name : String} {decode : Decoder α}
  {encode : α → Json}

/-- A record has the fields of a table, with levels enough for all of them. -/
structure Shows (record : Record) (table : Table Node) : Prop where
  fields : ∀ key, record.fields.lookup key = table.find? key
  fits : ∀ key value, table.find? key = some value → record.reading.fits value.depth = true

theorem Shows.required (shows : record.Shows table) {value : Node}
    (found : table.find? name = some value) (h : decode.Takes encode value) :
    ∃ a, record.required name decode = some a ∧ Supplies table name (some (encode a)) := by
  obtain ⟨a, ha, hcompletes⟩ := h record.reading (shows.fits name value found)
  refine ⟨a, ?_, fun other hother => ?_, fun hnone => ?_⟩
  · simp only [Record.required, shows.fields, found, ha]
  · cases found.symm.trans hother
    exact ⟨_, rfl, hcompletes⟩
  · cases found.symm.trans hnone

theorem Shows.withDefault (shows : record.Shows table) {default : α}
    (usual : (name, (encode default).toNode) ∈ Node.defaults)
    (h : ∀ value, table.find? name = some value → decode.Takes encode value) :
    ∃ a, record.withDefault name default decode = some a ∧
      Supplies table name (some (encode a)) := by
  cases found : table.find? name with
  | some value =>
      obtain ⟨a, ha, hsupplies⟩ := shows.required found (h value found)
      refine ⟨a, ?_, hsupplies⟩
      simp only [Record.required, shows.fields, found] at ha
      simp only [Record.withDefault, shows.fields, found, ha]
  | none =>
      refine ⟨default, ?_, fun other hother => ?_, fun _ json hjson => ?_⟩
      · simp only [Record.withDefault, shows.fields, found]
      · cases found.symm.trans hother
      · cases hjson
        exact usual

/-- A part that is left out stays so. -/
theorem Shows.optional (shows : record.Shows table)
    (h : ∀ value, table.find? name = some value →
      value.isNull = false ∧ decode.Takes encode value) :
    ∃ a?, record.withDefault name none (.option decode) = some a? ∧
      Supplies table name (a?.map encode) := by
  cases found : table.find? name with
  | some value =>
      obtain ⟨there, htakes⟩ := h value found
      obtain ⟨a, ha, hsupplies⟩ := shows.required found htakes
      refine ⟨some a, ?_, hsupplies⟩
      simp only [Record.required, shows.fields, found] at ha
      simp only [Record.withDefault, shows.fields, found, Decoder.option, there, Bool.false_eq_true,
        if_false, ha, Option.map_some]
  | none =>
      refine ⟨none, ?_, fun other hother => ?_, fun absent json hjson => ?_⟩
      · simp only [Record.withDefault, shows.fields, found]
      · cases found.symm.trans hother
      · cases hjson

end Record

/-- A decoder that reads a record and goes on with its fields. -/
theorem Decoder.record_takes {α : Type} {names : List String} {table : Table Node}
    {body : Record → Option α} {encode : α → Json} (known : ∀ key ∈ table.keys, key ∈ names)
    (h : ∀ record : Record, record.Shows table →
      ∃ a fields, body record = some a ∧ AllSupply table fields ∧ fields.map Prod.fst = names ∧
        encode a = Json.record fields) :
    Takes (fun r node => Record.read? names r node >>= body) encode (.ofTable table) := by
  intro r fits
  obtain ⟨deeper, hdeeper, hfits⟩ := Reading.exists_deeper fits (by
    rw [Node.ofTable, Node.depth]
    omega)
  obtain ⟨given, hgiven, hread⟩ := Record.read?_ofTable known r
  obtain ⟨a, fields, ha, hsupply, rfl, hencode⟩ := h ⟨deeper, given⟩
    ⟨hgiven, fun _ _ found => hfits _ (Node.depth_lt_ofTable found)⟩
  refine ⟨a, ?_, hencode ▸ hsupply.completes known⟩
  simp only [hread, hdeeper, Option.map_some]
  exact ha

/-! ## Unions -/

namespace Table

variable {α : Type} {table : Table α} {key other : String} {value : α}

/-- The table without a key. -/
def without (table : Table α) (key : String) : Table α :=
  ⟨table.entries.filter (·.1 ≠ key), table.nodup.sublist (List.filter_sublist.map _)⟩

theorem find?_without (h : other ≠ key) : (table.without key).find? other = table.find? other := by
  refine Option.ext fun value => ?_
  rw [find?_eq_some_iff, find?_eq_some_iff, without]
  simp [h]

theorem find?_of_without (found : (table.without key).find? other = some value) :
    table.find? other = some value :=
  find?_eq_some_iff.mpr (List.mem_filter.mp (mem_of_find? found)).1

theorem keys_without : (table.without key).keys ⊆ table.keys.filter (· ≠ key) := by
  intro other hother
  obtain ⟨entry, hentry, rfl⟩ := List.mem_map.mp hother
  obtain ⟨hmem, hne⟩ := List.mem_filter.mp hentry
  exact List.mem_filter.mpr ⟨List.mem_map_of_mem hmem, hne⟩

/-- Only one entry has a given key. -/
theorem filter_key (found : table.find? key = some value) :
    table.entries.filter (·.1 = key) = [(key, value)] := by
  obtain ⟨before, after, hsplit⟩ := List.append_of_mem (mem_of_find? found)
  have hnodup := table.nodup
  rw [hsplit, List.map_append, List.map_cons, List.nodup_middle, List.nodup_cons] at hnodup
  have hothers : ∀ entry ∈ before ++ after, entry.1 ≠ key := by
    rintro entry hentry rfl
    exact hnodup.1 (List.map_append ▸ List.mem_map.mpr ⟨entry, hentry, rfl⟩)
  have hbefore : before.filter (·.1 = key) = [] :=
    List.filter_eq_nil_iff.mpr fun entry hentry => by
      simpa using hothers entry (List.mem_append_left _ hentry)
  have hafter : after.filter (·.1 = key) = [] :=
    List.filter_eq_nil_iff.mpr fun entry hentry => by
      simpa using hothers entry (List.mem_append_right _ hentry)
  rw [hsplit, List.filter_append, List.filter_cons_of_pos (by simp), hbefore, hafter]
  rfl

end Table

theorem Node.parts_without {table : Table Node} {key : String} {part : Node}
    (h : part ∈ (ofTable (table.without key)).parts) (scalar : part.depth = 0) :
    part ∈ (ofTable table).parts := by
  simp only [ofTable, parts, List.mem_cons, mem_entriesParts, List.mem_map] at h ⊢
  rcases h with rfl | ⟨entry, ⟨member, hmember, rfl⟩, hpart⟩
  · simp [depth] at scalar
  · exact .inr ⟨_, ⟨member, (List.mem_filter.mp hmember).1, rfl⟩, hpart⟩

theorem Node.depth_without_le (table : Table Node) (key : String) :
    (ofTable (table.without key)).depth ≤ (ofTable table).depth := by
  have hentries := entriesDepth_le.mp (Nat.le_refl (entriesDepth (table.entries.map named)))
  have hfewer : entriesDepth ((table.without key).entries.map named) ≤
      entriesDepth (table.entries.map named) :=
    entriesDepth_le.mpr fun entry hentry =>
      hentries entry ((List.filter_sublist.map named).subset hentry)
  rw [ofTable, ofTable, depth, depth]
  omega

/-- A marked object is its kind and an object with the rest. -/
theorem Reading.union?_ofTable {kinds : List String} {kind : String} {table : Table Node}
    {r : Reading} (known : kind ∈ kinds) (marked : table.find? "kind" = some (.string kind))
    (settled : (Node.ofTable table).Settled) (fits : r.fits (Node.ofTable table).depth = true) :
    r.union? kinds (.ofTable table) = some (kind, .ofTable (table.without "kind")) := by
  have htag : (table.entries.map Node.named).filter (isKind ·.1) =
      [(.string "kind", .string kind)] := by
    have hkind : table.entries.filter ((isKind ·.1) ∘ Node.named) = [("kind", .string kind)] :=
      Table.filter_key marked
    rw [List.filter_map, hkind]
    rfl
  have hrest : (table.entries.map Node.named).filter (!isKind ·.1) =
      (table.without "kind").entries.map Node.named := by
    rw [List.filter_map, Table.without]
    congr 2
    funext member
    simp [Node.named, isKind]
  have hsettle : r.settle? (.ofTable (table.without "kind")) =
      some (.ofTable (table.without "kind")) := by
    have hsettled : (Node.ofTable (table.without "kind")).Settled :=
      ⟨fun h => settled.readable (Node.parts_without h rfl),
        fun text h => settled.typed text (Node.parts_without h rfl)⟩
    have hfits := fits_of_le fits (Node.depth_without_le table "kind")
    obtain ⟨levels, positional, surplus⟩ := r
    cases levels with
    | none => rfl
    | some levels =>
        have hdepth : (Node.ofTable (table.without "kind")).depth ≤ levels :=
          of_decide_eq_true hfits
        simp only [settle?, if_pos hdepth, Node.settle_of_settled _ hsettled]
  rw [Node.ofTable] at hsettle
  simp only [Node.ofTable, union?]
  rw [htag, hrest]
  simp only [kindOf?, if_pos known, hsettle]
  rfl

/-- The kind is written in front of what the other members supply. -/
theorem AllSupply.marked {table : Table Node} {kind : String} {fields : List (String × Option Json)}
    (marked : table.find? "kind" = some (.string kind)) (others : "kind" ∉ fields.map Prod.fst)
    (h : AllSupply (table.without "kind") fields) :
    AllSupply table (("kind", some (.string kind)) :: fields) := by
  refine ⟨⟨fun value found => ?_, fun absent => ?_⟩, ?_⟩
  · cases marked.symm.trans found
    exact ⟨_, rfl, .same⟩
  · cases marked.symm.trans absent
  · clear marked
    induction fields with
    | nil => trivial
    | cons field rest ih =>
        obtain ⟨name, json?⟩ := field
        rw [List.map_cons, List.mem_cons, not_or] at others
        have hsame : (table.without "kind").find? name = table.find? name :=
          Table.find?_without (Ne.symm others.1)
        exact ⟨⟨hsame ▸ h.1.said, hsame ▸ h.1.added⟩, ih others.2 h.2⟩

/-- A decoder that reads a union, and its other fields as a record. -/
theorem Decoder.union_takes {α : Type} {kinds names : List String} {kind : String}
    {table : Table Node} {body : String × Node → Option α} {inner : Record → Option α}
    {encode : α → Json} (listed : kind ∈ kinds)
    (marked : table.find? "kind" = some (.string kind)) (settled : (Node.ofTable table).Settled)
    (known : ∀ key ∈ table.keys, key = "kind" ∨ key ∈ names) (others : "kind" ∉ names)
    (reads : ∀ node, body (kind, node) = Record.read? names .settled node >>= inner)
    (h : ∀ record : Record, record.Shows (table.without "kind") →
      ∃ a fields, inner record = some a ∧ AllSupply (table.without "kind") fields ∧
        fields.map Prod.fst = names ∧
        encode a = Json.record (("kind", some (.string kind)) :: fields)) :
    Takes (fun r node => r.union? kinds node >>= body) encode (.ofTable table) := by
  intro r fits
  have hrest : ∀ key ∈ (table.without "kind").keys, key ∈ names := by
    intro key hkey
    obtain ⟨hmem, hne⟩ := List.mem_filter.mp (Table.keys_without hkey)
    exact (known key hmem).resolve_left (of_decide_eq_true hne)
  obtain ⟨given, hgiven, hread⟩ := Record.read?_ofTable hrest .settled
  obtain ⟨a, fields, ha, hsupply, rfl, hencode⟩ := h ⟨.settled, given⟩ ⟨hgiven, fun _ _ _ => rfl⟩
  refine ⟨a, ?_, ?_⟩
  · simp only [Reading.union?_ofTable listed marked settled fits]
    refine (reads _).trans ?_
    rw [hread]
    exact ha
  · rw [hencode]
    refine (hsupply.marked marked others).completes fun key hkey => ?_
    exact List.mem_cons.mpr (known key hkey)

end SchemaIR
