import Mathlib
import SchemaIR.Document.Reading
import SchemaIR.Json.Basic
import SchemaIR.Proofs.Table

/-!
# Reading back what was encoded

A decoder reads an encoded value back if there are levels enough for it, and refuses it
otherwise. How many are enough is the depth of the document, whichever way the decoder
counts them: records and sequences count a level as they are opened, a union is measured as
a whole.

So for each decoder there is one equation, for every reading, and what follows composes
these equations along the decoders.
-/

namespace SchemaIR

/-! ## Documents of JSON values -/

namespace Json

mutual

theorem depth_toNode (json : Json) : json.toNode.depth = json.depth := by
  match json with
  | .null | .bool _ | .int _ | .float _ | .string _ => rfl
  | .array items => rw [toNode, Node.depth, depth, depth_itemNodes items]
  | .object members => rw [toNode, Node.depth, depth, depth_memberNodes members]

theorem depth_itemNodes (items : List Json) :
    Node.itemsDepth (itemNodes items) = itemsDepth items := by
  match items with
  | [] => rfl
  | item :: rest =>
      rw [itemNodes, Node.itemsDepth, itemsDepth, depth_toNode item, depth_itemNodes rest]

theorem depth_memberNodes (members : List (String × Json)) :
    Node.entriesDepth (memberNodes members) = membersDepth members := by
  match members with
  | [] => rfl
  | (key, value) :: rest =>
      rw [memberNodes, Node.entriesDepth, membersDepth, depth_toNode value,
        depth_memberNodes rest, Node.depth, Nat.zero_max]

end

mutual

/-- Every scalar of a JSON value has its value already. -/
theorem settle_toNode (json : Json) : json.toNode.settle = some json.toNode := by
  match json with
  | .null | .bool _ | .int _ | .float _ | .string _ => rfl
  | .array items => rw [toNode, Node.settle, settle_itemNodes items]; rfl
  | .object members => rw [toNode, Node.settle, settle_memberNodes members]; rfl

theorem settle_itemNodes (items : List Json) :
    Node.settleItems (itemNodes items) = some (itemNodes items) := by
  match items with
  | [] => rfl
  | item :: rest =>
      rw [itemNodes, Node.settleItems, settle_toNode item, settle_itemNodes rest]
      rfl

theorem settle_memberNodes (members : List (String × Json)) :
    Node.settleEntries (memberNodes members) = some (memberNodes members) := by
  match members with
  | [] => rfl
  | (key, value) :: rest =>
      rw [memberNodes, Node.settleEntries, settle_toNode value, settle_memberNodes rest]
      rfl

end

end Json

/-! ## Levels -/

namespace Reading

variable {α β : Type} {r : Reading} {m n : Nat}

/-- Whether the levels that are left are enough for a depth. -/
def fits (r : Reading) (depth : Nat) : Bool :=
  match r.levels with
  | none => true
  | some levels => depth ≤ levels

/-- A result that takes so many levels. -/
def given (r : Reading) (depth : Nat) (a : α) : Option α :=
  if r.fits depth then some a else none

theorem fits_zero (r : Reading) : r.fits 0 = true := by
  unfold fits
  cases r.levels with
  | none => rfl
  | some levels => exact decide_eq_true (Nat.zero_le levels)

theorem fits_max (r : Reading) (m n : Nat) : r.fits (max m n) = (r.fits m && r.fits n) := by
  unfold fits
  cases r.levels with
  | none => rfl
  | some levels => simp only [Nat.max_le, Bool.decide_and]

theorem given_zero (r : Reading) (a : α) : r.given 0 a = some a :=
  if_pos r.fits_zero

theorem pure_given (r : Reading) (a : α) : pure a = r.given 0 a := (r.given_zero a).symm

theorem map_given (f : α → β) (a : α) : (r.given m a).map f = r.given m (f a) := by
  unfold given
  cases r.fits m <;> rfl

/-- What is read one after the other takes the levels of the deepest. -/
theorem bind_given {a : α} {b : β} {f : α → Option β} {x : Option α} (hx : x = r.given m a)
    (hf : f a = r.given n b) : x >>= f = r.given (max m n) b := by
  subst hx
  unfold given at hf ⊢
  rw [fits_max]
  cases r.fits m with
  | false => rfl
  | true => exact hf

theorem deeper?_bind_given (r : Reading) (depth : Nat) (a : α) :
    (r.deeper?.bind fun r => r.given depth a) = r.given (1 + depth) a := by
  obtain ⟨levels, positional, surplus⟩ := r
  match levels with
  | none => rfl
  | some 0 =>
      have hfull : ¬ 1 + depth ≤ 0 := by omega
      simp only [deeper?, Option.bind_none, given, fits, hfull, decide_false]
      rfl
  | some (levels + 1) =>
      have hfits : decide (depth ≤ levels) = decide (1 + depth ≤ levels + 1) :=
        decide_eq_decide.mpr (by omega)
      exact congrArg (fun fits : Bool => if fits then some a else none) hfits

end Reading

/-! ## Decoders -/

namespace Decoder

variable {α : Type}

/-- A decoder reads a value back from a document for which there are levels enough. -/
def Reads (decode : Decoder α) (json : Json) (a : α) : Prop :=
  ∀ r : Reading, decode r json.toNode = r.given json.depth a

theorem text_reads (content : String) : text.Reads (.string content) content :=
  fun r => (r.given_zero content).symm

theorem bool_reads (flag : Bool) : bool.Reads (.bool flag) flag :=
  fun r => (r.given_zero flag).symm

theorem float_reads (number : Float) : float.Reads (.float number) number :=
  fun r => (r.given_zero number).symm

theorem word_reads {meaning : String → Option α} {spelling : String} {a : α}
    (h : meaning spelling = some a) : (word meaning).Reads (.string spelling) a :=
  fun r => h.trans (r.given_zero a).symm

theorem int64_reads (number : Int64) : int64.Reads (.int number.toInt) number := by
  intro r
  have hleast : Number.signed64.least ≤ number.toInt := number.le_toInt
  have hgreatest : number.toInt ≤ Number.signed64.greatest := by
    have hlt := number.toInt_lt
    simp only [Number.signed64]
    omega
  simp only [int64, int?, Json.toNode, hleast, hgreatest, and_self, if_true, Int64.ofInt_toInt]
  exact (r.given_zero number).symm

theorem uint32_reads (number : UInt32) : uint32.Reads (.int number.toNat) number := by
  intro r
  have hbound : number.toNat ≤ UInt32.size - 1 := Nat.le_pred_of_lt number.toNat_lt
  simp only [uint32, natUpTo, int?, Json.toNode, hbound, if_true, Option.map_some]
  rw [Nat.toUInt32_eq, UInt32.ofNat_toNat]
  exact (r.given_zero number).symm

theorem option_reads {decode : Decoder α} {json : Json} {a : α} (h : decode.Reads json a)
    (there : json.toNode.isNull = false) : (option decode).Reads json (some a) := by
  intro r
  simp only [option, there, Bool.false_eq_true, if_false, h r, Reading.map_given]

theorem mapM_reads {decode : Decoder α} {items : List Json} {as : List α}
    (h : List.Forall₂ decode.Reads items as) (r : Reading) :
    (Json.itemNodes items).mapM (decode r) = r.given (Json.itemsDepth items) as := by
  induction h with
  | nil => exact (r.given_zero []).symm
  | @cons item a rest as hfirst _ ih =>
      rw [Json.itemNodes, List.mapM_cons, Json.itemsDepth, ← Nat.max_zero (Json.itemsDepth rest)]
      exact Reading.bind_given (hfirst r) (Reading.bind_given ih (r.pure_given _))

theorem list_reads {decode : Decoder α} {items : List Json} {as : List α}
    (h : List.Forall₂ decode.Reads items as) : (list decode).Reads (.array items) as := by
  intro r
  rw [Json.depth, ← Reading.deeper?_bind_given]
  simp only [list, Json.toNode, Reading.items?]
  cases r.deeper? with
  | none => rfl
  | some r => exact mapM_reads h r

theorem list_reads_map {decode : Decoder α} {encode : α → Json} {as : List α}
    (h : ∀ a ∈ as, decode.Reads (encode a) a) :
    (list decode).Reads (.array (as.map encode)) as :=
  list_reads (List.forall₂_map_left_iff.mpr (List.forall₂_same.mpr h))

end Decoder

/-! ## Records -/

/-- The greatest depth among the fields that are there. -/
def Json.fieldsDepth : List (String × Option Json) → Nat
  | [] => 0
  | (_, value?) :: rest => max (value?.elim 0 depth) (fieldsDepth rest)

/-- The fields that are there. -/
def Json.present (fields : List (String × Option Json)) : List (String × Json) :=
  fields.filterMap fun (key, value?) => value?.map (key, ·)

namespace Json

variable {fields : List (String × Option Json)} {key : String} {value : Json}

theorem present_none : present ((key, none) :: fields) = present fields := rfl

theorem present_some : present ((key, some value) :: fields) = (key, value) :: present fields :=
  rfl

theorem depth_record (fields : List (String × Option Json)) :
    (record fields).depth = 1 + fieldsDepth fields := by
  have hmembers : membersDepth (present fields) = fieldsDepth fields := by
    induction fields with
    | nil => rfl
    | cons field rest ih =>
        obtain ⟨key, value?⟩ := field
        cases value? with
        | none => rw [fieldsDepth, ← ih, present_none, Option.elim, Nat.zero_max]
        | some value => rw [fieldsDepth, ← ih, present_some, membersDepth, Option.elim]
  exact congrArg (1 + ·) hmembers

theorem memberNodes_eq_map (members : List (String × Json)) :
    memberNodes members = members.map fun member => (Node.string member.1, member.2.toNode) := by
  induction members with
  | nil => rfl
  | cons member rest ih => rw [memberNodes, ih, List.map_cons]

theorem mem_present : (key, value) ∈ present fields ↔ (key, some value) ∈ fields := by
  simp [present, List.mem_filterMap]

theorem keys_present : ((present fields).map Prod.fst).Sublist (fields.map Prod.fst) := by
  induction fields with
  | nil => exact .slnil
  | cons field rest ih =>
      obtain ⟨key, value?⟩ := field
      cases value? with
      | none => exact ih.cons key
      | some value => exact ih.cons_cons key

end Json

/-- A member of an object, under its name. -/
def Node.named (member : String × Node) : Node × Node := (.string member.1, member.2)

/-- The object whose members are those of a table. -/
def Node.ofTable (table : Table Node) : Node := .map (table.entries.map named)

namespace Record

/-- Collecting keeps every member, as none is unknown and none is given twice. -/
theorem collect_members {names : List String} {members sofar : List (String × Node)}
    (known : ∀ member ∈ members, member.1 ∈ names) (distinct : (members.map Prod.fst).Nodup)
    (fresh : ∀ member ∈ members, sofar.lookup member.1 = none) :
    collect names sofar (members.map Node.named) = some (members.reverse ++ sofar) := by
  induction members generalizing sofar with
  | nil => rfl
  | cons member rest ih =>
      obtain ⟨key, value⟩ := member
      rw [List.map_cons, List.nodup_cons] at distinct
      have hkey : key ∈ names := known _ List.mem_cons_self
      have hfresh : sofar.lookup key = none := fresh _ List.mem_cons_self
      have hunseen : ∀ member ∈ rest, ((key, value) :: sofar).lookup member.1 = none := by
        intro member hmember
        have hkeys : member.1 ∈ rest.map Prod.fst := List.mem_map_of_mem hmember
        have hne : member.1 ≠ key := fun heq => distinct.1 (heq ▸ hkeys)
        rw [Table.lookup_cons_ite, if_neg hne]
        exact fresh member (List.mem_cons_of_mem _ hmember)
      have hrest := ih (fun member hmember => known member (List.mem_cons_of_mem _ hmember))
        distinct.2 hunseen
      simp only [List.map_cons, Node.named, collect, fieldOf?, if_pos hkey, hfresh,
        Option.isSome_none, Bool.false_eq_true, if_false, hrest, List.reverse_cons,
        List.append_assoc, List.singleton_append]

theorem read?_map (names : List String) (r : Reading) (entries : List (Node × Node)) :
    read? names r (.map entries) =
      r.deeper?.bind fun r => (collect names [] entries).map (⟨r, ·⟩) := by
  simp only [read?, Reading.entries?]
  cases r.deeper? <;> rfl

/-- An object without unknown members is read as its table, if there is a level for it. -/
theorem read?_ofTable {names : List String} {table : Table Node}
    (known : ∀ key ∈ table.keys, key ∈ names) (r : Reading) :
    ∃ given : List (String × Node), (∀ key, given.lookup key = table.find? key) ∧
      read? names r (.ofTable table) = r.deeper?.map (⟨·, given⟩) := by
  have hreversed : (table.entries.reverse.map Prod.fst).Nodup := by
    rw [List.map_reverse, List.nodup_reverse]
    exact table.nodup
  let given : Table Node := ⟨table.entries.reverse, hreversed⟩
  refine ⟨table.entries.reverse, fun key => Option.ext fun value => ?_, ?_⟩
  · have hgiven : given.find? key = some value ↔ (key, value) ∈ table.entries :=
      Table.find?_eq_some_iff.trans List.mem_reverse
    exact hgiven.trans Table.find?_eq_some_iff.symm
  · have hknown : ∀ member ∈ table.entries, member.1 ∈ names :=
      fun member hmember => known member.1 (List.mem_map_of_mem hmember)
    have hcollected : collect names [] (table.entries.map Node.named) =
        some (table.entries.reverse ++ []) := collect_members hknown table.nodup fun _ _ => rfl
    rw [List.append_nil] at hcollected
    rw [Node.ofTable, read?_map, hcollected]
    cases r.deeper? <;> rfl

/-- The fields of a record are those of an encoded one. -/
def Holds (record : Record) (fields : List (String × Option Json)) : Prop :=
  ∀ key value?, (key, value?) ∈ fields → record.fields.lookup key = value?.map Json.toNode

variable {record : Record} {fields : List (String × Option Json)} {key : String} {α : Type}

theorem Holds.required (holds : record.Holds fields) {json : Json} {decode : Decoder α} {a : α}
    (hfield : (key, some json) ∈ fields) (h : decode.Reads json a) :
    record.required key decode = record.reading.given json.depth a := by
  simp only [Record.required, holds key _ hfield, Option.map_some]
  exact h record.reading

theorem Holds.withDefault (holds : record.Holds fields) {json : Json} {decode : Decoder α}
    {a default : α} (hfield : (key, some json) ∈ fields) (h : decode.Reads json a) :
    record.withDefault key default decode = record.reading.given json.depth a := by
  simp only [Record.withDefault, holds key _ hfield, Option.map_some]
  exact h record.reading

/-- A part that is not there is left out by the encoder. -/
theorem Holds.optional (holds : record.Holds fields) {encode : α → Json} {decode : Decoder α}
    {part : Option α} (hfield : (key, part.map encode) ∈ fields)
    (h : ∀ a ∈ part, decode.Reads (encode a) a)
    (there : ∀ a, (encode a).toNode.isNull = false) :
    record.withDefault key none (.option decode) =
      record.reading.given ((part.map encode).elim 0 Json.depth) part := by
  simp only [Record.withDefault, holds key _ hfield]
  cases part with
  | none => exact (record.reading.given_zero none).symm
  | some a => exact Decoder.option_reads (h a rfl) (there a) record.reading

/-- An encoded record is read as its fields, if there is a level for it. -/
theorem read?_record (distinct : (fields.map Prod.fst).Nodup) (r : Reading) :
    ∃ given : List (String × Node), (∀ r, Holds ⟨r, given⟩ fields) ∧
      read? (fields.map Prod.fst) r (Json.record fields).toNode = r.deeper?.map (⟨·, given⟩) := by
  let members := (Json.present fields).map fun member => (member.1, member.2.toNode)
  have hkeys : members.map Prod.fst = (Json.present fields).map Prod.fst := by
    rw [List.map_map]
    rfl
  let table : Table Node := ⟨members, hkeys ▸ distinct.sublist Json.keys_present⟩
  have hnode : (Json.record fields).toNode = .ofTable table := by
    show Node.map (Json.memberNodes (Json.present fields)) = .ofTable table
    rw [Json.memberNodes_eq_map, Node.ofTable, List.map_map]
    rfl
  have hknown : ∀ key ∈ table.keys, key ∈ fields.map Prod.fst := fun key hkey =>
    Json.keys_present.subset (hkeys ▸ hkey)
  obtain ⟨given, hgiven, hread⟩ := read?_ofTable hknown r
  refine ⟨given, fun r key value? hfield => (hgiven key).trans ?_, hnode ▸ hread⟩
  cases value? with
  | some value =>
      refine Table.find?_eq_some_iff.mpr (List.mem_map.mpr ⟨(key, value), ?_, rfl⟩)
      exact Json.mem_present.mpr hfield
  | none =>
      refine Option.eq_none_iff_forall_ne_some.mpr fun node hnode => ?_
      obtain ⟨⟨_, value⟩, hmem, heq⟩ := List.mem_map.mp (Table.mem_of_find? hnode)
      obtain ⟨rfl, rfl⟩ := Prod.mk.inj heq
      -- The field would be there and absent, under one name.
      cases List.inj_on_of_nodup_map distinct hfield (Json.mem_present.mp hmem) rfl

end Record

namespace Decoder

variable {α : Type}

/-- A decoder that reads a record and goes on with its fields. What has to be shown of it is
shown of any record that holds the fields. -/
theorem record_reads (fields : List (String × Option Json)) {body : Record → Option α} {a : α}
    (distinct : (fields.map Prod.fst).Nodup)
    (h : ∀ record : Record, record.Holds fields →
      body record = record.reading.given (Json.fieldsDepth fields) a) :
    Reads (fun r node => Record.read? (fields.map Prod.fst) r node >>= body)
      (.record fields) a := by
  intro r
  obtain ⟨nodes, holds, hread⟩ := Record.read?_record distinct r
  rw [Json.depth_record, ← Reading.deeper?_bind_given]
  simp only [hread]
  cases r.deeper? with
  | none => rfl
  | some r => exact h ⟨r, nodes⟩ (holds r)

end Decoder

/-! ## Unions -/

namespace Reading

theorem settle?_toNode (r : Reading) (json : Json) :
    r.settle? json.toNode = r.given json.depth json.toNode := by
  obtain ⟨levels, positional, surplus⟩ := r
  cases levels with
  | none => rfl
  | some levels =>
      simp only [settle?, given, fits, json.depth_toNode, json.settle_toNode, decide_eq_true_eq]

theorem isKind_memberNodes {members : List (String × Json)}
    (others : ∀ member ∈ members, member.1 ≠ "kind") :
    ∀ entry ∈ Json.memberNodes members, isKind entry.1 = false := by
  induction members with
  | nil => exact fun _ hentry => nomatch hentry
  | cons member rest ih =>
      obtain ⟨key, value⟩ := member
      intro entry hentry
      rcases List.mem_cons.mp hentry with rfl | hentry
      · exact decide_eq_false (others _ List.mem_cons_self)
      · exact ih (fun member hmember => others member (List.mem_cons_of_mem _ hmember)) entry hentry

/-- An encoded union is its kind and an object with the rest, which is just as deep. -/
theorem union?_toNode {kinds : List String} {kind : String} {members : List (String × Json)}
    (known : kind ∈ kinds) (others : ∀ member ∈ members, member.1 ≠ "kind") (r : Reading) :
    r.union? kinds (Json.object (("kind", .string kind) :: members)).toNode =
      r.given (Json.object (("kind", .string kind) :: members)).depth
        (kind, (Json.object members).toNode) := by
  have hothers := isKind_memberNodes others
  have htag : (Json.memberNodes (("kind", .string kind) :: members)).filter (isKind ·.1) =
      [(.string "kind", .string kind)] := by
    rw [Json.memberNodes, List.filter_cons_of_pos rfl, List.filter_eq_nil_iff.mpr]
    · rfl
    · exact fun entry hentry => Bool.not_eq_true _ ▸ hothers entry hentry
  have hrest : (Json.memberNodes (("kind", .string kind) :: members)).filter (!isKind ·.1) =
      Json.memberNodes members := by
    rw [Json.memberNodes, List.filter_cons_of_neg (by simp [isKind]), List.filter_eq_self]
    exact fun entry hentry => by rw [hothers entry hentry]; rfl
  have hdepth : (Json.object (("kind", .string kind) :: members)).depth =
      (Json.object members).depth := by
    simp only [Json.depth, Json.membersDepth, Nat.zero_max]
  have hsettle := r.settle?_toNode (.object members)
  rw [Json.toNode] at hsettle
  rw [hdepth, Json.toNode]
  simp only [union?, htag, kindOf?, if_pos known, hrest, hsettle]
  unfold given
  cases r.fits (Json.object members).depth <;> rfl

end Reading

/-- A decoder that reads a union and goes on with its kind. The levels are counted by then,
so nothing can fail for lack of them. -/
theorem Decoder.union_reads {α : Type} {kinds : List String} {kind : String}
    {members : List (String × Json)} {body : String × Node → Option α} {a : α}
    (known : kind ∈ kinds) (others : ∀ member ∈ members, member.1 ≠ "kind")
    (h : body (kind, (Json.object members).toNode) = some a) :
    Reads (fun r node => r.union? kinds node >>= body)
      (.object (("kind", .string kind) :: members)) a := by
  intro r
  have hrest : body (kind, (Json.object members).toNode) = r.given 0 a :=
    h.trans (r.given_zero a).symm
  have hbind := Reading.bind_given (r.union?_toNode known others) hrest
  rwa [Nat.max_zero] at hbind

/-- A union with one field besides its kind. -/
theorem Decoder.field_reads {α β : Type} {key : String} {json : Json} {decode : Decoder α} {a : α}
    (h : decode.Reads json a) (f : α → β) :
    (Record.read? [key] .settled (Json.object [(key, json)]).toNode >>= fun record =>
      record.required key decode >>= fun a => pure (f a)) = some (f a) := by
  refine record_reads [(key, some json)] (List.nodup_singleton key)
    (fun record holds => ?_) .settled
  exact Reading.bind_given (holds.required List.mem_cons_self h) (Reading.pure_given _ _)

end SchemaIR
