import Mathlib
import SchemaIR.Program.Builder
import SchemaIR.Program.Encoding
import SchemaIR.Program.Loading
import SchemaIR.Proofs.RoundTrip

/-!
# Programs come back from their texts

A program is written with all its fields, the absent ones as null, and a declaration that is
merged into a union stands beside the mark of its kind. Its tables are written in their own
order, under keys that need not be the names of the declarations. None of this is in the way of
reading it: every decoder reads what the encoder of the same type wrote, and a table is filled
in the order in which it was written.

The only numbers in a program are array dimensions. Those of its literals are texts, which is
why nothing has to be assumed of floats here.
-/

namespace SchemaIR

open Decoder
open Reading (bind_given pure_given)

theorem Reading.given_json {α : Type} (depth : Nat) (a : α) :
    Reading.json.given depth a = if depth ≤ 127 then some a else none := by
  simp only [given, fits, json, decide_eq_true_eq]

/-! ## Absent parts and merged records -/

namespace Decoder

variable {α β : Type}

theorem null_reads (decode : Decoder α) : (option decode).Reads .null none :=
  fun r => (r.given_zero none).symm

theorem text?_reads (text? : Option String) : (option text).Reads (.ofText? text?) text? := by
  cases text? with
  | none => exact null_reads text
  | some content => exact option_reads (text_reads content) rfl

/-- A union that has the members of a record beside its kind. -/
theorem merged_reads {decode : Decoder α} {json : Json} {a : α} (h : decode.Reads json a)
    (f : α → β) : (decode .settled json.toNode >>= fun a => pure (f a)) = some (f a) := by
  have hread : decode .settled json.toNode = some a := h .settled
  rw [hread]
  rfl

/-! ## Tables -/

/-- Reads an entry of a mapping. -/
def entry (decode : Decoder α) (r : Reading) (given : Node × Node) : Option (String × α) :=
  given.1.text? >>= fun key => decode r given.2 >>= fun value => pure (key, value)

theorem entries_read {decode : Decoder α} {encode : α → Json} {entries : List (String × α)}
    (h : ∀ entry ∈ entries, decode.Reads (encode entry.2) entry.2) (r : Reading) :
    (Json.memberNodes (entries.map fun entry => (entry.1, encode entry.2))).mapM (entry decode r) =
      r.given (Json.membersDepth (entries.map fun entry => (entry.1, encode entry.2))) entries := by
  induction entries with
  | nil => exact (r.given_zero []).symm
  | cons entry rest ih =>
      obtain ⟨key, value⟩ := entry
      have hrest := ih fun entry hentry => h entry (List.mem_cons_of_mem _ hentry)
      have hvalue : (decode r (encode value).toNode >>= fun value => pure (key, value)) =
          r.given (max (encode value).depth 0) (key, value) :=
        bind_given (h (key, value) List.mem_cons_self r) (pure_given r _)
      rw [Nat.max_zero] at hvalue
      rw [List.map_cons, Json.memberNodes, List.mapM_cons, Json.membersDepth,
        ← Nat.max_zero (Json.membersDepth _)]
      exact bind_given hvalue (bind_given hrest (pure_given r _))

theorem dictionary_reads {decode : Decoder α} {encode : α → Json} {entries : List (String × α)}
    (h : ∀ entry ∈ entries, decode.Reads (encode entry.2) entry.2) :
    (dictionary decode).Reads (.object (entries.map fun entry => (entry.1, encode entry.2)))
      entries := by
  intro r
  rw [Json.depth, ← Reading.deeper?_bind_given]
  simp only [dictionary, Json.toNode, Reading.entries?]
  cases r.deeper? with
  | none => rfl
  | some r => exact entries_read h r

end Decoder

namespace Table

variable {α : Type}

theorem insertEntry_fresh {key : String} {entries : List (String × α)}
    (fresh : key ∉ entries.map Prod.fst) (value : α) :
    insertEntry key value entries = entries ++ [(key, value)] := by
  induction entries with
  | nil => rfl
  | cons entry rest ih =>
      rw [List.map_cons, List.mem_cons, not_or] at fresh
      rw [insertEntry, if_neg (Ne.symm fresh.1), ih fresh.2, List.cons_append]

theorem entries_foldl_insert (table : Table α) (more : List (String × α))
    (distinct : ((table.entries ++ more).map Prod.fst).Nodup) :
    (more.foldl (fun table entry => table.insert entry.1 entry.2) table).entries =
      table.entries ++ more := by
  induction more generalizing table with
  | nil => exact (List.append_nil _).symm
  | cons entry rest ih =>
      have hfresh : entry.1 ∉ table.entries.map Prod.fst := by
        rw [List.map_append, List.map_cons] at distinct
        intro hkey
        exact (List.nodup_append.mp distinct).2.2 _ hkey _ List.mem_cons_self rfl
      have hinserted : (table.insert entry.1 entry.2).entries = table.entries ++ [entry] :=
        insertEntry_fresh hfresh entry.2
      rw [List.foldl_cons, ih, hinserted, List.append_assoc]
      · rfl
      · rwa [hinserted, List.append_assoc]

/-- A table is filled again from its entries. -/
theorem ofList_entries (table : Table α) : ofList table.entries = table := by
  obtain ⟨entries, nodup⟩ := table
  have hentries : (ofList entries).entries = entries := entries_foldl_insert empty entries nodup
  generalize ofList entries = filled at hentries ⊢
  cases filled
  cases hentries
  rfl

theorem decode_reads {decode : Decoder α} {encode : α → Json}
    (h : ∀ a, decode.Reads (encode a) a) (table : Table α) :
    (Table.decode decode).Reads (table.toJson encode) table := by
  intro r
  have hentries : (dictionary decode).Reads (table.toJson encode) table.entries :=
    dictionary_reads fun entry _ => h entry.2
  rw [Table.decode, hentries r, Reading.map_given, ofList_entries]

end Table

/-! ## Literals -/

theorem Reference.decode_reads (reference : Reference) :
    Reference.decode.Reads reference.toJson reference := by
  refine record_reads [("name", some (.string reference.name)),
    ("member", some (.ofText? reference.member))] (by simp) fun record holds => ?_
  exact bind_given (holds.required (by simp) (text_reads reference.name))
    (bind_given (holds.withDefault (by simp) (text?_reads reference.member)) (pure_given _ _))

theorem references_read (references : List Reference) :
    (list Reference.decode).Reads (.array (references.map Reference.toJson)) references :=
  list_reads_map fun reference _ => reference.decode_reads

theorem Reference.members_apart (reference : Reference) :
    ∀ member ∈ reference.members, member.1 ≠ "kind" := by
  simp [Reference.members]

mutual

theorem Literal.decode_reads (literal : Literal) {fuel : Nat}
    (enough : literal.toJson.depth ≤ fuel) :
    (Literal.decode fuel).Reads literal.toJson literal := by
  match literal, fuel with
  | literal, 0 => cases literal <;> simp only [Literal.toJson, Json.depth] at enough <;> omega
  | .string text, fuel + 1 =>
      exact union_reads (by decide) (by simp) (field_reads (text_reads text) Literal.string)
  | .int raw, fuel + 1 =>
      exact union_reads (by decide) (by simp) (field_reads (text_reads raw) Literal.int)
  | .float raw, fuel + 1 =>
      exact union_reads (by decide) (by simp) (field_reads (text_reads raw) Literal.float)
  | .bool flag, fuel + 1 =>
      exact union_reads (by decide) (by simp) (field_reads (bool_reads flag) Literal.bool)
  | .reference target, fuel + 1 =>
      exact union_reads (by decide) target.members_apart
        (merged_reads target.decode_reads Literal.reference)
  | .object entries, fuel + 1 =>
      have hentries :
          List.Forall₂ (LiteralEntry.decode fuel).Reads (entriesJson entries) entries := by
        refine LiteralEntry.decodeEntries_read entries ?_
        simp only [Literal.toJson, Json.depth, Json.membersDepth] at enough
        omega
      exact union_reads (by decide) (by simp) (field_reads (list_reads hentries) Literal.object)
  | .array elements, fuel + 1 =>
      have helements :
          List.Forall₂ (Literal.decode fuel).Reads (elementsJson elements) elements := by
        refine Literal.decodeElements_read elements ?_
        simp only [Literal.toJson, Json.depth, Json.membersDepth] at enough
        omega
      exact union_reads (by decide) (by simp) (field_reads (list_reads helements) Literal.array)

theorem LiteralEntry.decode_reads (entry : LiteralEntry) {fuel : Nat}
    (enough : entry.toJson.depth ≤ fuel) :
    (LiteralEntry.decode fuel).Reads entry.toJson entry := by
  match entry, fuel with
  | entry, 0 => cases entry <;> simp only [LiteralEntry.toJson, Json.depth] at enough <;> omega
  | .spread source, fuel + 1 =>
      exact union_reads (by decide) source.members_apart
        (merged_reads source.decode_reads LiteralEntry.spread)
  | .field key value, fuel + 1 =>
      simp only [LiteralEntry.toJson, Json.depth, Json.membersDepth] at enough
      have hvalue : (Literal.decode fuel).Reads value.toJson value :=
        Literal.decode_reads value (by omega)
      refine union_reads (by decide) (by simp) ?_
      refine record_reads [("key", some (.string key)), ("value", some value.toJson)] (by simp)
        (fun record holds => ?_) .settled
      exact bind_given (holds.required (by simp) (text_reads key))
        (bind_given (holds.required (by simp) hvalue) (pure_given _ _))

theorem LiteralEntry.decodeEntries_read (entries : List LiteralEntry) {fuel : Nat}
    (enough : Json.itemsDepth (entriesJson entries) ≤ fuel) :
    List.Forall₂ (LiteralEntry.decode fuel).Reads (entriesJson entries) entries := by
  match entries with
  | [] => exact .nil
  | entry :: rest =>
      simp only [entriesJson, Json.itemsDepth] at enough
      exact .cons (LiteralEntry.decode_reads entry (by omega))
        (LiteralEntry.decodeEntries_read rest (by omega))

theorem Literal.decodeElements_read (elements : List Literal) {fuel : Nat}
    (enough : Json.itemsDepth (elementsJson elements) ≤ fuel) :
    List.Forall₂ (Literal.decode fuel).Reads (elementsJson elements) elements := by
  match elements with
  | [] => exact .nil
  | element :: rest =>
      simp only [elementsJson, Json.itemsDepth] at enough
      exact .cons (Literal.decode_reads element (by omega))
        (Literal.decodeElements_read rest (by omega))

end

theorem Literal.decodeAny_reads (literal : Literal) :
    Literal.decodeAny.Reads literal.toJson literal := by
  intro r
  have hfuel : literal.toJson.depth ≤ literal.toJson.toNode.depth := (Json.depth_toNode _).ge
  exact Literal.decode_reads literal hfuel r

theorem Literal.toJson_isNull (literal : Literal) : literal.toJson.toNode.isNull = false := by
  cases literal <;> rfl

theorem Literal.option_reads (literal? : Option Literal) :
    (option Literal.decodeAny).Reads (Literal.optionJson literal?) literal? := by
  cases literal? with
  | none => exact null_reads Literal.decodeAny
  | some literal => exact Decoder.option_reads literal.decodeAny_reads literal.toJson_isNull

theorem AnnotationDecl.decode_reads (decl : AnnotationDecl) :
    AnnotationDecl.decode.Reads decl.toJson decl := by
  refine record_reads [("name", some (.string decl.name)),
    ("argument", some (Literal.optionJson decl.argument))] (by simp) fun record holds => ?_
  exact bind_given (holds.required (by simp) (text_reads decl.name))
    (bind_given (holds.withDefault (by simp) (Literal.option_reads decl.argument)) (pure_given _ _))

theorem annotationDecls_read (decls : List AnnotationDecl) :
    (list AnnotationDecl.decode).Reads (.array (decls.map AnnotationDecl.toJson)) decls :=
  list_reads_map fun decl _ => decl.decode_reads

/-! ## Types -/

mutual

theorem BaseType.decode_reads (base : BaseType) {fuel : Nat} (enough : base.toJson.depth ≤ fuel) :
    (BaseType.decode fuel).Reads base.toJson base := by
  match base, fuel with
  | base, 0 => cases base <;> simp only [BaseType.toJson, Json.depth] at enough <;> omega
  | .primitive name, fuel + 1 =>
      exact union_reads (by decide) (by simp) (field_reads (text_reads name) BaseType.primitive)
  | .custom name, fuel + 1 =>
      exact union_reads (by decide) (by simp) (field_reads (text_reads name) BaseType.custom)
  | .map value, fuel + 1 =>
      simp only [BaseType.toJson, Json.depth, Json.membersDepth] at enough
      have hvalue : (FieldType.decode fuel).Reads value.toJson value :=
        FieldType.decode_reads value (by omega)
      exact union_reads (by decide) (by simp) (field_reads hvalue BaseType.map)
  | .object ⟨fields, spreads⟩, fuel + 1 =>
      simp only [BaseType.toJson, InlineObject.members, Json.depth, Json.membersDepth] at enough
      have hfields : (list (FieldDecl.decode fuel)).Reads (.array (fieldsJson fields)) fields :=
        list_reads (FieldDecl.decodeFields_read fields (by omega))
      refine union_reads (by decide) (by simp [InlineObject.members]) ?_
      refine record_reads [("fields", some (.array (fieldsJson fields))),
        ("spreads", some (.array (spreads.map Reference.toJson)))] (by simp)
        (fun record holds => ?_) .settled
      exact bind_given (holds.withDefault (by simp) hfields)
        (bind_given (holds.withDefault (by simp) (references_read spreads)) (pure_given _ _))

theorem FieldType.decode_reads (type : FieldType) {fuel : Nat}
    (enough : type.toJson.depth ≤ fuel) : (FieldType.decode fuel).Reads type.toJson type := by
  match type, fuel with
  | ⟨_, _⟩, 0 =>
      simp only [FieldType.toJson, Json.depth] at enough
      omega
  | ⟨base, dims⟩, fuel + 1 =>
      simp only [FieldType.toJson, Json.depth, Json.membersDepth] at enough
      have hbase : (BaseType.decode fuel).Reads base.toJson base :=
        BaseType.decode_reads base (by omega)
      refine record_reads [("base", some base.toJson), ("arrayDims", some (.int dims.toNat))]
        (by simp) fun record holds => ?_
      exact bind_given (holds.required (by simp) hbase)
        (bind_given (holds.withDefault (by simp) (uint32_reads dims)) (pure_given _ _))

theorem FieldDecl.decode_reads (field : FieldDecl) {fuel : Nat}
    (enough : field.toJson.depth ≤ fuel) : (FieldDecl.decode fuel).Reads field.toJson field := by
  match field, fuel with
  | ⟨_, _, _, _, _⟩, 0 =>
      simp only [FieldDecl.toJson, Json.depth] at enough
      omega
  | ⟨name, docstring, annotations, optional, type⟩, fuel + 1 =>
      simp only [FieldDecl.toJson, Json.depth, Json.membersDepth] at enough
      have htype : (FieldType.decode fuel).Reads type.toJson type :=
        FieldType.decode_reads type (by omega)
      refine record_reads [("name", some (.string name)), ("docstring", some (.ofText? docstring)),
        ("annotations", some (.array (annotations.map AnnotationDecl.toJson))),
        ("optional", some (.bool optional)), ("type", some type.toJson)] (by simp)
        fun record holds => ?_
      exact bind_given (holds.required (by simp) (text_reads name))
        (bind_given (holds.withDefault (by simp) (text?_reads docstring))
          (bind_given (holds.withDefault (by simp) (annotationDecls_read annotations))
            (bind_given (holds.withDefault (by simp) (bool_reads optional))
              (bind_given (holds.required (by simp) htype) (pure_given _ _)))))

theorem FieldDecl.decodeFields_read (fields : List FieldDecl) {fuel : Nat}
    (enough : Json.itemsDepth (fieldsJson fields) ≤ fuel) :
    List.Forall₂ (FieldDecl.decode fuel).Reads (fieldsJson fields) fields := by
  match fields with
  | [] => exact .nil
  | field :: rest =>
      simp only [fieldsJson, Json.itemsDepth] at enough
      exact .cons (FieldDecl.decode_reads field (by omega))
        (FieldDecl.decodeFields_read rest (by omega))

end

theorem FieldDecl.decodeAny_reads (field : FieldDecl) :
    FieldDecl.decodeAny.Reads field.toJson field := by
  intro r
  have hfuel : field.toJson.depth ≤ field.toJson.toNode.depth := (Json.depth_toNode _).ge
  exact FieldDecl.decode_reads field hfuel r

theorem fieldsJson_eq_map (fields : List FieldDecl) :
    fieldsJson fields = fields.map FieldDecl.toJson := by
  induction fields with
  | nil => rfl
  | cons field rest ih => rw [fieldsJson, ih, List.map_cons]

/-! ## Declarations -/

theorem TypeDecl.decode_reads (decl : TypeDecl) : TypeDecl.decode.Reads decl.toJson decl := by
  have hfields :
      (list FieldDecl.decodeAny).Reads (.array (fieldsJson decl.fields)) decl.fields := by
    rw [fieldsJson_eq_map]
    exact list_reads_map fun field _ => field.decodeAny_reads
  refine record_reads [("name", some (.string decl.name)),
    ("docstring", some (.ofText? decl.docstring)),
    ("annotations", some (.array (decl.annotations.map AnnotationDecl.toJson))),
    ("fields", some (.array (fieldsJson decl.fields))),
    ("spreads", some (.array (decl.spreads.map Reference.toJson)))] (by simp)
    fun record holds => ?_
  exact bind_given (holds.required (by simp) (text_reads decl.name))
    (bind_given (holds.withDefault (by simp) (text?_reads decl.docstring))
      (bind_given (holds.withDefault (by simp) (annotationDecls_read decl.annotations))
        (bind_given (holds.withDefault (by simp) hfields)
          (bind_given (holds.withDefault (by simp) (references_read decl.spreads))
            (pure_given _ _)))))

theorem MemberDecl.decode_reads (decl : MemberDecl) :
    MemberDecl.decode.Reads decl.toJson decl := by
  refine record_reads [("name", some (.string decl.name)), ("value", some (.string decl.value)),
    ("docstring", some (.ofText? decl.docstring)),
    ("annotations", some (.array (decl.annotations.map AnnotationDecl.toJson)))] (by simp)
    fun record holds => ?_
  exact bind_given (holds.required (by simp) (text_reads decl.name))
    (bind_given (holds.required (by simp) (text_reads decl.value))
      (bind_given (holds.withDefault (by simp) (text?_reads decl.docstring))
        (bind_given (holds.withDefault (by simp) (annotationDecls_read decl.annotations))
          (pure_given _ _))))

theorem EnumDecl.decode_reads (decl : EnumDecl) : EnumDecl.decode.Reads decl.toJson decl := by
  have hmembers : (list MemberDecl.decode).Reads (.array (decl.members.map MemberDecl.toJson))
      decl.members := list_reads_map fun member _ => member.decode_reads
  have hword := word_reads (ValueType.ofName?_name decl.valueType)
  refine record_reads [("name", some (.string decl.name)),
    ("docstring", some (.ofText? decl.docstring)),
    ("annotations", some (.array (decl.annotations.map AnnotationDecl.toJson))),
    ("valueType", some (.string decl.valueType.name)),
    ("members", some (.array (decl.members.map MemberDecl.toJson))),
    ("spreads", some (.array (decl.spreads.map Reference.toJson)))] (by simp)
    fun record holds => ?_
  exact bind_given (holds.required (by simp) (text_reads decl.name))
    (bind_given (holds.withDefault (by simp) (text?_reads decl.docstring))
      (bind_given (holds.withDefault (by simp) (annotationDecls_read decl.annotations))
        (bind_given (holds.withDefault (by simp) hword)
          (bind_given (holds.withDefault (by simp) hmembers)
            (bind_given (holds.withDefault (by simp) (references_read decl.spreads))
              (pure_given _ _))))))

theorem ConstDecl.decode_reads (decl : ConstDecl) : ConstDecl.decode.Reads decl.toJson decl := by
  refine record_reads [("name", some (.string decl.name)),
    ("docstring", some (.ofText? decl.docstring)),
    ("annotations", some (.array (decl.annotations.map AnnotationDecl.toJson))),
    ("explicitType", some (.ofText? decl.explicitType)),
    ("value", some (Literal.optionJson decl.value))] (by simp) fun record holds => ?_
  exact bind_given (holds.required (by simp) (text_reads decl.name))
    (bind_given (holds.withDefault (by simp) (text?_reads decl.docstring))
      (bind_given (holds.withDefault (by simp) (annotationDecls_read decl.annotations))
        (bind_given (holds.withDefault (by simp) (text?_reads decl.explicitType))
          (bind_given (holds.withDefault (by simp) (Literal.option_reads decl.value))
            (pure_given _ _)))))

theorem DocDecl.decode_reads (decl : DocDecl) : DocDecl.decode.Reads decl.toJson decl := by
  refine record_reads [("scope", some (.ofText? decl.scope)),
    ("content", some (.string decl.content))] (by simp) fun record holds => ?_
  exact bind_given (holds.withDefault (by simp) (text?_reads decl.scope))
    (bind_given (holds.required (by simp) (text_reads decl.content)) (pure_given _ _))

theorem Program.decode_reads (program : Program) :
    Program.decode.Reads program.toJson program := by
  have htypes := Table.decode_reads TypeDecl.decode_reads program.types
  have henums := Table.decode_reads EnumDecl.decode_reads program.enums
  have hconsts := Table.decode_reads ConstDecl.decode_reads program.consts
  have hdocs : (list DocDecl.decode).Reads (.array (program.standaloneDocs.map DocDecl.toJson))
      program.standaloneDocs := list_reads_map fun doc _ => doc.decode_reads
  refine record_reads [("types", some (program.types.toJson TypeDecl.toJson)),
    ("enums", some (program.enums.toJson EnumDecl.toJson)),
    ("consts", some (program.consts.toJson ConstDecl.toJson)),
    ("standaloneDocs", some (.array (program.standaloneDocs.map DocDecl.toJson)))] (by simp)
    fun record holds => ?_
  exact bind_given (holds.withDefault (by simp) htypes)
    (bind_given (holds.withDefault (by simp) henums)
      (bind_given (holds.withDefault (by simp) hconsts)
        (bind_given (holds.withDefault (by simp) hdocs) (pure_given _ _))))

/-! ## Numbers in programs -/

open Json (itemsReadable_map)

theorem Json.ofText?_readable (text? : Option String) : (Json.ofText? text?).Readable := by
  cases text? <;> trivial

open Json (ofText?_readable)

theorem Reference.members_readable (reference : Reference) :
    Json.membersReadable reference.members :=
  ⟨trivial, ofText?_readable reference.member, trivial⟩

theorem references_readable (references : List Reference) :
    (Json.array (references.map Reference.toJson)).Readable :=
  itemsReadable_map fun reference _ => reference.members_readable

mutual

theorem Literal.toJson_readable (literal : Literal) : literal.toJson.Readable := by
  match literal with
  | .string _ | .int _ | .float _ | .bool _ => exact ⟨trivial, trivial, trivial⟩
  | .reference target => exact ⟨trivial, target.members_readable⟩
  | .object entries => exact ⟨trivial, entriesJson_readable entries, trivial⟩
  | .array elements => exact ⟨trivial, elementsJson_readable elements, trivial⟩

theorem LiteralEntry.toJson_readable (entry : LiteralEntry) : entry.toJson.Readable := by
  match entry with
  | .spread source => exact ⟨trivial, source.members_readable⟩
  | .field _ value => exact ⟨trivial, trivial, value.toJson_readable, trivial⟩

theorem entriesJson_readable (entries : List LiteralEntry) :
    Json.itemsReadable (entriesJson entries) := by
  match entries with
  | [] => trivial
  | entry :: rest => exact ⟨entry.toJson_readable, entriesJson_readable rest⟩

theorem elementsJson_readable (elements : List Literal) :
    Json.itemsReadable (elementsJson elements) := by
  match elements with
  | [] => trivial
  | element :: rest => exact ⟨element.toJson_readable, elementsJson_readable rest⟩

end

theorem Literal.optionJson_readable (literal? : Option Literal) :
    (Literal.optionJson literal?).Readable := by
  cases literal? with
  | none => trivial
  | some literal => exact literal.toJson_readable

theorem annotationDecls_readable (decls : List AnnotationDecl) :
    (Json.array (decls.map AnnotationDecl.toJson)).Readable :=
  itemsReadable_map fun decl _ => ⟨trivial, Literal.optionJson_readable decl.argument, trivial⟩

mutual

theorem BaseType.toJson_readable (base : BaseType) : base.toJson.Readable := by
  match base with
  | .primitive _ | .custom _ => exact ⟨trivial, trivial, trivial⟩
  | .map value => exact ⟨trivial, value.toJson_readable, trivial⟩
  | .object ⟨fields, spreads⟩ =>
      exact ⟨trivial, fieldsJson_readable fields, references_readable spreads, trivial⟩

theorem FieldType.toJson_readable (type : FieldType) : type.toJson.Readable := by
  match type with
  | ⟨base, dims⟩ => exact ⟨base.toJson_readable, Json.fits64_toNat dims, trivial⟩

theorem FieldDecl.toJson_readable (field : FieldDecl) : field.toJson.Readable := by
  match field with
  | ⟨_, docstring, annotations, _, type⟩ =>
      exact ⟨trivial, ofText?_readable docstring, annotationDecls_readable annotations, trivial,
        type.toJson_readable, trivial⟩

theorem fieldsJson_readable (fields : List FieldDecl) : Json.itemsReadable (fieldsJson fields) := by
  match fields with
  | [] => trivial
  | field :: rest => exact ⟨field.toJson_readable, fieldsJson_readable rest⟩

end

theorem TypeDecl.toJson_readable (decl : TypeDecl) : decl.toJson.Readable :=
  ⟨trivial, ofText?_readable decl.docstring, annotationDecls_readable decl.annotations,
    fieldsJson_readable decl.fields, references_readable decl.spreads, trivial⟩

theorem MemberDecl.toJson_readable (decl : MemberDecl) : decl.toJson.Readable :=
  ⟨trivial, trivial, ofText?_readable decl.docstring, annotationDecls_readable decl.annotations,
    trivial⟩

theorem EnumDecl.toJson_readable (decl : EnumDecl) : decl.toJson.Readable :=
  ⟨trivial, ofText?_readable decl.docstring, annotationDecls_readable decl.annotations, trivial,
    itemsReadable_map fun member _ => member.toJson_readable, references_readable decl.spreads,
    trivial⟩

theorem ConstDecl.toJson_readable (decl : ConstDecl) : decl.toJson.Readable :=
  ⟨trivial, ofText?_readable decl.docstring, annotationDecls_readable decl.annotations,
    ofText?_readable decl.explicitType, Literal.optionJson_readable decl.value, trivial⟩

theorem DocDecl.toJson_readable (decl : DocDecl) : decl.toJson.Readable :=
  ⟨ofText?_readable decl.scope, trivial, trivial⟩

theorem Table.toJson_readable {α : Type} {encode : α → Json} (h : ∀ a, (encode a).Readable)
    (table : Table α) : (table.toJson encode).Readable := by
  show Json.membersReadable (table.entries.map fun entry => (entry.1, encode entry.2))
  generalize table.entries = entries
  induction entries with
  | nil => trivial
  | cons entry rest ih => exact ⟨h entry.2, ih⟩

namespace Program

theorem toJson_readable (program : Program) : program.toJson.Readable :=
  ⟨program.types.toJson_readable TypeDecl.toJson_readable,
    program.enums.toJson_readable EnumDecl.toJson_readable,
    program.consts.toJson_readable ConstDecl.toJson_readable,
    itemsReadable_map fun doc _ => doc.toJson_readable, trivial⟩

/-- Every program comes back from its text, in either layout, if the document nests at most 127
levels; a deeper document is refused. -/
theorem ofJson_render_toJson (program : Program) (layout : Json.Layout) :
    Program.ofJson (program.toJson.render layout) =
      if program.toJson.depth ≤ 127 then .ok program else .error .json := by
  have hparsed := Json.parse?_render layout program.toJson_readable
  have hread : Program.decode .json program.toJson.toNode = _ := program.decode_reads .json
  rw [Reading.given_json] at hread
  rw [ofJson, hparsed, Option.bind_some, hread]
  by_cases shallow : program.toJson.depth ≤ 127
  · rw [if_pos shallow, if_pos shallow]
  · rw [if_neg shallow, if_neg shallow]

/-- A truth value inside so many arrays. -/
def nestedFlag : Nat → Literal
  | 0 => .bool true
  | depth + 1 => .array [nestedFlag depth]

/-- A constant with such a value, under a key that is not its name and that has to be escaped. -/
def flagged (depth : Nat) : Program :=
  { consts := Table.empty.insert "caf\u00e9 \"\n" (.called "flag" (nestedFlag depth)) }

theorem ofJson_render_toJson_flagged :
    Program.ofJson ((flagged 61).toJson.render .compact) = .ok (flagged 61) ∧
      Program.ofJson ((flagged 62).toJson.render .indented) = .error .json := by
  refine ⟨(ofJson_render_toJson _ _).trans ?_, (ofJson_render_toJson _ _).trans ?_⟩
  · exact if_pos (by decide +kernel)
  · exact if_neg (by decide +kernel)

end Program

end SchemaIR
