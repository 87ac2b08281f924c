import Mathlib
import SchemaIR.Json.Shape

/-!
# What a JSON Schema says of a document

A JSON Schema is a JSON value, and this file gives it the meaning of draft 2020-12, for the
keywords that shapes are published with. An object is read as its keywords. Then `Judges` has
the rules by which a document is accepted or rejected, by a schema or by one of its keywords.
Rejection has rules of its own, because `oneOf` accepts a document only if all alternatives
but one reject it. A schema that refers to itself without end accepts nothing and rejects
nothing.

A document is one that was read from a text. Two kinds of tokens have no value there, numbers
beyond every float and texts with half a surrogate pair, and which of the two it was is not
kept. Such a token counts as both.
-/

namespace SchemaIR

namespace Node

/-- The names of the types of a document. A float without a fraction is an integer as well. -/
def types : Node → List String
  | .null => ["null"]
  | .bool _ => ["boolean"]
  | .int _ => ["integer", "number"]
  | .float x => if x.floor == x then ["integer", "number"] else ["number"]
  | .string _ => ["string"]
  | .unreadable => ["string", "integer", "number"]
  | .seq _ => ["array"]
  | .map _ => ["object"]
  | .plain _ => []

/-- Whether a document is the given text. -/
def isText (text : String) : Node → Bool
  | .string other => other == text
  | _ => false

/-- Whether a document, if it is a number, is not below the bound. -/
def atLeast (bound : Int) : Node → Bool
  | .int n => bound ≤ n
  | .float x => Float.ofInt bound ≤ x
  | _ => true

/-- The items of an array; anything else has none. -/
def items : Node → List Node
  | .seq items => items
  | _ => []

/-- The members of an object; anything else has none. -/
def entries : Node → List (Node × Node)
  | .map entries => entries
  | _ => []

/-- Whether a document, if it is an object, has a member of this name. -/
def requires (name : String) : Node → Bool
  | .map entries => entries.any (·.1.isText name)
  | _ => true

end Node

section Types

variable {node : Node}

theorem Node.mem_types_string :
    "string" ∈ node.types ↔ (∃ text, node = .string text) ∨ node = .unreadable := by
  cases node with
  | float x => simp only [types]; split <;> simp
  | null | bool | int | string | plain | unreadable | seq | map => simp [types]

theorem Node.mem_types_boolean : "boolean" ∈ node.types ↔ ∃ flag, node = .bool flag := by
  cases node with
  | float x => simp only [types]; split <;> simp
  | null | bool | int | string | plain | unreadable | seq | map => simp [types]

theorem Node.mem_types_number : "number" ∈ node.types ↔
    (∃ n, node = .int n) ∨ (∃ x, node = .float x) ∨ node = .unreadable := by
  cases node with
  | float x => simp only [types]; split <;> simp
  | null | bool | int | string | plain | unreadable | seq | map => simp [types]

theorem Node.mem_types_array : "array" ∈ node.types ↔ ∃ items, node = .seq items := by
  cases node with
  | float x => simp only [types]; split <;> simp
  | null | bool | int | string | plain | unreadable | seq | map => simp [types]

theorem Node.mem_types_object : "object" ∈ node.types ↔ ∃ entries, node = .map entries := by
  cases node with
  | float x => simp only [types]; split <;> simp
  | null | bool | int | string | plain | unreadable | seq | map => simp [types]

end Types

namespace Json

/-! ## Keywords -/

/-- The members of an object; anything else has none. -/
def members : Json → List (String × Json)
  | .object members => members
  | _ => []

/-- A keyword of a schema with what it is given. -/
inductive Keyword where
  /-- The schema of a definition. -/
  | ref (pointer : String)
  | type (name : String)
  /-- One of these texts, or the only one. -/
  | word (texts : List String)
  | minimum (bound : Int)
  | required (names : List String)
  /-- No members but these. -/
  | closed (names : List String)
  | properties (schemas : List (String × Json))
  | items (schema : Json)
  | oneOf (schemas : List Json)
  /-- A keyword that asks for nothing. -/
  | silent

/-- The texts of an array that has nothing else. -/
def texts? (items : List Json) : Option (List String) :=
  items.mapM fun
    | .string text => some text
    | _ => none

namespace Keyword

/-- Reads a keyword that stands beside others. -/
def read? (siblings : List (String × Json)) : String × Json → Option Keyword
  | ("$ref", .string pointer) => some (.ref pointer)
  | ("type", .string name) => some (.type name)
  | ("const", .string text) => some (.word [text])
  | ("enum", .array words) => (texts? words).map .word
  | ("minimum", .int bound) => some (.minimum bound)
  | ("required", .array names) => (texts? names).map .required
  | ("additionalProperties", .bool false) =>
      some (.closed ((siblings.lookup "properties").elim [] (·.members.map Prod.fst)))
  | ("properties", .object schemas) => some (.properties schemas)
  | ("items", schema) => some (.items schema)
  | ("oneOf", .array schemas) => some (.oneOf schemas)
  | (name, _) =>
      if name ∈ ["$defs", "$id", "$schema", "description", "title"] then some .silent else none

/-- Reads the members of a schema. -/
def readAll? (siblings : List (String × Json)) : Option (List Keyword) :=
  siblings.mapM (read? siblings)

/-- What a keyword without schemas in it says of a document. -/
def assertion? (node : Node) : Keyword → Option Bool
  | .type name => some (node.types.contains name)
  | .word texts => some (texts.any (node.isText ·))
  | .minimum bound => some (node.atLeast bound)
  | .required names => some (names.all (node.requires ·))
  | .closed names => some (node.entries.all fun entry => names.any (entry.1.isText ·))
  | .silent => some true
  | .ref _ | .properties _ | .items _ | .oneOf _ => none

end Keyword

/-- The definition that a reference points to. -/
def definition? (root : Json) (pointer : String) : Option Json :=
  (root.members.lookup "$defs").bind fun definitions =>
    (definitions.members.find? fun entry => "#/$defs/" ++ entry.1 = pointer).map Prod.snd

/-! ## Verdicts -/

/-- What a document can be checked against. -/
inductive Check where
  | schema (schema : Json)
  | keyword (keyword : Keyword)

/-- `Judges root check node flag`: in the document `root` with its definitions, the check
accepts or rejects `node`, as the flag says. -/
inductive Judges (root : Json) : Check → Node → Bool → Prop where
  | always {flag : Bool} {node : Node} : Judges root (.schema (.bool flag)) node flag
  | accepted {siblings : List (String × Json)} {keywords : List Keyword} {node : Node}
      (read : Keyword.readAll? siblings = some keywords)
      (all : ∀ keyword ∈ keywords, Judges root (.keyword keyword) node true) :
      Judges root (.schema (.object siblings)) node true
  | rejected {siblings : List (String × Json)} {keywords : List Keyword} {keyword : Keyword}
      {node : Node} (read : Keyword.readAll? siblings = some keywords) (one : keyword ∈ keywords)
      (broken : Judges root (.keyword keyword) node false) :
      Judges root (.schema (.object siblings)) node false
  | assertion {keyword : Keyword} {node : Node} {flag : Bool}
      (plain : keyword.assertion? node = some flag) : Judges root (.keyword keyword) node flag
  | ref {pointer : String} {schema : Json} {node : Node} {flag : Bool}
      (found : root.definition? pointer = some schema)
      (target : Judges root (.schema schema) node flag) :
      Judges root (.keyword (.ref pointer)) node flag
  | properties {schemas : List (String × Json)} {node : Node}
      (all : ∀ entry ∈ node.entries, ∀ name schema, entry.1 = .string name →
        schemas.lookup name = some schema → Judges root (.schema schema) entry.2 true) :
      Judges root (.keyword (.properties schemas)) node true
  | badProperty {schemas : List (String × Json)} {node : Node} {entry : Node × Node}
      {name : String} {schema : Json} (one : entry ∈ node.entries) (key : entry.1 = .string name)
      (found : schemas.lookup name = some schema)
      (broken : Judges root (.schema schema) entry.2 false) :
      Judges root (.keyword (.properties schemas)) node false
  | items {schema : Json} {node : Node}
      (all : ∀ item ∈ node.items, Judges root (.schema schema) item true) :
      Judges root (.keyword (.items schema)) node true
  | badItem {schema : Json} {node item : Node} (one : item ∈ node.items)
      (broken : Judges root (.schema schema) item false) :
      Judges root (.keyword (.items schema)) node false
  /-- Exactly one alternative accepts. -/
  | oneOf {schemas before after : List Json} {schema : Json} {node : Node}
      (split : schemas = before ++ schema :: after)
      (one : Judges root (.schema schema) node true)
      (others : ∀ other ∈ before ++ after, Judges root (.schema other) node false) :
      Judges root (.keyword (.oneOf schemas)) node true
  | noneOf {schemas : List Json} {node : Node}
      (all : ∀ schema ∈ schemas, Judges root (.schema schema) node false) :
      Judges root (.keyword (.oneOf schemas)) node false
  | severalOf {schemas before between after : List Json} {schema other : Json} {node : Node}
      (split : schemas = before ++ schema :: (between ++ other :: after))
      (one : Judges root (.schema schema) node true)
      (another : Judges root (.schema other) node true) :
      Judges root (.keyword (.oneOf schemas)) node false

/-- The document is one that the JSON Schema accepts. -/
def Valid (schema : Json) (node : Node) : Prop := Judges schema (.schema schema) node true

namespace Judges

variable {root : Json} {check : Check} {node : Node} {flag flag' : Bool}

/-- Of two alternatives that stand in different places one is not the chosen one. -/
theorem mem_others {α : Type} {chosen first second : α}
    {before after before' between after' : List α}
    (h : before ++ chosen :: after = before' ++ first :: (between ++ second :: after')) :
    first ∈ before ++ after ∨ second ∈ before ++ after := by
  rcases List.append_eq_append_iff.mp h with ⟨more, rfl, hrest⟩ | ⟨more, rfl, hrest⟩
  · cases more with
    | nil =>
        obtain ⟨rfl, rfl⟩ := List.cons.inj hrest
        exact .inr (by simp)
    | cons a more =>
        obtain ⟨rfl, rfl⟩ := List.cons.inj hrest
        exact .inl (by simp)
  · cases more with
    | nil =>
        obtain ⟨rfl, rfl⟩ := List.cons.inj hrest
        exact .inr (by simp)
    | cons a more =>
        obtain ⟨rfl, -⟩ := List.cons.inj hrest
        exact .inl (by simp)

/-- No document is both accepted and rejected. -/
theorem unique (first : Judges root check node flag) (second : Judges root check node flag') :
    flag = flag' := by
  induction first generalizing flag' with
  | always =>
      cases second
      rfl
  | accepted read _ ih =>
      cases second with
      | accepted => rfl
      | rejected read' one broken =>
          cases read.symm.trans read'
          exact ih _ one broken
  | rejected read one _ ih =>
      cases second with
      | rejected => rfl
      | accepted read' all =>
          cases read.symm.trans read'
          exact ih (all _ one)
  | assertion plain =>
      cases second with
      | assertion plain' => exact Option.some.inj (plain.symm.trans plain')
      | ref | properties | badProperty | items | badItem | oneOf | noneOf | severalOf => cases plain
  | ref found _ ih =>
      cases second with
      | assertion plain => cases plain
      | ref found' target =>
          cases found.symm.trans found'
          exact ih target
  | properties _ ih =>
      cases second with
      | assertion plain => cases plain
      | properties => rfl
      | badProperty one key found broken => exact ih _ one _ _ key found broken
  | badProperty one key found _ ih =>
      cases second with
      | assertion plain => cases plain
      | badProperty => rfl
      | properties all => exact ih (all _ one _ _ key found)
  | items _ ih =>
      cases second with
      | assertion plain => cases plain
      | items => rfl
      | badItem one broken => exact ih _ one broken
  | badItem one _ ih =>
      cases second with
      | assertion plain => cases plain
      | badItem => rfl
      | items all => exact ih (all _ one)
  | oneOf split _ _ ih ihOthers =>
      cases second with
      | assertion plain => cases plain
      | oneOf => rfl
      | noneOf all => exact ih (all _ (split ▸ by simp))
      | severalOf split' one another =>
          rcases mem_others (split.symm.trans split') with hmem | hmem
          · cases ihOthers _ hmem one
          · cases ihOthers _ hmem another
  | noneOf _ ih =>
      cases second with
      | assertion plain => cases plain
      | noneOf | severalOf => rfl
      | oneOf split one => exact ih _ (split ▸ by simp) one
  | severalOf split _ _ ih₁ ih₂ =>
      cases second with
      | assertion plain => cases plain
      | noneOf | severalOf => rfl
      | oneOf split' _ others =>
          rcases mem_others (split'.symm.trans split) with hmem | hmem
          · cases ih₁ (others _ hmem)
          · cases ih₂ (others _ hmem)

end Judges

/-! ## Shapes

What a shape stands for is what its JSON Schema accepts. -/

theorem texts?_map (texts : List String) : texts? (texts.map Json.string) = some texts := by
  induction texts with
  | nil => rfl
  | cons text texts ih =>
      simp only [texts?, List.map_cons, List.mapM_cons] at ih ⊢
      rw [ih]
      rfl

namespace Shape

theorem map_fst_propertiesJson (schemas : List (String × Shape)) :
    (propertiesJson schemas).map Prod.fst = schemas.map Prod.fst := by
  induction schemas with
  | nil => rfl
  | cons entry rest ih => simp only [propertiesJson, List.map_cons, ih]

theorem lookup_propertiesJson (schemas : List (String × Shape)) (name : String) :
    (propertiesJson schemas).lookup name = (schemas.lookup name).map toJson := by
  induction schemas with
  | nil => rfl
  | cons entry rest ih =>
      obtain ⟨key, shape⟩ := entry
      simp only [propertiesJson, List.lookup_cons, ih]
      cases name == key <;> rfl

theorem alternativesJson_eq_map (alternatives : List Shape) :
    alternativesJson alternatives = alternatives.map toJson := by
  induction alternatives with
  | nil => rfl
  | cons shape rest ih => simp only [alternativesJson, ih, List.map_cons]

/-- The keywords that a shape is published with. -/
def keywords : Shape → List Keyword
  | .string => [.type "string"]
  | .boolean => [.type "boolean"]
  | .number => [.type "number"]
  | .integer none => [.type "integer"]
  | .integer (some bound) => [.minimum bound, .type "integer"]
  | .const text => [.word [text]]
  | .oneWord texts => [.word texts, .type "string"]
  | .list items => [.items items.toJson, .type "array"]
  | .record properties required =>
      [.closed (properties.map Prod.fst), .properties (propertiesJson properties),
        .required required, .type "object"]
  | .ref name => [.ref ("#/$defs/" ++ name)]
  | .oneOf alternatives => [.oneOf (alternatives.map toJson)]

theorem readAll?_toJson (shape : Shape) :
    ∃ siblings, shape.toJson = .object siblings ∧
      Keyword.readAll? siblings = some shape.keywords := by
  cases shape with
  | string | boolean | number | const | list | ref => exact ⟨_, rfl, rfl⟩
  | integer minimum => cases minimum <;> exact ⟨_, rfl, rfl⟩
  | oneWord texts =>
      refine ⟨_, rfl, ?_⟩
      simp only [Keyword.readAll?, List.mapM_cons, Keyword.read?, texts?_map]
      rfl
  | record properties required =>
      refine ⟨_, rfl, ?_⟩
      have hnames := map_fst_propertiesJson properties
      simp only [Keyword.readAll?, List.mapM_cons, Keyword.read?, texts?_map]
      simp only [keywords, ← hnames]
      rfl
  | oneOf alternatives =>
      refine ⟨_, rfl, ?_⟩
      simp only [keywords, ← alternativesJson_eq_map]
      rfl

/-- The verdict of the JSON Schema of a shape. -/
def Verdict (root : Json) (shape : Shape) (node : Node) (flag : Bool) : Prop :=
  Judges root (.schema shape.toJson) node flag

/-- The JSON Schema of a shape accepts the document. -/
abbrev Accepts (root : Json) (shape : Shape) (node : Node) : Prop := shape.Verdict root node true

/-- The JSON Schema of a shape rejects the document. -/
abbrev Rejects (root : Json) (shape : Shape) (node : Node) : Prop := shape.Verdict root node false

variable {root : Json} {shape : Shape} {node : Node}

theorem accepts_iff : shape.Accepts root node ↔
    ∀ keyword ∈ shape.keywords, Judges root (.keyword keyword) node true := by
  obtain ⟨siblings, hjson, hread⟩ := readAll?_toJson shape
  rw [Accepts, Verdict, hjson]
  constructor
  · intro h
    cases h with
    | accepted read all =>
        cases hread.symm.trans read
        exact all
  · exact .accepted hread

theorem rejects_iff : shape.Rejects root node ↔
    ∃ keyword ∈ shape.keywords, Judges root (.keyword keyword) node false := by
  obtain ⟨siblings, hjson, hread⟩ := readAll?_toJson shape
  rw [Rejects, Verdict, hjson]
  constructor
  · intro h
    cases h with
    | rejected read one broken =>
        cases hread.symm.trans read
        exact ⟨_, one, broken⟩
  · rintro ⟨keyword, one, broken⟩
    exact .rejected hread one broken

/-! ### Scalars -/

theorem judges_iff {keyword : Keyword} {flag flag' : Bool}
    (plain : keyword.assertion? node = some flag') :
    Judges root (.keyword keyword) node flag ↔ flag = flag' :=
  ⟨fun h => h.unique (.assertion plain), fun h => h ▸ .assertion plain⟩

theorem judges_type {name : String} :
    Judges root (.keyword (.type name)) node true ↔ name ∈ node.types := by
  rw [judges_iff rfl, eq_comm, List.contains_iff_mem]

theorem accepts_string : Shape.string.Accepts root node ↔ "string" ∈ node.types := by
  simp [accepts_iff, keywords, judges_type]

theorem accepts_boolean : Shape.boolean.Accepts root node ↔ "boolean" ∈ node.types := by
  simp [accepts_iff, keywords, judges_type]

theorem accepts_number : Shape.number.Accepts root node ↔ "number" ∈ node.types := by
  simp [accepts_iff, keywords, judges_type]

theorem accepts_integer {minimum : Option Int} : (Shape.integer minimum).Accepts root node ↔
    "integer" ∈ node.types ∧ ∀ bound ∈ minimum, node.atLeast bound = true := by
  have hminimum {bound : Int} : Judges root (.keyword (.minimum bound)) node true ↔
      node.atLeast bound = true := by rw [judges_iff rfl, eq_comm]
  cases minimum with
  | none => simp [accepts_iff, keywords, judges_type]
  | some bound => simp [accepts_iff, keywords, judges_type, hminimum, and_comm]

theorem isText_iff {text : String} : node.isText text = true ↔ node = .string text := by
  cases node <;> simp [Node.isText]

theorem judges_word {texts : List String} : Judges root (.keyword (.word texts)) node true ↔
    ∃ text ∈ texts, node = .string text := by
  rw [judges_iff rfl, eq_comm, List.any_eq_true]
  simp only [isText_iff]

theorem accepts_const {text : String} :
    (Shape.const text).Accepts root node ↔ node = .string text := by
  simp [accepts_iff, keywords, judges_word]

theorem rejects_const {text other : String} (differ : other ≠ text) :
    (Shape.const text).Rejects root (.string other) := by
  refine rejects_iff.mpr ⟨_, List.mem_cons_self, (judges_iff rfl).mpr ?_⟩
  simp [Node.isText, differ]

theorem accepts_oneWord {texts : List String} :
    (Shape.oneWord texts).Accepts root node ↔ ∃ text ∈ texts, node = .string text := by
  simp only [accepts_iff, keywords, List.forall_mem_cons, judges_word, judges_type]
  constructor
  · exact fun h => h.1
  · rintro ⟨text, hmem, rfl⟩
    exact ⟨⟨text, hmem, rfl⟩, List.mem_cons_self, List.forall_mem_nil _⟩

/-! ### Containers and unions -/

theorem accepts_list {items : Shape} : (Shape.list items).Accepts root node ↔
    ∃ nodes, node = .seq nodes ∧ ∀ item ∈ nodes, items.Accepts root item := by
  simp only [accepts_iff, keywords, List.forall_mem_cons, judges_type, Node.mem_types_array]
  constructor
  · rintro ⟨hitems, ⟨nodes, rfl⟩, -⟩
    cases hitems with
    | assertion plain => cases plain
    | items all => exact ⟨nodes, rfl, fun item hitem => accepts_iff.mp (all item hitem)⟩
  · rintro ⟨nodes, rfl, all⟩
    refine ⟨.items fun item hitem => accepts_iff.mpr (all item hitem), ⟨nodes, rfl⟩, ?_⟩
    exact List.forall_mem_nil _

variable {properties : List (String × Shape)} {required : List String}

theorem mem_keys_of_lookup {name : String} (h : properties.lookup name = some shape) :
    name ∈ properties.map Prod.fst := by
  obtain ⟨before, after, hsplit, -⟩ := List.lookup_eq_some_iff.mp h
  simp [hsplit]

theorem lookup_of_mem_keys {name : String} (h : name ∈ properties.map Prod.fst) :
    ∃ shape, properties.lookup name = some shape := by
  refine Option.isSome_iff_exists.mp (List.lookup_isSome_iff.mpr ?_)
  obtain ⟨entry, hmem, rfl⟩ := List.mem_map.mp h
  exact ⟨entry, hmem, by simp⟩

theorem judges_closed {names : List String} {entries : List (Node × Node)} :
    Judges root (.keyword (.closed names)) (.map entries) true ↔
      ∀ entry ∈ entries, ∃ name ∈ names, entry.1 = .string name := by
  rw [judges_iff rfl, eq_comm, Node.entries, List.all_eq_true]
  simp only [List.any_eq_true, isText_iff]

theorem judges_required {names : List String} {entries : List (Node × Node)} :
    Judges root (.keyword (.required names)) (.map entries) true ↔
      ∀ name ∈ names, ∃ value, (.string name, value) ∈ entries := by
  rw [judges_iff rfl, eq_comm, List.all_eq_true]
  simp only [Node.requires, List.any_eq_true, isText_iff]
  constructor
  · intro h name hname
    obtain ⟨⟨key, value⟩, hmem, rfl⟩ := h name hname
    exact ⟨value, hmem⟩
  · intro h name hname
    obtain ⟨value, hmem⟩ := h name hname
    exact ⟨_, hmem, rfl⟩

/-- An object is accepted if all its members are known, each is accepted as what it is, and
none is missing. -/
theorem accepts_record : (Shape.record properties required).Accepts root node ↔
    ∃ entries, node = .map entries ∧
      (∀ entry ∈ entries, ∃ name shape, entry.1 = .string name ∧
        properties.lookup name = some shape ∧ shape.Accepts root entry.2) ∧
      ∀ name ∈ required, ∃ value, (.string name, value) ∈ entries := by
  rw [accepts_iff]
  simp only [keywords, List.forall_mem_cons, judges_type, Node.mem_types_object]
  constructor
  · rintro ⟨hclosed, hproperties, hrequired, ⟨entries, rfl⟩, -⟩
    refine ⟨entries, rfl, fun entry hmem => ?_, judges_required.mp hrequired⟩
    obtain ⟨name, hname, hkey⟩ := judges_closed.mp hclosed entry hmem
    obtain ⟨shape, hshape⟩ := lookup_of_mem_keys hname
    cases hproperties with
    | assertion plain => cases plain
    | properties all =>
        refine ⟨name, shape, hkey, hshape, all entry hmem name _ hkey ?_⟩
        rw [lookup_propertiesJson, hshape]
        rfl
  · rintro ⟨entries, rfl, hentries, hrequired⟩
    refine ⟨judges_closed.mpr fun entry hmem => ?_, .properties ?_, judges_required.mpr hrequired,
      ⟨entries, rfl⟩, List.forall_mem_nil _⟩
    · obtain ⟨name, shape, hkey, hshape, -⟩ := hentries entry hmem
      exact ⟨name, mem_keys_of_lookup hshape, hkey⟩
    · intro entry hmem name schema hkey hschema
      obtain ⟨other, shape, hother, hshape, haccepts⟩ := hentries entry hmem
      cases hkey.symm.trans hother
      rw [lookup_propertiesJson, hshape] at hschema
      cases hschema
      exact haccepts

/-- An object is rejected for one of its members. -/
theorem rejects_record {entries : List (Node × Node)} {name : String} {value : Node}
    {shape : Shape} (member : (.string name, value) ∈ entries)
    (known : properties.lookup name = some shape) (broken : shape.Rejects root value) :
    (Shape.record properties required).Rejects root (.map entries) := by
  refine rejects_iff.mpr ⟨.properties (propertiesJson properties), by simp [keywords], ?_⟩
  refine .badProperty member rfl ?_ broken
  rw [lookup_propertiesJson, known]
  rfl

theorem accepts_ref {name : String}
    (found : root.definition? ("#/$defs/" ++ name) = some shape.toJson) :
    (Shape.ref name).Accepts root node ↔ shape.Accepts root node := by
  have hkeyword : (Shape.ref name).Accepts root node ↔
      Judges root (.keyword (.ref ("#/$defs/" ++ name))) node true := by
    rw [accepts_iff, keywords, List.forall_mem_singleton]
  rw [hkeyword]
  constructor
  · intro h
    cases h with
    | assertion plain => cases plain
    | ref found' target =>
        cases found.symm.trans found'
        exact target
  · exact .ref found

variable {alternatives before after : List Shape}

theorem accepts_oneOf (split : alternatives = before ++ shape :: after)
    (one : shape.Accepts root node)
    (others : ∀ other ∈ before ++ after, other.Rejects root node) :
    (Shape.oneOf alternatives).Accepts root node := by
  have hothers : ∀ other ∈ before.map toJson ++ after.map toJson,
      Judges root (.schema other) node false := by
    rw [← List.map_append]
    intro other hmem
    obtain ⟨shape, hshape, rfl⟩ := List.mem_map.mp hmem
    exact others shape hshape
  have hsplit : alternatives.map toJson =
      before.map toJson ++ shape.toJson :: after.map toJson := by
    rw [split, List.map_append, List.map_cons]
  exact accepts_iff.mpr fun _ h => (List.mem_singleton.mp h) ▸ .oneOf hsplit one hothers

theorem exists_accepts_of_oneOf (h : (Shape.oneOf alternatives).Accepts root node) :
    ∃ shape ∈ alternatives, shape.Accepts root node := by
  have hkeyword := accepts_iff.mp h _ List.mem_cons_self
  cases hkeyword with
  | assertion plain => cases plain
  | oneOf split one =>
      have hmem : _ ∈ alternatives.map toJson := split ▸ List.mem_append_right _ List.mem_cons_self
      obtain ⟨shape, hshape, rfl⟩ := List.mem_map.mp hmem
      exact ⟨shape, hshape, one⟩

end Shape

end Json

end SchemaIR
