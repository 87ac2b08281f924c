import Mathlib
import SchemaIR.Proofs.ArrayTypes
import SchemaIR.Proofs.Indentation

/-!
# Documentation in normal form

Normalized documentation starts and ends with characters that show. These are exactly the texts
that normalization leaves as they are: with nothing in front of the first line there is no
indentation to take away, and then there is nothing to trim.

Lowering normalizes wherever it passes documentation on. Types, enumerations, members and
constants do so one by one, but fields come by many ways: they are declared, brought in by
spreads, nested in inline objects, or made up for the entries of a value. So fields are followed
through the run that flattens them, down to the innermost object.
-/

namespace SchemaIR

namespace Text

/-! ## Trimmed texts -/

/-- There is no white space at either end. -/
def Trimmed (text : List Char) : Prop :=
  (∀ c ∈ text.head?, isBlank c = false) ∧ ∀ c ∈ text.getLast?, isBlank c = false

theorem dropWhile_eq_self {text : List Char} (shown : ∀ c ∈ text.head?, isBlank c = false) :
    text.dropWhile isBlank = text := by
  cases text with
  | nil => rfl
  | cons c rest => exact List.dropWhile_cons_of_neg (by simp [shown c rfl])

theorem trimmed_trim (text : List Char) : Trimmed (trim text) := by
  constructor
  · -- What goes from the end of a text does not reach its first character that shows.
    intro c hc
    obtain ⟨rest, hrest⟩ : trim text <+: text.dropWhile isBlank := List.rdropWhile_prefix isBlank _
    refine head?_dropWhile_shown text c ?_
    rw [← hrest, List.head?_append, Option.mem_def.mp hc]
    rfl
  · rw [trim, List.getLast?_reverse]
    exact head?_dropWhile_shown _

theorem trim_eq_self {text : List Char} (trimmed : Trimmed text) : trim text = text := by
  have hend : ∀ c ∈ text.reverse.head?, isBlank c = false := by
    rw [List.head?_reverse]
    exact trimmed.2
  rw [trim, dropWhile_eq_self trimmed.1, dropWhile_eq_self hend, List.reverse_reverse]

end Text

namespace Doc

open Text

/-! ## What normalization leaves as it is -/

theorem normalize_eq_some_iff {text doc : String} :
    normalize text = some doc ↔ doc ≠ "" ∧ doc.toList = trim (unindent text.toList) := by
  unfold normalize
  split
  · next hnil => simp [hnil]
  · next hcontent =>
      rw [Option.some.injEq]
      constructor
      · rintro rfl
        exact ⟨fun hempty => hcontent (String.ofList_eq_empty_iff.mp hempty), String.toList_ofList⟩
      · rintro ⟨-, hdoc⟩
        rw [← hdoc, String.ofList_toList]

theorem normalize?_eq_none_iff {doc : Option String} :
    normalize? doc = none ↔ ∀ text ∈ doc, ∀ c ∈ text.toList, isBlank c = true := by
  cases doc with
  | none => simp [normalize?]
  | some text =>
      have hshown := isSome_normalize text
      rw [normalize?, Option.bind_some, ← Option.not_isSome_iff_eq_none, hshown]
      simp

/-- What normalization gives starts and ends with something that shows. -/
theorem trimmed_of_normalize {text doc : String} (h : normalize text = some doc) :
    Trimmed doc.toList := by
  rw [(normalize_eq_some_iff.mp h).2]
  exact trimmed_trim _

/-- All that shows in a text shows in its documentation. -/
theorem visible_of_normalize {text doc : String} (h : normalize text = some doc) :
    visible doc.toList = visible text.toList := by
  rw [(normalize_eq_some_iff.mp h).2, visible_trim, visible_unindent]

/-- A text that starts and ends with something that shows is left as it is. -/
theorem normalize_eq_self {doc : String} (nonempty : doc ≠ "") (trimmed : Trimmed doc.toList) :
    normalize doc = some doc := by
  obtain ⟨c, rest, hdoc⟩ : ∃ c rest, doc.toList = c :: rest :=
    List.exists_cons_of_ne_nil fun hnil => nonempty (String.toList_eq_nil_iff.mp hnil)
  have hkept : unindent doc.toList = doc.toList := by
    rw [hdoc]
    exact unindent_cons (trimmed.1 c (by rw [hdoc]; rfl)) rest
  exact normalize_eq_some_iff.mpr ⟨nonempty, by rw [hkept, trim_eq_self trimmed]⟩

theorem normalize_normalized {text doc : String} (h : normalize text = some doc) :
    normalize doc = some doc :=
  normalize_eq_self (normalize_eq_some_iff.mp h).1 (trimmed_of_normalize h)

/-- The documentation, where there is any, is what normalization makes of it. -/
def Normal (doc : Option String) : Prop := normalize? doc = doc

theorem Normal.none : Normal none := rfl

theorem normal_normalize? (doc : Option String) : Normal (normalize? doc) := by
  cases hdoc : normalize? doc with
  | none => exact .none
  | some text =>
      obtain ⟨source, -, htext⟩ := Option.bind_eq_some_iff.mp hdoc
      exact normalize_normalized htext

end Doc

/-! ## Fields at any depth -/

/-- The fields of an inline object. -/
def TypeRef.ownFields : TypeRef → List Field
  | .object fields => fields
  | .primitive _ | .named _ | .enumeration _ _ | .array _ _ | .map _ => []

/-- All fields in a schema: those of its types, and those of inline objects at any depth. -/
def Schema.fields (schema : Schema) : List Field :=
  schema.types.flatMap (·.fields) ++ schema.typeParts.flatMap (·.ownFields)

/-- All places in a schema that documentation can stand in. -/
def Schema.documentation (schema : Schema) : List (Option String) :=
  schema.types.map (·.doc) ++ schema.fields.map (·.doc) ++ schema.enums.map (·.doc) ++
    schema.enums.flatMap (·.members.map (·.doc)) ++ schema.constants.map (·.doc) ++
    schema.docs.map (some ·.content)

/-- The documentation of all fields in a type is in normal form. -/
def TypeRef.Documented (type : TypeRef) : Prop :=
  ∀ part ∈ type.parts, ∀ field ∈ part.ownFields, Doc.Normal field.doc

/-- The documentation of a field is in normal form, and so is that of all fields in it. -/
def Field.Documented (field : Field) : Prop := Doc.Normal field.doc ∧ field.type.Documented

theorem TypeRef.Simple.documented {type : TypeRef} (h : type.Simple) : type.Documented := by
  cases h <;> exact List.forall_mem_singleton.mpr (List.forall_mem_nil _)

namespace TypeRef.Documented

theorem array {item : TypeRef} (h : item.Documented) (dims : UInt32) :
    (TypeRef.array item dims).Documented :=
  List.forall_mem_cons.mpr ⟨List.forall_mem_nil _, h⟩

theorem map {value : TypeRef} (h : value.Documented) : (TypeRef.map value).Documented :=
  List.forall_mem_cons.mpr ⟨List.forall_mem_nil _, h⟩

theorem object {fields : List Field} (h : ∀ field ∈ fields, field.Documented) :
    (TypeRef.object fields).Documented := by
  refine List.forall_mem_cons.mpr ⟨fun field hfield => (h field hfield).1, fun part hpart => ?_⟩
  obtain ⟨field, hfield, hpart⟩ := mem_fieldsParts.mp hpart
  exact (h field hfield).2 part hpart

theorem arrayOf {type : TypeRef} (h : type.Documented) : type.arrayOf.Documented := by
  cases type with
  | array item dims =>
      obtain ⟨-, hitem⟩ := List.forall_mem_cons.mp h
      exact .array hitem (dims + 1)
  | primitive | named | enumeration | map | object => exact .array h 1

end TypeRef.Documented

/-! ## Declared fields -/

/-- The fields in an answer have documentation in normal form. -/
def FieldQuery.Documented : (query : FieldQuery) → query.Answer → Prop
  | .type _ | .base _ => TypeRef.Documented
  | .object _ | .fields _ => fun fields => ∀ field ∈ fields, field.Documented
  | .field _ => Field.Documented
  | .spreads _ _ => fun answer => ∀ field ∈ answer.1, field.Documented

theorem Flattens.documented {program : Program} {limit : Nat} {query : FieldQuery}
    {st st' : Lowering} {answer : query.Answer}
    (run : Flattens program limit query st answer st') : query.Documented answer := by
  induction run with
  | plain _ ih => exact ih
  | array _ _ ih => exact .array ih _
  | primitive => exact (Program.lowerPrimitive_simple _ _).documented
  | custom => exact (program.namedType_simple _).documented
  | map _ ih => exact .map ih
  | inline _ ih => exact .object ih
  | field _ _ ih => exact ⟨Doc.normal_normalize? _, ih⟩
  | refusedObject | noFields | noSpreads => exact List.forall_mem_nil _
  | object _ _ _ ih₁ ih₂ => exact List.forall_mem_append.mpr ⟨ih₁, ih₂⟩
  | moreFields _ _ ih₁ ih₂ => exact List.forall_mem_cons.mpr ⟨ih₁, ih₂⟩
  | memberSpread _ _ ih | circularSpread _ _ _ ih | undeclaredSpread _ _ _ _ ih
  | refusedSpread _ _ _ _ _ ih => exact ih
  | spread _ _ _ _ _ _ _ ih₁ ih₂ ih₃ =>
      exact List.forall_mem_append.mpr ⟨List.forall_mem_append.mpr ⟨ih₁, ih₂⟩, ih₃⟩

/-! ## Fields made up for entries -/

mutual

theorem Value.inferType_documented (value : Value) : value.inferType.Documented := by
  match value with
  | .string _ | .int _ | .float _ | .bool _ =>
      exact (TypeRef.Simple.primitive _).documented
  | .object entries => exact .object (inferFields_documented entries)
  | .array [] => exact .array (TypeRef.Simple.primitive .string).documented 1
  | .array (item :: rest) =>
      rw [Value.inferType]
      exact item.inferType_documented.arrayOf

theorem inferFields_documented (entries : List (String × Value)) :
    ∀ field ∈ inferFields entries, field.Documented := by
  match entries with
  | [] => exact List.forall_mem_nil _
  | (key, value) :: rest =>
      rw [inferFields, List.forall_mem_cons]
      exact ⟨⟨.none, value.inferType_documented⟩, inferFields_documented rest⟩

end

/-! ## Lowered schemas -/

namespace Program

variable {program : Program} {limit : Nat}

theorem typeFields_documented (program : Program) (limit : Nat) (decl : TypeDecl) (st : Lowering) :
    ∀ field ∈ (program.typeFields limit decl st).1, field.Documented := by
  have hinherited := program.flattens_flatten limit (.spreads decl.spreads [decl.name]) st
  have hown := program.flattens_flatten limit (.fields decl.fields)
    (program.flatten limit (.spreads decl.spreads [decl.name]) st).2
  rw [typeFields, List.forall_mem_append]
  exact ⟨hinherited.documented, hown.documented⟩

theorem constantType_documented (program : Program) (decl : ConstDecl) (value : Value) :
    (program.constantType decl value).Documented := by
  rcases program.constantType_cases decl value with h | h
  · rw [h]
    exact value.inferType_documented
  · exact h.documented

theorem lower_types_documented {type : TypeDef} (h : type ∈ (program.lower limit).schema.types) :
    Doc.Normal type.doc ∧ ∀ field ∈ type.fields, field.Documented := by
  obtain ⟨decl, -, st, rfl⟩ := exists_of_mem_eachStep (mem_sortByName.mp h)
  exact ⟨Doc.normal_normalize? _, program.typeFields_documented limit decl _⟩

theorem lower_enums_documented {enum : EnumDef} (h : enum ∈ (program.lower limit).schema.enums) :
    Doc.Normal enum.doc ∧ ∀ member ∈ enum.members, Doc.Normal member.doc := by
  obtain ⟨decl, -, st, rfl⟩ := exists_of_mem_eachStep (mem_sortByName.mp h)
  refine ⟨Doc.normal_normalize? _, fun member hmember => ?_⟩
  obtain ⟨decl, -, st, rfl⟩ := exists_of_mem_eachStep hmember
  exact Doc.normal_normalize? _

theorem lower_constants_documented {constant : ConstantDef}
    (h : constant ∈ (program.lower limit).schema.constants) :
    Doc.Normal constant.doc ∧ constant.type.Documented := by
  obtain ⟨decl, -, st, rfl⟩ := exists_of_mem_eachStep (mem_sortByName.mp h)
  exact ⟨Doc.normal_normalize? _, program.constantType_documented decl _⟩

theorem lower_docs_normalized {doc : DocDef} (h : doc ∈ (program.lower limit).schema.docs) :
    Doc.Normal doc.content := by
  obtain ⟨decl, -, hdoc⟩ := List.mem_filterMap.mp h
  obtain ⟨content, hcontent, rfl⟩ := Option.map_eq_some_iff.mp hdoc
  exact Doc.normalize_normalized hcontent

theorem lower_fields_documented {field : Field} (h : field ∈ (program.lower limit).schema.fields) :
    Doc.Normal field.doc := by
  rw [Schema.fields, List.mem_append, List.mem_flatMap, List.mem_flatMap] at h
  rcases h with ⟨type, htype, hfield⟩ | ⟨part, hpart, hfield⟩
  · exact ((lower_types_documented htype).2 field hfield).1
  · rw [Schema.typeParts, List.mem_append, List.mem_flatMap, List.mem_flatMap] at hpart
    rcases hpart with ⟨type, htype, hpart⟩ | ⟨constant, hconstant, hpart⟩
    · obtain ⟨outer, houter, hpart⟩ := mem_fieldsParts.mp hpart
      exact ((lower_types_documented htype).2 outer houter).2 part hpart field hfield
    · exact (lower_constants_documented hconstant).2 part hpart field hfield

theorem lower_documentation_normal {doc : Option String}
    (h : doc ∈ (program.lower limit).schema.documentation) : Doc.Normal doc := by
  simp only [Schema.documentation, List.mem_append, List.mem_map, List.mem_flatMap] at h
  rcases h with ((((⟨type, htype, rfl⟩ | ⟨field, hfield, rfl⟩) | ⟨enum, henum, rfl⟩) |
    ⟨enum, henum, member, hmember, rfl⟩) | ⟨constant, hconstant, rfl⟩) | ⟨block, hblock, rfl⟩
  · exact (lower_types_documented htype).1
  · exact lower_fields_documented hfield
  · exact (lower_enums_documented henum).1
  · exact (lower_enums_documented henum).2 member hmember
  · exact (lower_constants_documented hconstant).1
  · exact lower_docs_normalized hblock

/-- Indentation is taken away once and for all. A text is documentation unless it is blank; what
is left of it shows as much as the text, has something that shows at both ends, and is left alone
from then on. So all documentation in a lowered schema is as normalization would make it. -/
theorem lower_documentation_canonical (program : Program) (limit : Nat) :
    (∀ text, Doc.normalizeIndent (Doc.normalizeIndent text) = Doc.normalizeIndent text) ∧
      (∀ doc, Doc.normalize? doc = none ↔
        ∀ text ∈ doc, ∀ c ∈ text.toList, Text.isBlank c = true) ∧
      (∀ text doc, Doc.normalize? (some text) = some doc →
        doc ≠ "" ∧ Text.Trimmed doc.toList ∧
          Text.visible doc.toList = Text.visible text.toList ∧
          Doc.normalize? (some doc) = some doc) ∧
      ∀ doc ∈ (program.lower limit).schema.documentation, Doc.normalize? doc = doc := by
  refine ⟨Doc.normalizeIndent_normalizeIndent, fun _ => Doc.normalize?_eq_none_iff,
    fun text doc h => ?_, fun _ => lower_documentation_normal⟩
  have h : Doc.normalize text = some doc := h
  exact ⟨(Doc.normalize_eq_some_iff.mp h).1, Doc.trimmed_of_normalize h,
    Doc.visible_of_normalize h, Doc.normalize_normalized h⟩

/-- Documentation in all places, indented in several ways. That of one field is blank, as is one
of the blocks. -/
def handbook : Program :=
  let lines := ({} : InlineObject).withField
    ((FieldDecl.called "line" (.primitive "string")).withDoc "\t\n\t A line.\n\t  More.\t")
  let page := (TypeDecl.called "Page").withDoc "\n  A page\n    of text.\n"
  let tone := (EnumDecl.called "Tone" .string).withDoc " How it\n  sounds "
  ({} : Program).declareType
      (page.withField ((FieldDecl.called "body" (.map (.object lines))).withDoc " \n "))
    |>.declareEnum
      { tone with members := [{ name := "soft", value := "soft", docstring := "\r\n low \r\n" }] }
    |>.declareConst ((ConstDecl.called "first" (.object [.field "page" (.int "1")])).withDoc "1 ")
    |>.document " \t " |>.document "  Read\n\n  me."

theorem lower_documentation_canonical_handbook :
    let documentation := (handbook.lower 4).schema.documentation
    documentation = [some "A page\n  of text.", none, some "A line.\n More.", none,
        some "How it\n sounds", some "low", some "1", some "Read\n\nme."] ∧
      (∀ doc ∈ documentation, Doc.normalize? doc = doc) ∧
      Doc.normalize? (some "A line.\n More.") = some "A line.\n More." := by
  intro documentation
  have hdocumentation : documentation = [some "A page\n  of text.", none, some "A line.\n More.",
      none, some "How it\n sounds", some "low", some "1", some "Read\n\nme."] := by
    decide +kernel
  obtain ⟨-, -, hagain, hnormal⟩ := lower_documentation_canonical handbook 4
  refine ⟨hdocumentation, hnormal, ?_⟩
  exact (hagain "\t\n\t A line.\n\t  More.\t" _ (by decide +kernel)).2.2.2

end Program

end SchemaIR
