import Mathlib
import SchemaIR.Proofs.Validity
import SchemaIR.Schema.Published

/-!
# What the published JSON Schema accepts

References lead to the definitions of the same name, so the published document accepts what
the root shape does. The alternatives of its unions are records with a mark of their own, and
a document can carry only one mark.
-/

namespace SchemaIR

open Json

namespace Json.Shape

variable {root : Json}

/-! ## Unions -/

/-- The mark that a record has to carry. -/
def mark? : Shape → Option String
  | .record properties _ =>
      match properties.lookup "kind" with
      | some (.const mark) => some mark
      | _ => none
  | _ => none

/-- The alternatives of a union. -/
def alternatives : Shape → List Shape
  | .oneOf alternatives => alternatives
  | _ => []

/-- The alternative with a mark. -/
def alternative? (shape : Shape) (mark : String) : Option Shape :=
  shape.alternatives.find? (·.mark? = some mark)

/-- A union whose alternatives have marks, no two of them the same. -/
structure Discriminated (shape : Shape) : Prop where
  union : shape = .oneOf shape.alternatives
  marked : ∀ alternative ∈ shape.alternatives, alternative.mark?.isSome = true
  distinct : (shape.alternatives.map mark?).Nodup

theorem lookup_of_mark? {shape : Shape} {mark : String} (h : shape.mark? = some mark) :
    ∃ properties required, shape = .record properties required ∧
      properties.lookup "kind" = some (.const mark) := by
  cases shape with
  | record properties required =>
      simp only [mark?] at h
      split at h
      · next hlookup =>
          cases h
          exact ⟨properties, required, rfl, hlookup⟩
      · cases h
  | string | boolean | number | integer | const | oneWord | list | ref | oneOf => cases h

theorem mark?_of_alternative? {union alternative : Shape} {mark : String}
    (found : union.alternative? mark = some alternative) : alternative.mark? = some mark := by
  simpa using List.find?_some found

/-- A document carries one mark, so no other alternative than the one with this mark accepts
it. -/
theorem Discriminated.accepts {union alternative : Shape} {mark : String}
    {entries : List (Node × Node)} (discriminated : union.Discriminated)
    (found : union.alternative? mark = some alternative)
    (carries : (.string "kind", .string mark) ∈ entries)
    (accepts : alternative.Accepts root (.map entries)) : union.Accepts root (.map entries) := by
  have hmark := mark?_of_alternative? found
  obtain ⟨before, after, hsplit⟩ := List.append_of_mem (List.mem_of_find?_eq_some found)
  rw [discriminated.union]
  refine accepts_oneOf hsplit accepts fun other hother => ?_
  have hmem : other ∈ union.alternatives :=
    hsplit ▸ List.mem_append.mpr ((List.mem_append.mp hother).imp_right (List.mem_cons_of_mem _))
  obtain ⟨otherMark, hotherMark⟩ := Option.isSome_iff_exists.mp (discriminated.marked other hmem)
  obtain ⟨properties, required, rfl, hlookup⟩ := lookup_of_mark? hotherMark
  refine rejects_record carries hlookup (rejects_const ?_)
  rintro rfl
  have hdistinct := discriminated.distinct
  rw [hsplit, List.map_append, List.map_cons, List.nodup_middle] at hdistinct
  refine (List.nodup_cons.mp hdistinct).1 ?_
  rw [hmark, ← hotherMark, ← List.map_append]
  exact List.mem_map_of_mem hother

/-- What a union accepts, one of its alternatives does, which is a record with a mark. -/
theorem Discriminated.exists_record {union : Shape} {node : Node}
    (discriminated : union.Discriminated) (accepts : union.Accepts root node) :
    ∃ properties required mark, .record properties required ∈ union.alternatives ∧
      (record properties required).mark? = some mark ∧
      properties.lookup "kind" = some (.const mark) ∧
      (record properties required).Accepts root node := by
  rw [discriminated.union] at accepts
  obtain ⟨alternative, hmem, haccepts⟩ := exists_accepts_of_oneOf accepts
  obtain ⟨mark, hmark⟩ := Option.isSome_iff_exists.mp (discriminated.marked alternative hmem)
  obtain ⟨properties, required, rfl, hlookup⟩ := lookup_of_mark? hmark
  exact ⟨properties, required, mark, hmem, hmark, hlookup, haccepts⟩

theorem Discriminated.exists_map {union : Shape} {node : Node}
    (discriminated : union.Discriminated) (accepts : union.Accepts root node) :
    ∃ entries, node = .map entries := by
  obtain ⟨properties, required, -, -, -, -, haccepts⟩ := discriminated.exists_record accepts
  exact (accepts_record.mp haccepts).imp fun _ h => h.1

end Json.Shape

namespace Schema.Published

variable {node : Node}

theorem find?_propertiesJson (definitions : List (String × Shape)) (name : String) :
    ((Shape.propertiesJson definitions).find?
        fun entry => "#/$defs/" ++ entry.1 = "#/$defs/" ++ name).map Prod.snd =
      (definitions.lookup name).map Shape.toJson := by
  induction definitions with
  | nil => rfl
  | cons entry rest ih =>
      obtain ⟨key, shape⟩ := entry
      simp only [Shape.propertiesJson, List.find?_cons, List.lookup_cons, String.append_right_inj]
      by_cases same : key = name
      · simp [same]
      · have hother : (name == key) = false := beq_false_of_ne (Ne.symm same)
        simp only [same, decide_false, hother]
        simpa only [String.append_right_inj] using ih

/-- References lead to the definitions. -/
theorem definition?_document (name : String) :
    document.definition? ("#/$defs/" ++ name) = (definitions.lookup name).map Shape.toJson :=
  find?_propertiesJson definitions name

theorem accepts_ref {name : String} {shape : Shape} (found : definitions.lookup name = some shape) :
    (Shape.ref name).Accepts document node ↔ shape.Accepts document node := by
  refine Shape.accepts_ref ?_
  rw [definition?_document, found]
  rfl

/-- The document accepts what the root shape does. -/
theorem valid_iff : Valid document node ↔ root.Accepts document node := by
  have hread : ∃ siblings, document = .object siblings ∧ Keyword.readAll? siblings =
      some [.silent, .silent, .ref "#/$defs/IrSchema", .silent, .silent, .silent] := ⟨_, rfl, rfl⟩
  have hroot : definitions.lookup "IrSchema" = some root := rfl
  obtain ⟨siblings, hdocument, hread⟩ := hread
  rw [← accepts_ref hroot, Shape.accepts_iff, Shape.keywords, List.forall_mem_singleton, Valid]
  generalize document = self at hdocument ⊢
  subst hdocument
  constructor
  · intro h
    cases h with
    | accepted read all =>
        cases hread.symm.trans read
        exact all _ (by simp)
  · intro h
    refine .accepted hread fun keyword hmem => ?_
    simp only [List.mem_cons, List.not_mem_nil, or_false] at hmem
    rcases hmem with rfl | rfl | rfl | rfl | rfl | rfl
    · exact .assertion rfl
    · exact .assertion rfl
    · exact h
    · exact .assertion rfl
    · exact .assertion rfl
    · exact .assertion rfl

/-! ## Checking documents

Acceptance is a matter of rules, but for a document with marks it can be computed. -/

/-- The text that a key is. -/
def keyText? : Node → Option String
  | .string text => some text
  | _ => none

/-- A check that is enough for a document to be accepted, made as deep as the fuel allows. Of a
union only the alternative with the mark of the document is looked at. -/
def accepts? : Nat → Shape → Node → Bool
  | 0, _, _ => false
  | _ + 1, .string, node => node.types.contains "string"
  | _ + 1, .boolean, node => node.types.contains "boolean"
  | _ + 1, .number, node => node.types.contains "number"
  | _ + 1, .integer minimum, node =>
      node.types.contains "integer" && minimum.all (node.atLeast ·)
  | _ + 1, .const text, node => node.isText text
  | _ + 1, .oneWord texts, node => texts.any (node.isText ·)
  | fuel + 1, .list shape, node =>
      node.types.contains "array" && node.items.all (accepts? fuel shape)
  | fuel + 1, .record properties required, node =>
      node.types.contains "object" &&
        node.entries.all (fun entry => (keyText? entry.1).any fun name =>
          (properties.lookup name).any (accepts? fuel · entry.2)) &&
        required.all (node.requires ·)
  | fuel + 1, .ref name, node => (definitions.lookup name).any (accepts? fuel · node)
  | fuel + 1, .oneOf alternatives, node =>
      alternatives.all (·.mark?.isSome) && (alternatives.map Shape.mark?).Nodup &&
        node.entries.any fun entry => entry.1.isText "kind" &&
          ((keyText? entry.2).bind (Shape.alternative? (.oneOf alternatives) ·)).any
            (accepts? fuel · node)

theorem keyText?_eq_some {text : String} (h : keyText? node = some text) : node = .string text := by
  cases node <;> cases h
  rfl

theorem accepts?_sound {fuel : Nat} {shape : Shape} {node : Node}
    (h : accepts? fuel shape node = true) : shape.Accepts document node := by
  induction fuel generalizing shape node with
  | zero => cases h
  | succ fuel ih =>
      cases shape with
      | string => exact Shape.accepts_string.mpr (List.contains_iff_mem.mp h)
      | boolean => exact Shape.accepts_boolean.mpr (List.contains_iff_mem.mp h)
      | number => exact Shape.accepts_number.mpr (List.contains_iff_mem.mp h)
      | integer minimum =>
          obtain ⟨htypes, hbound⟩ := Bool.and_eq_true_iff.mp h
          refine Shape.accepts_integer.mpr ⟨List.contains_iff_mem.mp htypes, ?_⟩
          rintro bound rfl
          exact hbound
      | const text => exact Shape.accepts_const.mpr (Shape.isText_iff.mp h)
      | oneWord texts =>
          obtain ⟨text, htext, heq⟩ := List.any_eq_true.mp h
          exact Shape.accepts_oneWord.mpr ⟨text, htext, Shape.isText_iff.mp heq⟩
      | list items =>
          obtain ⟨htypes, hitems⟩ := Bool.and_eq_true_iff.mp h
          obtain ⟨nodes, rfl⟩ := Node.mem_types_array.mp (List.contains_iff_mem.mp htypes)
          exact Shape.accepts_list.mpr
            ⟨nodes, rfl, fun item hitem => ih (List.all_eq_true.mp hitems item hitem)⟩
      | record properties required =>
          obtain ⟨h, hrequired⟩ := Bool.and_eq_true_iff.mp h
          obtain ⟨htypes, hentries⟩ := Bool.and_eq_true_iff.mp h
          obtain ⟨entries, rfl⟩ := Node.mem_types_object.mp (List.contains_iff_mem.mp htypes)
          have hcomplete : Judges document (.keyword (.required required)) (.map entries) true :=
            .assertion (congrArg some hrequired)
          refine Shape.accepts_record.mpr
            ⟨entries, rfl, fun entry hentry => ?_, Shape.judges_required.mp hcomplete⟩
          obtain ⟨name, hname, hmember⟩ :=
            (Option.any_eq_true _ _).mp (List.all_eq_true.mp hentries entry hentry)
          obtain ⟨shape, hshape, haccepts⟩ := (Option.any_eq_true _ _).mp hmember
          exact ⟨name, shape, keyText?_eq_some hname, hshape, ih haccepts⟩
      | ref name =>
          obtain ⟨shape, hshape, haccepts⟩ := (Option.any_eq_true _ _).mp h
          exact (accepts_ref hshape).mpr (ih haccepts)
      | oneOf alternatives =>
          obtain ⟨h, hentries⟩ := Bool.and_eq_true_iff.mp h
          obtain ⟨hmarked, hdistinct⟩ := Bool.and_eq_true_iff.mp h
          have discriminated : (Shape.oneOf alternatives).Discriminated :=
            ⟨rfl, List.all_eq_true.mp hmarked, of_decide_eq_true hdistinct⟩
          obtain ⟨⟨key, value⟩, hentry, h⟩ := List.any_eq_true.mp hentries
          obtain ⟨hkey, halternative⟩ := Bool.and_eq_true_iff.mp h
          obtain ⟨alternative, hbind, haccepts⟩ := (Option.any_eq_true _ _).mp halternative
          obtain ⟨mark, hmark, hfound⟩ := Option.bind_eq_some_iff.mp hbind
          cases Shape.isText_iff.mp hkey
          cases keyText?_eq_some hmark
          cases node with
          | map entries => exact discriminated.accepts hfound hentry (ih haccepts)
          | null | bool | int | float | string | plain | unreadable | seq => cases hentry

theorem value_discriminated : value.Discriminated := ⟨rfl, by decide, by decide⟩

theorem typeRef_discriminated : typeRef.Discriminated := ⟨rfl, by decide, by decide⟩

end Schema.Published

end SchemaIR
