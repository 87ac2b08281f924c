import Mathlib
import SchemaIR.Program.Loading
import SchemaIR.Proofs.Documents
import SchemaIR.Proofs.Levels

/-!
# Which schemas can be read again

A document is read only up to a depth, and the limit on nesting is meant to keep documents above
it. It does so for values. It does not for the fields of types: a spread in an inline object
brings in fields that may hold the same inline object, and what counts against the limit is that
an object and a spread are entered, not how many maps and arrays are around the object.

So two numbers of a program decide how deep its document gets. One is how far below a field of a
type an inline object stands that has spreads. As often as the limit allows for an object and a
spread, fields can be brought in that far below. The other is how deep a field nests as it is
declared, with nothing brought in.
-/

namespace SchemaIR

/-! ## Literals

The value of a literal nests as deep as the literal, except where it has a constant. -/

mutual

/-- The levels of the document of a literal's value, if those of constants have so many. -/
def Literal.levels (constants : Nat) : Literal → Nat
  | .string _ | .int _ | .float _ | .bool _ => 1
  | .reference target => if target.member.isSome then 1 else constants
  | .object entries => 2 + entriesLevels constants entries
  | .array elements => 2 + elementsLevels constants elements

/-- The most levels among the documents of entries. What a spread adds nests less deep than the
object it comes from. -/
def entriesLevels (constants : Nat) : List LiteralEntry → Nat
  | [] => 0
  | .field _ value :: rest => max (1 + value.levels constants) (entriesLevels constants rest)
  | .spread _ :: rest => max constants (entriesLevels constants rest)

/-- The most levels among the documents of elements. -/
def elementsLevels (constants : Nat) : List Literal → Nat
  | [] => 0
  | literal :: rest => max (literal.levels constants) (elementsLevels constants rest)

end

/-- What is answered takes no more levels than what is asked for. -/
def Query.Spans (constants : Nat) : (query : Query) → query.Answer → Prop
  | .constant _ => fun answer => ∀ value ∈ answer, value.toJson.depth ≤ constants
  | .literal term => fun answer => ∀ value ∈ answer, value.toJson.depth ≤ term.levels constants
  | .elements terms => fun answer =>
      ∀ item ∈ answer, item.toJson.depth ≤ elementsLevels constants terms
  | .entries terms => fun answer =>
      ∀ entry ∈ answer, 1 + entry.2.toJson.depth ≤ entriesLevels constants terms

theorem Value.object_toJson_depth_le {entries : List (String × Value)} {bound : Nat} :
    (Value.object entries).toJson.depth ≤ 2 + bound ↔
      ∀ entry ∈ entries, 1 + entry.2.toJson.depth ≤ bound := by
  have hentries : Json.itemsDepth (entriesToJson entries) ≤ bound ↔
      ∀ entry ∈ entries, 1 + entry.2.toJson.depth ≤ bound := by
    induction entries with
    | nil => simp [entriesToJson, Json.itemsDepth]
    | cons entry rest ih =>
        simp only [entriesToJson, Json.itemsDepth, Json.depth, Json.membersDepth, Nat.max_le,
          Nat.zero_max, Nat.max_zero, ih, List.forall_mem_cons]
  rw [← hentries]
  simp only [Value.toJson, Json.depth, Json.membersDepth]
  omega

theorem Value.array_toJson_depth_le {items : List Value} {bound : Nat} :
    (Value.array items).toJson.depth ≤ 2 + bound ↔ ∀ item ∈ items, item.toJson.depth ≤ bound := by
  have hitems : Json.itemsDepth (itemsToJson items) ≤ bound ↔
      ∀ item ∈ items, item.toJson.depth ≤ bound := by
    induction items with
    | nil => simp [itemsToJson, Json.itemsDepth]
    | cons item rest ih =>
        simp only [itemsToJson, Json.itemsDepth, Nat.max_le, ih, List.forall_mem_cons]
  rw [← hitems]
  simp only [Value.toJson, Json.depth, Json.membersDepth]
  omega

theorem Literal.scalar?_toJson_depth {literal : Literal} {value : Value} {events : Log}
    (plain : literal.scalar? = some (some value, events)) : value.toJson.depth = 1 := by
  obtain ⟨_, rfl⟩ | ⟨_, rfl⟩ | ⟨_, _, rfl⟩ | ⟨_, rfl⟩ := scalar?_value plain <;> rfl

theorem Literal.levels_pos (literal : Literal) {constants : Nat} (h : 0 < constants) :
    0 < literal.levels constants := by
  cases literal with
  | string | int | float | bool => exact Nat.one_pos
  | reference target =>
      rw [Literal.levels]
      split
      · exact Nat.one_pos
      · exact h
  | object | array =>
      rw [Literal.levels]
      omega

theorem Program.memberValue?_toJson_depth {program : Program} {limit : Nat}
    {enum member : String} {value : Value}
    (h : program.memberValue? limit enum member = some value) : value.toJson.depth = 1 := by
  obtain ⟨_, rfl⟩ | ⟨_, rfl⟩ := memberValue?_value h <;> rfl

namespace Evaluates

variable {program : Program} {limit : Nat} {query : Query} {st st' : Resolver}
  {answer : query.Answer}

theorem nests_succ (run : Evaluates program limit query st answer st') (h : st.Measured)
    (hdepth : st.depth ≤ limit) : query.Nests (limit + 1) st.depth answer := by
  have inside : program.Inside limit (query, st) (query, st) := .refl
  have hnests := inside.nests_succ h hdepth
  rwa [Program.answer_eq_iff.mpr run] at hnests

theorem constant_spans {name : String} {value? : Option Value}
    (run : Evaluates program limit (.constant name) st value? st') (h : st.Measured)
    (hdepth : st.depth ≤ limit) : ∀ value ∈ value?, value.toJson.depth ≤ valueLevels limit := by
  intro value hvalue
  have hnests := run.nests_succ h hdepth value hvalue
  exact Value.toJson_depth_le (by omega)

theorem spans (run : Evaluates program limit query st answer st') (h : st.Measured)
    (hdepth : st.depth ≤ limit) : query.Spans (valueLevels limit) answer := by
  induction run with
  | cached hit fits =>
      have run : Evaluates program limit _ _ _ _ := .cached hit fits
      exact run.constant_spans h hdepth
  | withheld | undeclared | circular | valueless | tooDeep => rintro value ⟨⟩
  | visited miss found idle body run =>
      exact (Evaluates.visited miss found idle body run).constant_spans h hdepth
  | @reference target _ _ _ plain _ ih =>
      have hlevels : (Literal.reference target).levels (valueLevels limit) = valueLevels limit := by
        rw [Literal.levels, plain]
        rfl
      rw [Query.Spans, hlevels]
      exact ih h hdepth
  | member =>
      intro value hvalue
      rw [Program.memberValue?_toJson_depth hvalue]
      exact Literal.levels_pos _ (Nat.succ_pos _)
  | scalar _ plain =>
      rintro value rfl
      rw [Literal.scalar?_toJson_depth plain]
      exact Literal.levels_pos _ (Nat.succ_pos _)
  | object room _ ih =>
      rintro value ⟨⟩
      exact Value.object_toJson_depth_le.mpr (ih h room)
  | array room _ ih =>
      rintro value ⟨⟩
      exact Value.array_toJson_depth_le.mpr (ih h room)
  | noElements | noEntries => exact List.forall_mem_nil _
  | element first _ ih₁ ih₂ =>
      have hfirst := ih₁ h hdepth
      have hmore := ih₂ (first.measured h) (first.frame.2 ▸ hdepth)
      intro item hitem
      rw [elementsLevels]
      rcases List.mem_append.mp hitem with hitem | hitem
      · exact le_max_of_le_left (hfirst item (Option.mem_toList.mp hitem))
      · exact le_max_of_le_right (hmore item hitem)
  | field first _ ih₁ ih₂ =>
      have hfirst := ih₁ h hdepth
      have hmore := ih₂ (first.measured h) (first.frame.2 ▸ hdepth)
      intro entry hentry
      rw [entriesLevels]
      rcases List.mem_append.mp hentry with hentry | hentry
      · obtain ⟨value, hvalue, rfl⟩ := List.mem_map.mp hentry
        exact le_max_of_le_left
          (Nat.add_le_add_left (hfirst value (Option.mem_toList.mp hvalue)) 1)
      · exact le_max_of_le_right (hmore entry hentry)
  | spread _ first _ ih₁ ih₂ =>
      have hfirst := ih₁ h hdepth
      have hmore := ih₂ (first.measured h) (first.frame.2 ▸ hdepth)
      intro entry hentry
      rw [entriesLevels]
      rcases List.mem_append.mp hentry with hentry | hentry
      · obtain ⟨entries, hvalue, hentry⟩ := mem_spreadEntries hentry
        have hobject : (Value.object entries).toJson.depth ≤ valueLevels limit := hfirst _ hvalue
        have hunder := Value.object_toJson_depth_le.mp
          (Nat.le_trans hobject (Nat.le_add_left _ 2)) entry hentry
        exact le_max_of_le_left hunder
      · exact le_max_of_le_right (hmore entry hentry)
  | memberSpread _ _ ih =>
      intro entry hentry
      rw [entriesLevels]
      exact le_max_of_le_right (ih h hdepth entry hentry)

theorem literal_depth_le {literal : Literal} {value? : Option Value}
    (run : Evaluates program limit (.literal literal) st value? st') (h : st.Measured)
    (hdepth : st.depth ≤ limit) :
    value?.elim 0 (·.toJson.depth) ≤
      min (valueLevels limit) (literal.levels (valueLevels limit)) := by
  cases value? with
  | none => exact Nat.zero_le _
  | some value =>
      have hnests := run.nests_succ h hdepth value rfl
      have hcapped : value.depth ≤ limit + 1 := by omega
      exact Nat.le_min.mpr ⟨Value.toJson_depth_le hcapped, run.spans h hdepth value rfl⟩

end Evaluates

/-! ## Declared fields -/

/-- The levels of the document of an annotation. -/
def AnnotationDecl.levels (limit : Nat) (decl : AnnotationDecl) : Nat :=
  1 + decl.argument.elim 0 fun literal =>
    min (valueLevels limit) (literal.levels (valueLevels limit))

/-- The most levels among the documents of annotations. -/
def annotationsLevels (limit : Nat) : List AnnotationDecl → Nat
  | [] => 0
  | decl :: rest => max (decl.levels limit) (annotationsLevels limit rest)

mutual

/-- The levels of the document of a declared type, if its spreads bring in nothing. -/
def FieldType.levels (limit : Nat) : FieldType → Nat
  | ⟨base, dims⟩ => if dims = 0 then base.levels limit else 1 + base.levels limit

/-- The levels of the document of a base, if its spreads bring in nothing. -/
def BaseType.levels (limit : Nat) : BaseType → Nat
  | .primitive _ | .custom _ => 1
  | .map value => 1 + value.levels limit
  | .object body => body.levels limit

/-- The levels of the document of an inline object: its own, that of the list of its fields, and
those of the fields. -/
def InlineObject.levels (limit : Nat) : InlineObject → Nat
  | ⟨fields, _⟩ => 2 + fieldsLevels limit fields

/-- The levels of the document of a declared field, in which the annotations are a list. -/
def FieldDecl.levels (limit : Nat) : FieldDecl → Nat
  | ⟨_, _, annotations, _, type⟩ =>
      1 + max (1 + annotationsLevels limit annotations) (type.levels limit)

/-- The levels of the documents of declared fields, if their spreads bring in nothing. -/
def fieldsLevels (limit : Nat) : List FieldDecl → Nat
  | [] => 0
  | field :: rest => max (field.levels limit) (fieldsLevels limit rest)

end

mutual

/-- How many levels down in the document of a declared type the fields stand that the spreads of
an inline object bring in, for each inline object that has spreads. -/
def FieldType.reaches : FieldType → List Nat
  | ⟨base, dims⟩ => if dims = 0 then base.reaches else base.reaches.map (1 + ·)

/-- How far down in the document of a base fields are brought in. -/
def BaseType.reaches : BaseType → List Nat
  | .primitive _ | .custom _ => []
  | .map value => value.reaches.map (1 + ·)
  | .object body => body.reaches

/-- How far down in the document of an inline object fields are brought in. Its own spreads bring
them in beside its own fields, two levels down. -/
def InlineObject.reaches : InlineObject → List Nat
  | ⟨fields, []⟩ => (fieldsReaches fields).map (2 + ·)
  | ⟨fields, _ :: _⟩ => 2 :: (fieldsReaches fields).map (2 + ·)

/-- How far down in the document of a declared field other fields are brought in. -/
def FieldDecl.reaches : FieldDecl → List Nat
  | ⟨_, _, _, _, type⟩ => type.reaches.map (1 + ·)

/-- How far down in the documents of declared fields other fields are brought in. -/
def fieldsReaches : List FieldDecl → List Nat
  | [] => []
  | field :: rest => field.reaches ++ fieldsReaches rest

end

namespace Program

/-- How far below a field of a declared type others are brought in at most. -/
def reach (program : Program) : Nat :=
  (program.types.sorted.flatMap (fieldsReaches ·.fields)).max?.getD 0

/-- How deep the fields of declared types nest at most, if their spreads bring in nothing. -/
def levels (program : Program) (limit : Nat) : Nat :=
  (program.types.sorted.map (fieldsLevels limit ·.fields)).max?.getD 0

variable {program : Program} {key : String} {decl : TypeDecl}

theorem le_reach (found : program.types.find? key = some decl) {far : Nat}
    (h : far ∈ fieldsReaches decl.fields) : far ≤ program.reach :=
  List.le_max?_getD_of_mem (List.mem_flatMap.mpr ⟨decl, Table.mem_sorted.mpr ⟨key, found⟩, h⟩)

theorem le_levels (limit : Nat) (found : program.types.find? key = some decl) :
    fieldsLevels limit decl.fields ≤ program.levels limit :=
  List.le_max?_getD_of_mem
    (List.mem_map.mpr ⟨decl, Table.mem_sorted.mpr ⟨key, found⟩, rfl⟩)

end Program

/-! ## Flattening -/

namespace Annotates

variable {program : Program} {limit : Nat} {st st' : Lowering}

theorem later {decl : AnnotationDecl} {result : Annotation}
    (run : Annotates program limit decl st result st') :
    program.Later limit st.resolver st'.resolver := by
  rw [show st' = (program.lowerAnnotation limit decl st).2 by rw [run.computed]]
  exact (Program.lowerAnnotation_visited decl st).later

theorem depth_le {decl : AnnotationDecl} {result : Annotation}
    (run : Annotates program limit decl st result st')
    (start : program.Later limit {} st.resolver) : result.toJson.depth ≤ decl.levels limit := by
  have hclosed : st.resolver.depth ≤ limit := start.frame.2.1 ▸ Nat.zero_le limit
  rw [result.toJson_depth, AnnotationDecl.levels]
  refine Nat.add_le_add_left ?_ 1
  cases run with
  | bare none => exact Nat.zero_le _
  | argued given run =>
      rw [given]
      exact run.literal_depth_le start.measured hclosed

end Annotates

theorem Each.annotations_later {program : Program} {limit : Nat} {decls : List AnnotationDecl}
    {st st' : Lowering} {results : List Annotation}
    (run : AnnotatesEach program limit decls st results st') :
    program.Later limit st.resolver st'.resolver := by
  induction run with
  | nil => exact .refl
  | cons first _ ih => exact first.later.trans ih

theorem Each.annotations_depth_le {program : Program} {limit : Nat} {decls : List AnnotationDecl}
    {st st' : Lowering} {results : List Annotation}
    (run : AnnotatesEach program limit decls st results st')
    (start : program.Later limit {} st.resolver) :
    annotationsDepth results ≤ annotationsLevels limit decls := by
  induction run with
  | nil => exact Nat.le_refl 0
  | cons first _ ih =>
      have hfirst := first.depth_le start
      have hmore := ih (start.trans first.later)
      rw [annotationsDepth] at hmore ⊢
      rw [List.map_cons, Json.itemsDepth, annotationsLevels]
      omega

namespace Program

/-- How deep the fields of declared types nest at most when so many levels are left, of which an
object and a spread take one each. -/
def expandedLevels (program : Program) (limit left : Nat) : Nat :=
  left / 2 * program.reach + program.levels limit

theorem expandedLevels_mono (program : Program) (limit : Nat) {left more : Nat} (h : left ≤ more) :
    program.expandedLevels limit left ≤ program.expandedLevels limit more :=
  Nat.add_le_add_right (Nat.mul_le_mul_right program.reach (Nat.div_le_div_right h)) _

theorem expandedLevels_add_two (program : Program) (limit left : Nat) :
    program.expandedLevels limit (left + 2) =
      program.reach + program.expandedLevels limit left := by
  rw [expandedLevels, expandedLevels, Nat.add_div_right left (by decide), Nat.succ_mul]
  omega

end Program

/-- Below the bound there is room for so many levels, and for fields that are brought in so far
down inside an object that is opened at the given depth. -/
structure Room (program : Program) (limit depth own : Nat) (reaches : List Nat)
    (bound : Nat) : Prop where
  own_le : own ≤ bound
  reaches_le : depth + 2 ≤ limit → ∀ far ∈ reaches,
    far + program.expandedLevels limit (limit - (depth + 2)) ≤ bound

namespace Room

variable {program : Program} {limit depth own more bound : Nat} {reaches others : List Nat}

/-- Levels that everything stands under are taken off the bound. -/
theorem shift {outer : Nat}
    (h : Room program limit depth (outer + own) (reaches.map (outer + ·)) bound) :
    ∃ rest, bound = outer + rest ∧ Room program limit depth own reaches rest := by
  have hown := h.own_le
  refine ⟨bound - outer, by omega, by omega, fun hdepth far hfar => ?_⟩
  have hfar := h.reaches_le hdepth (outer + far) (List.mem_map_of_mem hfar)
  omega

theorem deeper (h : Room program limit depth own reaches bound) :
    Room program limit (depth + 1) own reaches bound := by
  refine ⟨h.own_le, fun hdepth far hfar => ?_⟩
  have hfar := h.reaches_le (by omega) far hfar
  have hmono : program.expandedLevels limit (limit - (depth + 1 + 2)) ≤
      program.expandedLevels limit (limit - (depth + 2)) :=
    program.expandedLevels_mono limit (by omega)
  omega

theorem split (h : Room program limit depth (max own more) (reaches ++ others) bound) :
    Room program limit depth own reaches bound ∧
      Room program limit depth more others bound := by
  obtain ⟨hown, hmore⟩ := Nat.max_le.mp h.own_le
  refine ⟨⟨hown, fun hdepth far hfar => ?_⟩, ⟨hmore, fun hdepth far hfar => ?_⟩⟩
  · exact h.reaches_le hdepth far (List.mem_append_left _ hfar)
  · exact h.reaches_le hdepth far (List.mem_append_right _ hfar)

end Room

namespace FieldQuery

/-- How deep the document of what is answered nests. -/
def depth : (query : FieldQuery) → query.Answer → Nat
  | .type _ => fun answer => answer.toJson.depth
  | .base _ => fun answer => answer.toJson.depth
  | .object _ => fun answer => 2 + fieldsDepth answer
  | .field _ => fun answer => answer.toJson.depth
  | .fields _ => fieldsDepth
  | .spreads _ _ => fun answer => fieldsDepth answer.1

/-- There is room for what is answered at a depth. Spreads only bring in fields, one level
further. -/
def HasRoom (program : Program) (limit depth bound : Nat) : FieldQuery → Prop
  | .type declared =>
      Room program limit depth (declared.levels limit) declared.reaches bound
  | .base declared =>
      Room program limit depth (declared.levels limit) declared.reaches bound
  | .object body => Room program limit depth (body.levels limit) body.reaches bound
  | .field decl => Room program limit depth (decl.levels limit) decl.reaches bound
  | .fields decls =>
      Room program limit depth (fieldsLevels limit decls) (fieldsReaches decls) bound
  | .spreads _ _ => depth < limit → program.expandedLevels limit (limit - (depth + 1)) ≤ bound

end FieldQuery

namespace Program

theorem note_later (program : Program) (limit : Nat) (st : Lowering) (event : Event) :
    program.Later limit st.resolver (st.note event).resolver :=
  (Visited.note st.resolver event).later

/-- Where a declaration is entered there is room for its fields. -/
theorem hasRoom_fields {program : Program} {limit depth bound : Nat} {key : String}
    {decl : TypeDecl} (found : program.types.find? key = some decl)
    (room : program.expandedLevels limit (limit - depth) ≤ bound) :
    (FieldQuery.fields decl.fields).HasRoom program limit depth bound := by
  have hlevels := le_levels limit found
  refine ⟨?_, fun hdepth far hfar => ?_⟩
  · rw [expandedLevels] at room
    omega
  · have hreach := le_reach found hfar
    have hexpanded := program.expandedLevels_add_two limit (limit - (depth + 2))
    rw [show limit - (depth + 2) + 2 = limit - depth by omega] at hexpanded
    omega

end Program

namespace Flattens

variable {program : Program} {limit : Nat} {query : FieldQuery} {st st' : Lowering}
  {answer : query.Answer}

theorem later (run : Flattens program limit query st answer st') :
    program.Later limit st.resolver st'.resolver := by
  induction run with
  | plain _ ih | array _ _ ih | map _ ih | inline _ ih => exact ih
  | primitive => exact (Program.lowerPrimitive_visited _ _).later
  | custom | noFields | noSpreads => exact .refl
  | refusedObject => exact program.note_later limit _ _
  | object _ _ _ ih₁ ih₂ => exact ih₁.trans ih₂
  | field annotated _ ih => exact annotated.annotations_later.trans ih
  | moreFields _ _ ih₁ ih₂ => exact ih₁.trans ih₂
  | memberSpread _ _ ih | undeclaredSpread _ _ _ _ ih => exact ih
  | circularSpread _ _ _ ih | refusedSpread _ _ _ _ _ ih =>
      exact (program.note_later limit _ _).trans ih
  | spread _ _ _ _ _ _ _ ih₁ ih₂ ih₃ => exact (ih₁.trans ih₂).trans ih₃

/-- What is answered keeps a bound if there is room below it. The levels that objects and spreads
open come off those that are left, and so the room for what they bring in shrinks. -/
theorem depth_le (run : Flattens program limit query st answer st')
    (start : program.Later limit {} st.resolver) {bound : Nat}
    (room : query.HasRoom program limit st.depth bound) : query.depth answer ≤ bound := by
  induction run generalizing bound with
  | plain _ ih =>
      rw [FieldQuery.HasRoom, FieldType.levels, FieldType.reaches, if_pos rfl, if_pos rfl] at room
      exact ih start room
  | array dimensions _ ih =>
      rw [FieldQuery.HasRoom, FieldType.levels, FieldType.reaches, if_neg dimensions,
        if_neg dimensions] at room
      obtain ⟨rest, rfl, hrest⟩ := room.shift
      have hitem := ih start hrest
      simp only [FieldQuery.depth, TypeRef.toJson, Json.depth, Json.membersDepth] at hitem ⊢
      omega
  | primitive => exact (Program.lowerPrimitive_simple _ _).depth.trans_le room.own_le
  | custom => exact (program.namedType_simple _).depth.trans_le room.own_le
  | map _ ih =>
      obtain ⟨rest, rfl, hrest⟩ := Room.shift room
      have hvalue := ih start hrest
      simp only [FieldQuery.depth, TypeRef.toJson, Json.depth, Json.membersDepth] at hvalue ⊢
      omega
  | inline _ ih =>
      have hbody := ih start room
      simp only [FieldQuery.depth, fieldsDepth, TypeRef.toJson, Json.depth, Json.membersDepth]
        at hbody ⊢
      omega
  | refusedObject => exact Nat.le_trans (Nat.le_add_right 2 _) room.own_le
  | @object fields spreads _ _ _ st st₁ _ _ before _ ih₁ ih₂ =>
      have hframe : st₁.depth = st.depth + 1 := before.frame
      have hown : Room program limit st.depth (2 + fieldsLevels limit fields)
          ((fieldsReaches fields).map (2 + ·)) bound := by
        refine ⟨room.own_le, fun hdepth far hfar => room.reaches_le hdepth far ?_⟩
        cases spreads with
        | nil => exact hfar
        | cons => exact List.mem_cons_of_mem _ hfar
      obtain ⟨rest, rfl, hrest⟩ := hown.shift
      refine Nat.add_le_add_left (fieldsDepth_append_le.mpr ⟨?_, ?_⟩) 2
      · cases spreads with
        | nil =>
            cases before
            exact Nat.zero_le _
        | cons spread others =>
            refine ih₁ start fun hdepth => ?_
            have hfar := room.reaches_le hdepth 2 List.mem_cons_self
            exact Nat.le_of_add_le_add_left hfar
      · exact ih₂ (start.trans before.later) (hframe ▸ hrest.deeper)
  | @field _ _ _ _ type _ _ st _ _ annotated _ ih =>
      obtain ⟨rest, rfl, hrest⟩ := Room.shift room
      obtain ⟨hannotations, htype⟩ := Nat.max_le.mp hrest.own_le
      have hresults := annotated.annotations_depth_le start
      have hroom : Room program limit st.depth (type.levels limit) type.reaches rest :=
        ⟨htype, hrest.reaches_le⟩
      rw [← annotated.annotations_frame.1] at hroom
      have hresult := ih (start.trans annotated.annotations_later) hroom
      simp only [FieldQuery.depth, Field.toJson_depth] at hresult ⊢
      omega
  | noFields | noSpreads => exact Nat.zero_le _
  | moreFields first _ ih₁ ih₂ =>
      obtain ⟨hfirst, hmore⟩ := Room.split room
      have hresult := ih₁ start hfirst
      have hothers := ih₂ (start.trans first.later) (first.frame ▸ hmore)
      exact Nat.max_le.mpr ⟨hresult, hothers⟩
  | memberSpread _ _ ih | undeclaredSpread _ _ _ _ ih => exact ih start room
  | circularSpread _ _ _ ih | refusedSpread _ _ _ _ _ ih =>
      exact ih (start.trans (program.note_later limit _ _)) room
  | @spread _ _ _ _ target _ _ _ st st₁ st₂ _ _ _ found hdepth before after _ ih₁ ih₂ ih₃ =>
      have hframe : st₁.depth = st.depth + 1 := before.frame
      have hleave := before.closed_depth after
      have hlater := start.trans before.later
      have hroom := room hdepth
      refine fieldsDepth_append_le.mpr ⟨fieldsDepth_append_le.mpr ⟨?_, ?_⟩, ?_⟩
      · refine ih₁ start fun _ => Nat.le_trans (program.expandedLevels_mono limit ?_) hroom
        exact Nat.sub_le_sub_left (Nat.le_succ _) limit
      · exact ih₂ hlater (hframe ▸ Program.hasRoom_fields found hroom)
      · exact ih₃ (hlater.trans after.later) (hleave ▸ room)

end Flattens

/-! ## Schemas -/

namespace Program

variable {program : Program} {limit : Nat}

/-- Each result of the steps of a run is made by one of them on the way. -/
theorem exists_later_of_mem_eachStep {α β : Type} {step : α → Step β} {items : List α}
    {st : Lowering} {b : β}
    (h : ∀ a st, program.Later limit st.resolver (step a st).2.resolver)
    (start : program.Later limit {} st.resolver) (hmem : b ∈ (eachStep step items st).1) :
    ∃ a ∈ items, ∃ mid, program.Later limit {} mid.resolver ∧ (step a mid).1 = b := by
  induction items generalizing st with
  | nil => cases hmem
  | cons a rest ih =>
      rcases List.mem_cons.mp hmem with rfl | hmem
      · exact ⟨a, List.mem_cons_self, st, start, rfl⟩
      · obtain ⟨other, hother, found⟩ := ih (start.trans (h a st)) hmem
        exact ⟨other, List.mem_cons_of_mem _ hother, found⟩

theorem typeFields_depth_le {key : String} {decl : TypeDecl} {st : Lowering}
    (found : program.types.find? key = some decl) (start : program.Later limit {} st.resolver) :
    fieldsDepth (program.typeFields limit decl st).1 ≤ program.expandedLevels limit limit := by
  have hinherited := program.flattens_flatten limit (.spreads decl.spreads [decl.name]) st
  have hown := program.flattens_flatten limit (.fields decl.fields)
    (program.flatten limit (.spreads decl.spreads [decl.name]) st).2
  rw [typeFields]
  refine fieldsDepth_append_le.mpr ⟨hinherited.depth_le start fun _ => ?_,
    hown.depth_le (start.trans hinherited.later) (hasRoom_fields found ?_)⟩
  · exact program.expandedLevels_mono limit (Nat.sub_le limit _)
  · exact program.expandedLevels_mono limit (Nat.sub_le limit _)

theorem lower_field_depth_le {type : TypeDef} (htype : type ∈ (program.lower limit).schema.types)
    {field : Field} (hfield : field ∈ type.fields) :
    field.toJson.depth ≤ program.expandedLevels limit limit := by
  have hsteps (decl : TypeDecl) (st : Lowering) :
      program.Later limit st.resolver (program.lowerType limit decl st).2.resolver :=
    (lowerType_visited decl st).later
  obtain ⟨decl, hdecl, st, start, rfl⟩ :=
    exists_later_of_mem_eachStep hsteps .refl (mem_sortByName.mp htype)
  obtain ⟨key, found⟩ := Table.mem_sorted.mp hdecl
  let noted := st.note (.convertingType decl.name)
  have hnoted := start.trans (program.note_later limit st (.convertingType decl.name))
  have hannotated := hnoted.trans
    (lowerAnnotations_visited program limit decl.annotations noted).later
  exact fieldsDepth_le.mp (typeFields_depth_le found hannotated) field hfield

end Program

/-- A text is decoded if its document is not too deep. -/
theorem Schema.decode_render (schema : Schema) (settings : EmitSettings)
    (floats : ∀ x ∈ schema.floats, Json.Rereads x) :
    (Json.parse? (schema.render settings)).bind (Schema.decode .json) =
      Reading.json.given schema.toJson.depth schema := by
  rw [render, Json.parse?_render (layout settings) (schema.toJson_readable floats),
    Option.bind_some]
  exact schema.decode_reads .json

namespace Program

/-- Under the default limit, the document of a lowered schema nests at most 127 levels if and only
if no field of a type in it nests more than 123; nothing else in it can get that deep. How deep
it gets is bounded by two numbers of the program, and where they leave room the schema is read
again from its text. -/
theorem lower_readable (program : Program) (settings : EmitSettings) :
    let schema := (program.lower defaultLimit).schema
    (schema.toJson.depth ≤ 127 ↔
      ∀ type ∈ schema.types, ∀ field ∈ type.fields, field.toJson.depth ≤ 123) ∧
    schema.toJson.depth ≤ max 105 (4 + (16 * program.reach + program.levels defaultLimit)) ∧
    (16 * program.reach + program.levels defaultLimit ≤ 123 →
      (∀ x ∈ schema.floats, Json.Rereads x) →
      Schema.ofJson (schema.render settings) = .ok schema) := by
  intro schema
  have hlevels : valueLevels defaultLimit + 7 = 105 := rfl
  have hexpanded : program.expandedLevels defaultLimit defaultLimit =
      16 * program.reach + program.levels defaultLimit := rfl
  have hfields : ∀ type ∈ schema.types, ∀ field ∈ type.fields,
      field.toJson.depth ≤ 16 * program.reach + program.levels defaultLimit :=
    fun type htype field hfield => hexpanded ▸ lower_field_depth_le htype hfield
  have hdepth : schema.toJson.depth ≤
      max 105 (4 + (16 * program.reach + program.levels defaultLimit)) := by
    refine (lower_depth_le_iff (Nat.le_max_left _ _)).mpr fun type htype field hfield => ?_
    have := hfields type htype field hfield
    omega
  refine ⟨?_, hdepth, fun room floats => ?_⟩
  · rw [lower_depth_le_iff (by decide)]
    constructor
    · intro h type htype field hfield
      have := h type htype field hfield
      omega
    · intro h type htype field hfield
      have := h type htype field hfield
      omega
  · have hfits : Reading.json.fits schema.toJson.depth = true := by
      have hshallow : schema.toJson.depth ≤ 127 := by omega
      exact decide_eq_true hshallow
    rw [Schema.ofJson, schema.decode_render settings floats, Reading.given, if_pos hfits]

/-- A type with a list of objects in which it is spread itself. -/
def nestedBoxes : Program :=
  let box := (FieldType.object (({} : InlineObject).withSpread "Box")).arrayOf 1
  ({} : Program).declareType ((TypeDecl.called "Box").withField (.called "boxes" box))

/-- The boxes are put into each other sixteen times, which is as deep as the numbers allow. -/
theorem lower_readable_nestedBoxes :
    let schema := (nestedBoxes.lower defaultLimit).schema
    nestedBoxes.reach = 4 ∧ nestedBoxes.levels defaultLimit = 4 ∧ schema.toJson.depth = 72 ∧
      Schema.ofJson (schema.render { minify := true }) = .ok schema := by
  intro schema
  have hreach : nestedBoxes.reach = 4 := by decide +kernel
  have hlevels : nestedBoxes.levels defaultLimit = 4 := by decide +kernel
  have hfloats : schema.floats = [] := by decide +kernel
  refine ⟨hreach, hlevels, by decide +kernel, ?_⟩
  obtain ⟨-, -, hread⟩ := lower_readable nestedBoxes { minify := true }
  refine hread (by rw [hreach, hlevels]; decide) fun x hx => ?_
  rw [hfloats] at hx
  cases hx

/-- A type that is spread in arrays and maps around each other. -/
def overgrown : Program :=
  let body := (FieldType.object (({} : InlineObject).withSpread "T")).arrayOf 1
  let inner := (FieldType.map body).arrayOf 1
  ({} : Program).declareType
    ((TypeDecl.called "T").withField (.called "f" ((FieldType.map inner).arrayOf 1)))

/-- The JSON text of that program. -/
def overgrownText : String :=
  String.ofList ([
    "\x7b\"types\":\x7b\"T\":\x7b\"name\":\"T\",\"fields\":[\x7b\"name\":\"f\",\"type\":",
    "\x7b\"arrayDims\":1,\"base\":\x7b\"kind\":\"map\",\"value\":",
    "\x7b\"arrayDims\":1,\"base\":\x7b\"kind\":\"map\",\"value\":",
    "\x7b\"arrayDims\":1,\"base\":\x7b\"kind\":\"object\",\"spreads\":[\x7b\"name\":\"T\"\x7d]",
    "\x7d\x7d\x7d\x7d\x7d\x7d\x7d]\x7d\x7d\x7d"].flatMap String.toList)

/-- What that text is read as. -/
def overgrownNode : Node :=
  let body := .map [(.string "arrayDims", .int 1), (.string "base",
    .map [(.string "kind", .string "object"),
      (.string "spreads", .seq [.map [(.string "name", .string "T")]])])]
  let inner := .map [(.string "arrayDims", .int 1),
    (.string "base", .map [(.string "kind", .string "map"), (.string "value", body)])]
  let outer := .map [(.string "arrayDims", .int 1),
    (.string "base", .map [(.string "kind", .string "map"), (.string "value", inner)])]
  .map [(.string "types", .map [(.string "T", .map [(.string "name", .string "T"),
    (.string "fields", .seq [.map [(.string "name", .string "f"), (.string "type", outer)]])])])]

/-- A program that is read without complaint gets a schema that is not. -/
theorem overgrown_unreadable :
    let schema := (overgrown.lower defaultLimit).schema
    Program.ofJson overgrownText = .ok overgrown ∧
      overgrown.reach = 8 ∧ overgrown.levels defaultLimit = 8 ∧ schema.toJson.depth = 140 ∧
      Schema.ofJson (schema.render { minify := true }) = .error .json := by
  intro schema
  have parsed : Json.parse? overgrownText = some overgrownNode :=
    Json.parse?_of_chars String.toList_ofList (by decide +kernel)
  have decoded : Program.decode .json overgrownNode = some overgrown := by cbv
  have hdepth : schema.toJson.depth = 140 := by decide +kernel
  have hfloats : schema.floats = [] := by decide +kernel
  refine ⟨?_, by decide +kernel, by decide +kernel, hdepth, ?_⟩
  · rw [Program.ofJson, parsed, Option.bind_some, decoded]
  · rw [Schema.ofJson, schema.decode_render { minify := true } (by rw [hfloats]; simp), hdepth]
    rfl

end Program

end SchemaIR
