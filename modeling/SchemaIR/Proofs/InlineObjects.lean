import Mathlib
import SchemaIR.Proofs.Inventory
import SchemaIR.Proofs.Visits

/-!
# Inline objects inside one another

An inline object starts a chain of its own, so a type may be spread again inside an inline object
of one of its fields, and a type declared under another name may even be spread in itself. Then
only the levels keep the emitted types finite. An inline object that is entered uses up one, and
where none is left it is emitted without fields. Arrays and maps use up none and hold whatever
their elements hold. So what is emitted at a depth holds as many inline objects inside one another
as there are levels above the depth, and the one that is refused.

This counts levels the way the run does, which is right only because the run closes every level
it opens, and closes it where it is the last one that is open.
-/

namespace SchemaIR

mutual

/-- How many inline objects a type holds inside one another. -/
def TypeRef.objects : TypeRef → Nat
  | .array item _ => item.objects
  | .map value => value.objects
  | .object fields => fieldsObjects fields + 1
  | .primitive _ | .named _ | .enumeration _ _ => 0

/-- How many inline objects the types of fields hold inside one another at most. -/
def fieldsObjects : List Field → Nat
  | [] => 0
  | ⟨_, _, _, _, type⟩ :: rest => max type.objects (fieldsObjects rest)

end

theorem fieldsObjects_cons (field : Field) (rest : List Field) :
    fieldsObjects (field :: rest) = max field.type.objects (fieldsObjects rest) := by
  obtain ⟨name, doc, optional, annotations, type⟩ := field
  rfl

theorem fieldsObjects_append (fields more : List Field) :
    fieldsObjects (fields ++ more) = max (fieldsObjects fields) (fieldsObjects more) := by
  induction fields with
  | nil => exact (Nat.zero_max _).symm
  | cons field rest ih =>
      rw [List.cons_append, fieldsObjects_cons, fieldsObjects_cons, ih, Nat.max_assoc]

theorem objects_le_fieldsObjects {field : Field} {fields : List Field} (h : field ∈ fields) :
    field.type.objects ≤ fieldsObjects fields := by
  induction fields with
  | nil => cases h
  | cons other rest ih =>
      rw [fieldsObjects_cons]
      rcases List.mem_cons.mp h with rfl | h
      · exact Nat.le_max_left _ _
      · exact Nat.le_trans (ih h) (Nat.le_max_right _ _)

namespace FieldQuery

/-- How many inline objects an answer holds inside one another. -/
def objects : (query : FieldQuery) → query.Answer → Nat
  | .type _ => TypeRef.objects
  | .base _ => TypeRef.objects
  | .object _ => fieldsObjects
  | .field _ => fun field => field.type.objects
  | .fields _ => fieldsObjects
  | .spreads _ _ => fun answer => fieldsObjects answer.1

/-- How many inline objects the answer to a query at a depth has room for. The fields of an
inline object have room for one less, since they are inside one already. -/
def room (limit depth : Nat) : FieldQuery → Nat
  | .object _ => limit - depth
  | .type _ | .base _ | .field _ | .fields _ | .spreads _ _ => limit - depth + 1

end FieldQuery

theorem TypeRef.Simple.objects {type : TypeRef} (h : type.Simple) : type.objects = 0 := by
  cases h <;> rfl

namespace Flattens

variable {program : Program} {limit : Nat}

/-- The fields inside a level that is open hold no more inline objects than there is room for
inside an inline object. -/
theorem objects_entered {spreads : List Reference} {path : Path} {answer : List Field × Path}
    {own : List Field} {st st₁ : Lowering} (room : st.depth < limit)
    (before : Flattens program limit (.spreads spreads path) st.deeper answer st₁)
    (inherited_le : fieldsObjects answer.1 ≤ limit - st.deeper.depth + 1)
    (own_le : fieldsObjects own ≤ limit - st₁.depth + 1) :
    fieldsObjects (answer.1 ++ own) ≤ limit - st.depth := by
  have hdepth : st₁.depth = st.depth + 1 := before.frame
  rw [hdepth] at own_le
  simp only [Lowering.deeper] at inherited_le
  rw [fieldsObjects_append]
  omega

theorem objects_le {query : FieldQuery} {st st' : Lowering} {answer : query.Answer}
    (run : Flattens program limit query st answer st') :
    query.objects answer ≤ query.room limit st.depth := by
  induction run with
  | plain _ ih | array _ _ ih | map _ ih => exact ih
  | primitive => exact (Program.lowerPrimitive_simple _ _).objects.trans_le (Nat.zero_le _)
  | custom => exact (program.namedType_simple _).objects.trans_le (Nat.zero_le _)
  | inline _ ih => exact Nat.succ_le_succ ih
  | refusedObject | noFields | noSpreads => exact Nat.zero_le _
  | object room before _ ih₁ ih₂ => exact before.objects_entered room ih₁ ih₂
  | field annotated _ ih =>
      rw [annotated.annotations_frame.1] at ih
      exact ih
  | moreFields first _ ih₁ ih₂ =>
      rw [first.frame] at ih₂
      rw [FieldQuery.objects, fieldsObjects_cons]
      exact Nat.max_le.mpr ⟨ih₁, ih₂⟩
  | memberSpread _ _ ih | circularSpread _ _ _ ih | undeclaredSpread _ _ _ _ ih
  | refusedSpread _ _ _ _ _ ih => exact ih
  | @spread _ _ _ _ _ inherited own others st _ _ _ _ _ _ room before after _ ih₁ ih₂ ih₃ =>
      -- A spread uses up a level as well, though its fields are not inside another object.
      have hinside : fieldsObjects (inherited ++ own) ≤ limit - st.depth :=
        before.objects_entered room ih₁ ih₂
      have hothers : fieldsObjects others.1 ≤ limit - st.depth + 1 := by
        rw [before.closed_depth after] at ih₃
        exact ih₃
      show fieldsObjects (inherited ++ own ++ others.1) ≤ limit - st.depth + 1
      rw [fieldsObjects_append]
      omega

end Flattens

namespace Program

variable {program : Program} {limit : Nat}

/-- What is done inside a level that is opened for a body: its spreads are expanded, and then its
own fields are converted. -/
def inside (program : Program) (limit : Nat) (body : InlineObject) (path : Path) :
    Step (List Field × Path) := fun st =>
  let inherited := program.flatten limit (.spreads body.spreads path) st.deeper
  let own := program.flatten limit (.fields body.fields) inherited.2
  ((inherited.1.1 ++ own.1, inherited.1.2), own.2)

theorem inside_depth (program : Program) (limit : Nat) (body : InlineObject) (path : Path)
    (st : Lowering) : (program.inside limit body path st).2.depth = st.depth + 1 :=
  (program.flattens_flatten limit (.spreads body.spreads path) st.deeper).closing_depth
    (program.flattens_flatten limit (.fields body.fields) _)

theorem flatten_object {body : InlineObject} {st : Lowering} (room : st.depth < limit) :
    program.flatten limit (.object body) st =
      ((program.inside limit body [] st).1.1, (program.inside limit body [] st).2.leave) := by
  obtain ⟨fields, spreads⟩ := body
  exact flatten_eq_iff.mpr (.object room
    (program.flattens_flatten limit (.spreads spreads []) st.deeper)
    (program.flattens_flatten limit (.fields fields) _))

theorem flatten_refused {body : InlineObject} {st : Lowering} (full : limit ≤ st.depth) :
    program.flatten limit (.base (.object body)) st = (.object [], st.refuse limit) := by
  obtain ⟨fields, spreads⟩ := body
  exact flatten_eq_iff.mpr (.inline (.refusedObject full))

theorem flatten_spread {spread : Reference} {path : Path} {target : TypeDecl} {st : Lowering}
    (plain : spread.member.isSome = false) (idle : spread.name ∉ path)
    (found : program.types.find? spread.name = some target) (room : st.depth < limit) :
    let entered := program.inside limit ⟨target.fields, target.spreads⟩ (path.enter target.name) st
    program.flatten limit (.spreads [spread] path) st =
      ((entered.1.1, entered.1.2.leave target.name), entered.2.leave) := by
  have run := Flattens.spread plain idle found room
    (program.flattens_flatten limit (.spreads target.spreads (path.enter target.name)) st.deeper)
    (program.flattens_flatten limit (.fields target.fields) _) .noSpreads
  rw [List.append_nil] at run
  exact flatten_eq_iff.mpr run

theorem typeFields_depth (program : Program) (limit : Nat) (decl : TypeDecl) (st : Lowering) :
    (program.typeFields limit decl st).2.depth = st.depth := by
  have before := program.flattens_flatten limit (.spreads decl.spreads [decl.name]) st
  have after := program.flattens_flatten limit (.fields decl.fields)
    (program.flatten limit (.spreads decl.spreads [decl.name]) st).2
  exact after.frame.trans before.frame

theorem emitted_objects_le {decl : TypeDecl} {type : TypeDef}
    (lowered : Taken (LowersType program limit) decl type) :
    fieldsObjects type.fields ≤ limit + 1 := by
  obtain ⟨st, st', outermost, annotated, before, after⟩ := lowered
  have hdepth := annotated.annotations_frame.1.trans outermost
  have hinherited := before.objects_le
  have hown := after.objects_le
  rw [before.frame] at hown
  rw [hdepth] at hinherited hown
  rw [fieldsObjects_append]
  exact Nat.max_le.mpr ⟨hinherited, hown⟩

/-- Whatever the types are declared under and wherever they are spread, the type of an emitted
field holds at most one inline object more than the limit inside one another. Where no level is
left an inline object is emitted without fields. Every query and every type is answered with as
many levels open as there were before. So a level that is opened for an inline object or a spread
is closed in a state in which it is the last one open. -/
theorem inline_objects_bounded (program : Program) (limit : Nat) :
    (∀ type ∈ (program.lower limit).schema.types, ∀ field ∈ type.fields,
      field.type.objects ≤ limit + 1) ∧
    (∀ body (st : Lowering), limit ≤ st.depth →
      program.flatten limit (.base (.object body)) st = (.object [], st.refuse limit)) ∧
    (∀ query st, (program.flatten limit query st).2.depth = st.depth) ∧
    (∀ decl st, (program.typeFields limit decl st).2.depth = st.depth) ∧
    (∀ body (st : Lowering), st.depth < limit →
      program.flatten limit (.object body) st =
        ((program.inside limit body [] st).1.1, (program.inside limit body [] st).2.leave)) ∧
    (∀ (spread : Reference) (path : Path) target (st : Lowering),
      spread.member.isSome = false → spread.name ∉ path →
      program.types.find? spread.name = some target → st.depth < limit →
      let entered :=
        program.inside limit ⟨target.fields, target.spreads⟩ (path.enter target.name) st
      program.flatten limit (.spreads [spread] path) st =
        ((entered.1.1, entered.1.2.leave target.name), entered.2.leave)) ∧
    ∀ body path st, (program.inside limit body path st).2.depth = st.depth + 1 := by
  refine ⟨?_, fun body st => flatten_refused, fun query st => ?_, program.typeFields_depth limit,
    fun body st => flatten_object, fun spread path target st => flatten_spread,
    program.inside_depth limit⟩
  · intro type htype field hfield
    obtain ⟨entries, lists, htypes⟩ := program.types_listed limit
    rw [htypes] at htype
    obtain ⟨entry, hentry, rfl⟩ := List.mem_map.mp htype
    obtain ⟨decl, -, -, lowered⟩ := lists.declared entry hentry
    exact Nat.le_trans (objects_le_fieldsObjects hfield) (emitted_objects_le lowered)
  · exact (program.flattens_flatten limit query st).frame

/-- `Node` is declared as `Tree` and spreads itself by that name, also in an inline object inside
another one. -/
def endless : Program :=
  let inner := ({} : InlineObject).withSpread "Tree"
  let outer := ({} : InlineObject).withField (.called "inner" (.map (.object inner)))
  let node := ((TypeDecl.called "Node").withSpread "Tree").withField
    (.called "outer" ((FieldType.object outer).arrayOf 1))
  { types := Table.empty.insert "Tree" node }

theorem inline_objects_bounded_endless :
    let outer := fun inside => (⟨"outer", none, false, [], .array (.object inside) 1⟩ : Field)
    let inner : Field := ⟨"inner", none, false, [], .map (.object [])⟩
    (endless.lower 1).schema.types.map (·.fields) = [[outer [], outer [inner]]] ∧
      (outer [inner]).type.objects = 2 ∧ (outer [inner]).type.objects ≤ 1 + 1 ∧
      (endless.flatten 1 (.spreads [{ name := "Tree" }] ["Node"]) {}).2.depth = 0 ∧
      (endless.inside 1 ⟨[], [{ name := "Tree" }]⟩ ["Node"] {}).2.depth = 1 := by
  intro outer inner
  have hfields : (endless.lower 1).schema.types.map (·.fields) = [[outer [], outer [inner]]] := by
    cbv
  obtain ⟨hbound, -, hflatten, -, -, -, hinside⟩ := inline_objects_bounded endless 1
  refine ⟨hfields, rfl, ?_, hflatten _ _, hinside _ _ _⟩
  have hmem : [outer [], outer [inner]] ∈ (endless.lower 1).schema.types.map (·.fields) := by
    rw [hfields]
    exact List.mem_singleton_self _
  obtain ⟨type, htype, heq⟩ := List.mem_map.mp hmem
  refine hbound type htype (outer [inner]) ?_
  rw [heq]
  exact List.mem_cons_of_mem _ (List.mem_singleton_self _)

end Program

end SchemaIR
