import SchemaIR.Lowering
import SchemaIR.Proofs.Runs

/-!
# Lowering is a run of one evaluation

Lowering converts types, enumerations and constants, and on its way asks one evaluation
for the arguments of annotations and the values of constants. This file forgets
everything about the conversion but that: whatever is lowered, the state of the
evaluation moves along a run, and every value in the result is the answer to a call made
on that run.
-/

namespace SchemaIR

/-! ## The values in a schema -/

/-- The arguments that annotations have. -/
def annotationsArguments (annotations : List Annotation) : List Value :=
  annotations.flatMap (·.argument.toList)

mutual

/-- The arguments of the annotations in a type, at any depth. -/
def TypeRef.arguments : TypeRef → List Value
  | .array item _ => item.arguments
  | .map value => value.arguments
  | .object fields => fieldsArguments fields
  | .primitive _ | .named _ | .enumeration _ _ => []

/-- The arguments of the annotations of fields and in their types. -/
def fieldsArguments : List Field → List Value
  | [] => []
  | ⟨_, _, _, annotations, type⟩ :: rest =>
      (annotationsArguments annotations ++ type.arguments) ++ fieldsArguments rest

end

/-- The arguments of the annotations of a type and in its fields. -/
def TypeDef.arguments (type : TypeDef) : List Value :=
  annotationsArguments type.annotations ++ fieldsArguments type.fields

/-- The arguments of the annotations of a member. -/
def EnumMember.arguments (member : EnumMember) : List Value :=
  annotationsArguments member.annotations

/-- The arguments of the annotations of an enumeration and of its members. -/
def EnumDef.arguments (enum : EnumDef) : List Value :=
  enum.members.flatMap EnumMember.arguments ++ annotationsArguments enum.annotations

/-- The arguments of the annotations of a constant and in its type. -/
def ConstantDef.arguments (constant : ConstantDef) : List Value :=
  annotationsArguments constant.annotations ++ constant.type.arguments

/-- The arguments of all annotations in a schema. -/
def Schema.arguments (schema : Schema) : List Value :=
  schema.types.flatMap TypeDef.arguments ++ schema.enums.flatMap EnumDef.arguments ++
    schema.constants.flatMap ConstantDef.arguments

theorem fieldsArguments_append (fields more : List Field) :
    fieldsArguments (fields ++ more) = fieldsArguments fields ++ fieldsArguments more := by
  induction fields with
  | nil => rfl
  | cons field rest ih =>
      obtain ⟨name, doc, optional, annotations, type⟩ := field
      simp only [List.cons_append, fieldsArguments, ih, List.append_assoc]

/-- A type that has no other types in it. -/
inductive TypeRef.Simple : TypeRef → Prop where
  | primitive (primitive : Primitive) : Simple (.primitive primitive)
  | named (name : String) : Simple (.named name)
  | enumeration (name : String) (valueType : ValueType) : Simple (.enumeration name valueType)

theorem TypeRef.Simple.arguments {type : TypeRef} (h : type.Simple) : type.arguments = [] := by
  cases h <;> rfl

theorem TypeRef.arrayOf_arguments (type : TypeRef) :
    type.arrayOf.arguments = type.arguments := by
  cases type <;> rfl

mutual

/-- A type that shows in a value has no annotations. -/
theorem Value.inferType_arguments (value : Value) : value.inferType.arguments = [] := by
  match value with
  | .string _ | .int _ | .float _ | .bool _ | .array [] => rfl
  | .object entries => exact inferFields_arguments entries
  | .array (item :: rest) =>
      rw [Value.inferType, TypeRef.arrayOf_arguments]
      exact item.inferType_arguments

theorem inferFields_arguments (entries : List (String × Value)) :
    fieldsArguments (inferFields entries) = [] := by
  match entries with
  | [] => rfl
  | (key, value) :: rest =>
      simp [inferFields, fieldsArguments, annotationsArguments, value.inferType_arguments,
        inferFields_arguments rest]

end

/-! ## Visits -/

namespace Program

/-- On the way from one state to another a call was answered as wished. -/
def Serves (program : Program) (limit : Nat) (wish : Call → Option Value → Prop)
    (st st' : Resolver) : Prop :=
  ∃ call mid, program.Later limit st mid ∧ wish call (program.call limit call mid).1 ∧
    program.Later limit (program.call limit call mid).2 st'

/-- A value is the answer to a call made on the way. -/
def Emits (program : Program) (limit : Nat) (value : Value) : Resolver → Resolver → Prop :=
  program.Serves limit fun _ answer => answer = some value

/-- A constant has the value that was answered when it was asked for on the way, or the
empty string if there was none. -/
def Assigns (program : Program) (limit : Nat) (constant : ConstantDef) :
    Resolver → Resolver → Prop :=
  program.Serves limit fun call answer =>
    call = .constant constant.name ∧ constant.value = answer.getD (.string "")

/-- One state comes after another, and the values are answers given in between. -/
structure Visited (program : Program) (limit : Nat) (st : Resolver)
    (values : List Value) (st' : Resolver) : Prop where
  later : program.Later limit st st'
  emits : ∀ value ∈ values, program.Emits limit value st st'

variable {program : Program} {limit : Nat} {st st₁ st₂ : Resolver}
  {values others : List Value}

theorem Serves.extend {wish : Call → Option Value → Prop} {st₃ : Resolver}
    (before : program.Later limit st st₁) (h : program.Serves limit wish st₁ st₂)
    (after : program.Later limit st₂ st₃) : program.Serves limit wish st st₃ := by
  obtain ⟨call, mid, hbefore, hwish, hafter⟩ := h
  exact ⟨call, mid, before.trans hbefore, hwish, hafter.trans after⟩

theorem Visited.of_later (later : program.Later limit st st₁) :
    program.Visited limit st [] st₁ :=
  ⟨later, fun _ hmem => nomatch hmem⟩

theorem Visited.refl (st : Resolver) : program.Visited limit st [] st := .of_later .refl

theorem Visited.report (st : Resolver) (events : Log) :
    program.Visited limit st [] (st.report events) :=
  .of_later (.single (.report st events))

theorem Visited.note (st : Resolver) (event : Event) :
    program.Visited limit st [] (st.note event) :=
  st.note_eq_report event ▸ .report st #[event]

/-- What is asked now is answered on the way. -/
theorem Visited.call (program : Program) (limit : Nat) (call : Call) (st : Resolver) :
    program.Visited limit st (program.call limit call st).1.toList
      (program.call limit call st).2 := by
  refine ⟨.single (.call st call), fun value hvalue => ?_⟩
  exact ⟨call, st, .refl, Option.mem_toList.mp hvalue, .refl⟩

theorem Visited.append (h₁ : program.Visited limit st values st₁)
    (h₂ : program.Visited limit st₁ others st₂) :
    program.Visited limit st (values ++ others) st₂ := by
  refine ⟨h₁.later.trans h₂.later, fun value hvalue => ?_⟩
  rcases List.mem_append.mp hvalue with hvalue | hvalue
  · exact (h₁.emits value hvalue).extend .refl h₂.later
  · exact (h₂.emits value hvalue).extend h₁.later .refl

/-- Only the values as a set matter. -/
theorem Visited.of_subset (h : program.Visited limit st values st₁)
    (hsubset : others ⊆ values) : program.Visited limit st others st₁ :=
  ⟨h.later, fun value hvalue => h.emits value (hsubset hvalue)⟩

/-- A step that only leads on adds no values. -/
theorem Visited.after (h₁ : program.Visited limit st [] st₁)
    (h₂ : program.Visited limit st₁ values st₂) :
    program.Visited limit st values st₂ :=
  h₁.append h₂

theorem Visited.appendFields {fields more : List Field}
    (h₁ : program.Visited limit st (fieldsArguments fields) st₁)
    (h₂ : program.Visited limit st₁ (fieldsArguments more) st₂) :
    program.Visited limit st (fieldsArguments (fields ++ more)) st₂ :=
  fieldsArguments_append fields more ▸ h₁.append h₂

/-- Steps that are visits one by one are a visit together. -/
theorem eachStep_visited {α β : Type} {step : α → Step β} (arguments : β → List Value)
    (h : ∀ a st, program.Visited limit st.resolver (arguments (step a st).1)
      (step a st).2.resolver) (items : List α) (st : Lowering) :
    program.Visited limit st.resolver ((eachStep step items st).1.flatMap arguments)
      (eachStep step items st).2.resolver := by
  induction items generalizing st with
  | nil => exact .refl _
  | cons a rest ih => exact (h a st).append (ih (step a st).2)

theorem lowerAnnotation_visited (decl : AnnotationDecl) (st : Lowering) :
    program.Visited limit st.resolver
      (program.lowerAnnotation limit decl st).1.argument.toList
      (program.lowerAnnotation limit decl st).2.resolver := by
  unfold lowerAnnotation
  cases decl.argument with
  | none => exact .refl _
  | some literal => exact .call program limit (.literal literal) st.resolver

theorem lowerAnnotations_visited (program : Program) (limit : Nat)
    (decls : List AnnotationDecl) (st : Lowering) :
    program.Visited limit st.resolver
      (annotationsArguments (program.lowerAnnotations limit decls st).1)
      (program.lowerAnnotations limit decls st).2.resolver :=
  eachStep_visited (fun annotation : Annotation => annotation.argument.toList)
    lowerAnnotation_visited decls st

theorem lowerPrimitive_visited (name : String) (st : Lowering) :
    program.Visited limit st.resolver (lowerPrimitive name st).1.arguments
      (lowerPrimitive name st).2.resolver := by
  unfold lowerPrimitive
  cases Primitive.ofName? name with
  | some primitive => exact .refl _
  | none => exact .note _ _

theorem lowerPrimitive_simple (name : String) (st : Lowering) :
    (lowerPrimitive name st).1.Simple := by
  unfold lowerPrimitive
  cases Primitive.ofName? name <;> exact .primitive _

theorem namedType_simple (program : Program) (name : String) :
    (program.namedType name).Simple := by
  unfold namedType
  cases program.enums.find? name with
  | some decl => exact .enumeration name decl.valueType
  | none => exact .named name

/-- The type of a constant shows in its value or is declared by a name. -/
theorem constantType_cases (program : Program) (decl : ConstDecl) (value : Value) :
    program.constantType decl value = value.inferType ∨
      (program.constantType decl value).Simple := by
  unfold constantType
  cases h : decl.explicitType.bind program.declaredType? with
  | none => exact .inl rfl
  | some type =>
      obtain ⟨name, -, h⟩ := Option.bind_eq_some_iff.mp h
      unfold declaredType? at h
      split at h
      · cases h
        exact .inr (.primitive _)
      · split at h
        · cases h
          exact .inr (program.namedType_simple name)
        · cases h

theorem enter_visited (st : Lowering) :
    program.Visited limit st.resolver [] (st.enter limit).2.resolver := by
  unfold Lowering.enter
  split
  · exact .note _ _
  · exact .refl _

/-- An expansion of spreads is a visit. -/
def ExpansionVisits (program : Program) (limit : Nat) (expand : FieldExpansion) : Prop :=
  ∀ spreads path (st : Lowering),
    program.Visited limit st.resolver (fieldsArguments (expand spreads path st).1.1)
      (expand spreads path st).2.resolver

end Program

/-! ## Fields -/

section Fields

open Program

variable {program : Program} {limit : Nat} {expand : FieldExpansion}

mutual

theorem FieldType.lower_visited (h : program.ExpansionVisits limit expand)
    (type : FieldType) (st : Lowering) :
    program.Visited limit st.resolver (type.lower program limit expand st).1.arguments
      (type.lower program limit expand st).2.resolver := by
  match type with
  | ⟨base, dims⟩ =>
      have hbase := BaseType.lower_visited h base st
      simp only [FieldType.lower]
      split
      · exact hbase
      · exact hbase

theorem BaseType.lower_visited (h : program.ExpansionVisits limit expand)
    (base : BaseType) (st : Lowering) :
    program.Visited limit st.resolver (base.lower program limit expand st).1.arguments
      (base.lower program limit expand st).2.resolver := by
  match base with
  | .primitive name => exact lowerPrimitive_visited name st
  | .custom name =>
      rw [BaseType.lower, (program.namedType_simple name).arguments]
      exact .refl _
  | .map value => exact FieldType.lower_visited h value st
  | .object body => exact InlineObject.lower_visited h body st

theorem InlineObject.lower_visited (h : program.ExpansionVisits limit expand)
    (body : InlineObject) (st : Lowering) :
    program.Visited limit st.resolver
      (fieldsArguments (body.lower program limit expand st).1)
      (body.lower program limit expand st).2.resolver := by
  match body with
  | ⟨fields, spreads⟩ =>
      have henter : program.Visited limit st.resolver [] (st.enter limit).2.resolver :=
        enter_visited st
      rw [InlineObject.lower]
      split
      · next st₁ hst => rw [hst] at henter; exact henter
      · next st₁ hst =>
          rw [hst] at henter
          have hown := lowerFields_visited h fields (expand spreads [] st₁).2
          exact henter.after ((h spreads [] st₁).appendFields hown)

theorem FieldDecl.lower_visited (h : program.ExpansionVisits limit expand)
    (field : FieldDecl) (st : Lowering) :
    program.Visited limit st.resolver
      (fieldsArguments [(field.lower program limit expand st).1])
      (field.lower program limit expand st).2.resolver := by
  match field with
  | ⟨name, docstring, annotations, optional, type⟩ =>
      have hannotations := lowerAnnotations_visited program limit annotations st
      have htype := FieldType.lower_visited h type
        (program.lowerAnnotations limit annotations st).2
      exact (hannotations.append htype).append (.refl _)

theorem lowerFields_visited (h : program.ExpansionVisits limit expand)
    (fields : List FieldDecl) (st : Lowering) :
    program.Visited limit st.resolver
      (fieldsArguments (lowerFields program limit expand fields st).1)
      (lowerFields program limit expand fields st).2.resolver := by
  match fields with
  | [] => exact .refl _
  | field :: rest =>
      have hfirst := FieldDecl.lower_visited h field st
      have hrest := lowerFields_visited h rest (field.lower program limit expand st).2
      exact hfirst.appendFields hrest

end

end Fields

namespace Program

variable {program : Program} {limit : Nat} {expand : FieldExpansion}

theorem spreadFields_visited (h : program.ExpansionVisits limit expand)
    (spread : Reference) (path : Path) (st : Lowering) :
    program.Visited limit st.resolver
      (fieldsArguments (program.spreadFields limit expand spread path st).1.1)
      (program.spreadFields limit expand spread path st).2.resolver := by
  unfold spreadFields
  split
  · exact .refl _
  · split
    · exact .note _ _
    · split
      · exact .refl _
      · next target _ =>
          -- Levels of spreads are counted by the lowering, so the evaluation sees a note
          -- at most.
          have henter : program.Visited limit st.resolver [] (st.enter limit).2.resolver :=
            enter_visited st
          split
          · next st₁ hst => rw [hst] at henter; exact henter
          · next st₁ hst =>
              rw [hst] at henter
              have hinherited := h target.spreads (path.enter target.name) st₁
              have hown := lowerFields_visited h target.fields
                (expand target.spreads (path.enter target.name) st₁).2
              exact henter.after (hinherited.appendFields hown)

theorem inheritedFields_visited (h : program.ExpansionVisits limit expand) :
    program.ExpansionVisits limit (program.inheritedFields limit expand) := by
  intro spreads
  induction spreads with
  | nil => intro path st; exact .refl _
  | cons spread rest ih =>
      intro path st
      have hfirst := spreadFields_visited h spread path st
      have hrest := ih (program.spreadFields limit expand spread path st).1.2
        (program.spreadFields limit expand spread path st).2
      exact hfirst.appendFields hrest

/-- Expansions are visits whatever their budget, by induction on it. -/
theorem expandFields_visited (program : Program) (limit budget : Nat) :
    program.ExpansionVisits limit (program.expandFields limit budget) := by
  induction budget with
  | zero =>
      have hnothing : program.ExpansionVisits limit fun _ path st => (([], path), st) :=
        fun _ _ _ => .refl _
      exact inheritedFields_visited hnothing
  | succ budget ih => exact inheritedFields_visited ih

theorem typeFields_visited (decl : TypeDecl) (st : Lowering) :
    program.Visited limit st.resolver
      (fieldsArguments (program.typeFields limit decl st).1)
      (program.typeFields limit decl st).2.resolver := by
  have hexpand := expandFields_visited program limit limit
  have hown := lowerFields_visited hexpand decl.fields
    (program.expandFields limit limit decl.spreads [decl.name] st).2
  exact (hexpand decl.spreads [decl.name] st).appendFields hown

/-! ## Declarations -/

theorem lowerType_visited (decl : TypeDecl) (st : Lowering) :
    program.Visited limit st.resolver (program.lowerType limit decl st).1.arguments
      (program.lowerType limit decl st).2.resolver := by
  have hnote : program.Visited limit st.resolver []
      (st.note (.convertingType decl.name)).resolver := .note _ _
  have hannotations := lowerAnnotations_visited program limit decl.annotations
    (st.note (.convertingType decl.name))
  exact hnote.after (hannotations.append (typeFields_visited decl _))

theorem lowerMember_visited (program : Program) (limit : Nat) (decl : MemberDecl)
    (st : Lowering) :
    program.Visited limit st.resolver (program.lowerMember limit decl st).1.arguments
      (program.lowerMember limit decl st).2.resolver :=
  lowerAnnotations_visited program limit decl.annotations st

theorem lowerEnum_visited (decl : EnumDecl) (st : Lowering) :
    program.Visited limit st.resolver (program.lowerEnum limit decl st).1.arguments
      (program.lowerEnum limit decl st).2.resolver := by
  let st₁ := st.note (.convertingEnum decl.name)
  let events := (program.enumMembers limit decl).2
  let st₂ : Lowering := { st₁ with resolver := st₁.resolver.report events }
  have hnote : program.Visited limit st.resolver [] st₁.resolver := .note _ _
  have hreport : program.Visited limit st₁.resolver [] st₂.resolver := .report _ _
  have hmembers := eachStep_visited EnumMember.arguments
    (lowerMember_visited program limit) (program.enumMembers limit decl).1 st₂
  have hannotations := lowerAnnotations_visited program limit decl.annotations
    (eachStep (program.lowerMember limit) (program.enumMembers limit decl).1 st₂).2
  exact hnote.after (hreport.after (hmembers.append hannotations))

theorem constantType_arguments (program : Program) (decl : ConstDecl) (value : Value) :
    (program.constantType decl value).arguments = [] := by
  rcases program.constantType_cases decl value with h | h
  · rw [h, value.inferType_arguments]
  · exact h.arguments

theorem constantValue_visited (program : Program) (limit : Nat) (decl : ConstDecl)
    (st : Lowering) :
    (program.constantValue limit decl st).1 =
        (program.call limit (.constant decl.name) st.resolver).1.getD (.string "") ∧
      program.Visited limit (program.call limit (.constant decl.name) st.resolver).2 []
        (program.constantValue limit decl st).2.resolver := by
  simp only [constantValue, call]
  obtain ⟨value?, resolver⟩ := program.resolveConstant limit decl.name st.resolver
  cases value? with
  | some value => exact ⟨rfl, .refl _⟩
  | none => exact ⟨rfl, .note _ _⟩

/-- A constant is asked for under its own name before it is annotated. -/
theorem lowerConstant_visited (program : Program) (limit : Nat) (decl : ConstDecl)
    (st : Lowering) :
    program.Assigns limit (program.lowerConstant limit decl st).1 st.resolver
        (program.lowerConstant limit decl st).2.resolver ∧
      program.Visited limit st.resolver (program.lowerConstant limit decl st).1.arguments
        (program.lowerConstant limit decl st).2.resolver := by
  let st₁ := st.note (.convertingConstant decl.name)
  let asked := program.call limit (.constant decl.name) st₁.resolver
  let st₂ := (program.constantValue limit decl st₁).2
  have hnote : program.Visited limit st.resolver [] st₁.resolver := .note _ _
  have hasked : program.Visited limit st₁.resolver [] asked.2 :=
    .of_later (.single (.call _ _))
  obtain ⟨hvalue, hfallback⟩ := constantValue_visited program limit decl st₁
  have hannotations := lowerAnnotations_visited program limit decl.annotations st₂
  constructor
  · exact ⟨.constant decl.name, st₁.resolver, hnote.later, ⟨rfl, hvalue⟩,
      (hfallback.after hannotations).later⟩
  · rw [ConstantDef.arguments, lowerConstant, constantType_arguments]
    exact hnote.after (hasked.after (hfallback.after (hannotations.append (.refl _))))

/-! ## Schemas -/

theorem mem_sortByName {α : Type} {name : α → String} {items : List α} {a : α} :
    a ∈ sortByName name items ↔ a ∈ items :=
  List.mem_mergeSort

theorem flatMap_sortByName_subset {α : Type} (name : α → String) (items : List α)
    (arguments : α → List Value) :
    (sortByName name items).flatMap arguments ⊆ items.flatMap arguments := by
  intro value hvalue
  obtain ⟨a, ha, hvalue⟩ := List.mem_flatMap.mp hvalue
  exact List.mem_flatMap.mpr ⟨a, mem_sortByName.mp ha, hvalue⟩

theorem eachStep_assigns (decls : List ConstDecl) (st : Lowering) (constant : ConstantDef)
    (h : constant ∈ (eachStep (program.lowerConstant limit) decls st).1) :
    program.Assigns limit constant st.resolver
      (eachStep (program.lowerConstant limit) decls st).2.resolver := by
  induction decls generalizing st with
  | nil => cases h
  | cons decl rest ih =>
      let st₁ := (program.lowerConstant limit decl st).2
      have hfirst := lowerConstant_visited program limit decl st
      have hrest := eachStep_visited ConstantDef.arguments
        (fun decl st => (lowerConstant_visited program limit decl st).2) rest st₁
      rcases List.mem_cons.mp h with rfl | h
      · exact hfirst.1.extend .refl hrest.later
      · exact (ih st₁ h).extend hfirst.2.later .refl

/-- Every argument of an annotation in the lowered schema was answered on the way, and
every constant was assigned its value there. -/
theorem lowerAll_visited (program : Program) (limit : Nat) (st : Lowering) :
    program.Visited limit st.resolver (program.lowerAll limit st).1.arguments
        (program.lowerAll limit st).2.resolver ∧
      ∀ constant ∈ (program.lowerAll limit st).1.constants,
        program.Assigns limit constant st.resolver
          (program.lowerAll limit st).2.resolver := by
  let types := eachStep (program.lowerType limit) program.types.sorted st
  let enums := eachStep (program.lowerEnum limit) program.enums.sorted types.2
  let constants := eachStep (program.lowerConstant limit) program.consts.sorted enums.2
  have htypes : program.Visited limit st.resolver (types.1.flatMap TypeDef.arguments)
      types.2.resolver := eachStep_visited _ lowerType_visited _ _
  have henums : program.Visited limit types.2.resolver (enums.1.flatMap EnumDef.arguments)
      enums.2.resolver := eachStep_visited _ lowerEnum_visited _ _
  have hconstants : program.Visited limit enums.2.resolver
      (constants.1.flatMap ConstantDef.arguments) constants.2.resolver :=
    eachStep_visited _ (fun decl st => (lowerConstant_visited program limit decl st).2) _ _
  constructor
  · have htypes := htypes.of_subset (flatMap_sortByName_subset TypeDef.name _ _)
    have henums := henums.of_subset (flatMap_sortByName_subset EnumDef.name _ _)
    have hconstants :=
      hconstants.of_subset (flatMap_sortByName_subset ConstantDef.name _ _)
    exact (htypes.append henums).append hconstants
  · intro constant hmem
    have hassigns : program.Assigns limit constant enums.2.resolver constants.2.resolver :=
      eachStep_assigns _ _ _ (mem_sortByName.mp hmem)
    exact hassigns.extend (htypes.append henums).later .refl

end Program

end SchemaIR
