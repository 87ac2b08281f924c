import SchemaIR.Lowering
import SchemaIR.Program.Builder
import SchemaIR.Proofs.Table

/-!
# The order of declarations does not matter

What is cached, and where circles are cut, depends on the order in which lowering visits
the declarations. That order is the order of their keys. The order in which they were
declared shows nowhere: lowering looks declarations up by key, it asks how many there
are, and it enumerates them sorted. So two programs with the same look-ups are lowered
alike, and two ways of building a program that end with the same declarations build
programs with the same look-ups.
-/

namespace SchemaIR

/-- Two programs with the same declarations under each key and the same blocks of
documentation. -/
structure Program.Alike (program other : Program) : Prop where
  types : program.types.Same other.types
  enums : program.enums.Same other.enums
  consts : program.consts.Same other.consts
  docs : program.standaloneDocs = other.standaloneDocs

namespace Program.Alike

variable {program other : Program}

/-! ## Members of enumerations -/

theorem spreadMembers_eq (h : program.Alike other) (limit : Nat) :
    spreadMembers program limit = spreadMembers other limit := by
  funext owner expand spread walk
  simp only [spreadMembers, h.enums spread.name]

theorem inheritedMembers_eq (h : program.Alike other) (limit : Nat) (owner : String)
    (expand : MemberExpansion) :
    inheritedMembers program limit owner expand =
      inheritedMembers other limit owner expand := by
  funext spreads
  induction spreads with
  | nil => rfl
  | cons spread rest ih =>
      funext walk
      simp only [inheritedMembers, h.spreadMembers_eq, ih]

theorem expandMembers_eq (h : program.Alike other) (limit budget : Nat) :
    expandMembers program limit budget = expandMembers other limit budget := by
  induction budget with
  | zero => rfl
  | succ budget ih =>
      funext decl walk
      simp only [expandMembers, h.inheritedMembers_eq, ih]

theorem enumMembers_eq (h : program.Alike other) (limit : Nat) :
    program.enumMembers limit = other.enumMembers limit := by
  funext decl
  simp only [enumMembers, h.enums.size_eq, h.expandMembers_eq]

/-! ## Evaluation -/

theorem memberConstant_eq (h : program.Alike other) (limit : Nat) :
    program.memberConstant limit = other.memberConstant limit := by
  funext enum member st
  simp only [memberConstant, h.enums enum, h.enumMembers_eq]

theorem constant_eq (h : program.Alike other) (limit budget : Nat) :
    program.constant limit budget = other.constant limit budget := by
  have hmember := h.memberConstant_eq limit
  induction budget with
  | zero | succ budget ih =>
      funext name st
      rw [Program.constant.eq_def, Program.constant.eq_def]
      simp only [h.consts name]
      cases other.consts.find? name with
      | none => rfl
      | some decl => cases hvalue : decl.value <;> simp only [*]

theorem scope_eq (h : program.Alike other) (limit : Nat) :
    program.scope limit = other.scope limit := by
  simp only [Program.scope, h.consts.size_eq, h.constant_eq, h.memberConstant_eq]

theorem lowerAnnotations_eq (h : program.Alike other) (limit : Nat) :
    program.lowerAnnotations limit = other.lowerAnnotations limit := by
  have hone : program.lowerAnnotation limit = other.lowerAnnotation limit := by
    funext decl st
    simp only [resolveLiteral, h.scope_eq, lowerAnnotation]
  simp only [lowerAnnotations, hone]

theorem namedType_eq (h : program.Alike other) :
    program.namedType = other.namedType := by
  funext name
  simp only [namedType, h.enums name]

theorem constantType_eq (h : program.Alike other) :
    program.constantType = other.constantType := by
  have hdeclared : program.declaredType? = other.declaredType? := by
    funext name
    simp only [declaredType?, h.enums.contains_eq, h.types.contains_eq, h.namedType_eq]
  funext decl value
  simp only [constantType, hdeclared]

end Program.Alike

/-! ## Fields -/

section Fields

variable {program other : Program} {limit : Nat}

mutual

theorem FieldType.lower_eq (h : program.Alike other) (expand : FieldExpansion)
    (type : FieldType) :
    type.lower program limit expand = type.lower other limit expand := by
  match type with
  | ⟨base, dims⟩ =>
      funext st
      simp only [FieldType.lower, BaseType.lower_eq h expand base]

theorem BaseType.lower_eq (h : program.Alike other) (expand : FieldExpansion)
    (base : BaseType) :
    base.lower program limit expand = base.lower other limit expand := by
  match base with
  | .primitive name => rfl
  | .custom name =>
      funext st
      simp only [BaseType.lower, h.namedType_eq]
  | .map value =>
      funext st
      simp only [BaseType.lower, FieldType.lower_eq h expand value]
  | .object body =>
      funext st
      simp only [BaseType.lower, InlineObject.lower_eq h expand body]

theorem InlineObject.lower_eq (h : program.Alike other) (expand : FieldExpansion)
    (body : InlineObject) :
    body.lower program limit expand = body.lower other limit expand := by
  match body with
  | ⟨fields, spreads⟩ =>
      funext st
      simp only [InlineObject.lower, lowerFields_eq h expand fields]

theorem FieldDecl.lower_eq (h : program.Alike other) (expand : FieldExpansion)
    (field : FieldDecl) :
    field.lower program limit expand = field.lower other limit expand := by
  match field with
  | ⟨name, docstring, annotations, optional, type⟩ =>
      funext st
      simp only [FieldDecl.lower, h.lowerAnnotations_eq, FieldType.lower_eq h expand type]

theorem lowerFields_eq (h : program.Alike other) (expand : FieldExpansion)
    (fields : List FieldDecl) :
    lowerFields program limit expand fields = lowerFields other limit expand fields := by
  match fields with
  | [] => rfl
  | field :: rest =>
      funext st
      simp only [lowerFields, FieldDecl.lower_eq h expand field,
        lowerFields_eq h expand rest]

end

end Fields

namespace Program.Alike

variable {program other : Program}

theorem inheritedFields_eq (h : program.Alike other) (limit : Nat)
    (expand : FieldExpansion) :
    program.inheritedFields limit expand = other.inheritedFields limit expand := by
  have hone : program.spreadFields limit expand = other.spreadFields limit expand := by
    funext spread path st
    simp only [spreadFields, h.types spread.name, lowerFields_eq h expand]
  funext spreads
  induction spreads with
  | nil => rfl
  | cons spread rest ih =>
      funext path st
      simp only [inheritedFields, hone, ih]

theorem expandFields_eq (h : program.Alike other) (limit budget : Nat) :
    program.expandFields limit budget = other.expandFields limit budget := by
  induction budget with
  | zero =>
      funext spreads path st
      simp only [expandFields, h.inheritedFields_eq]
  | succ budget ih =>
      funext spreads path st
      simp only [expandFields, h.inheritedFields_eq, ih]

/-! ## Declarations -/

theorem lowerType_eq (h : program.Alike other) (limit : Nat) :
    program.lowerType limit = other.lowerType limit := by
  funext decl st
  simp only [lowerType, typeFields, h.lowerAnnotations_eq, h.expandFields_eq,
    lowerFields_eq h]

theorem lowerEnum_eq (h : program.Alike other) (limit : Nat) :
    program.lowerEnum limit = other.lowerEnum limit := by
  have hmember : program.lowerMember limit = other.lowerMember limit := by
    funext decl st
    simp only [lowerMember, h.lowerAnnotations_eq]
  funext decl st
  simp only [lowerEnum, h.enumMembers_eq, hmember, h.lowerAnnotations_eq]

theorem lowerConstant_eq (h : program.Alike other) (limit : Nat) :
    program.lowerConstant limit = other.lowerConstant limit := by
  funext decl st
  simp only [lowerConstant, constantValue, resolveConstant, h.scope_eq,
    h.lowerAnnotations_eq, h.constantType_eq]

/-- Programs that declare the same are lowered alike, to the last line of the log. -/
theorem lower_eq (h : program.Alike other) (limit : Nat) :
    program.lower limit = other.lower limit := by
  have hall : program.lowerAll limit = other.lowerAll limit := by
    funext st
    simp only [lowerAll, h.types.sorted_eq, h.enums.sorted_eq, h.consts.sorted_eq,
      h.lowerType_eq, h.lowerEnum_eq, h.lowerConstant_eq, h.docs]
  simp only [lower, hall]

end Program.Alike

/-! ## Building a program -/

/-- One step of building a program. -/
inductive Declaration where
  | type (decl : TypeDecl)
  | enum (decl : EnumDecl)
  | const (decl : ConstDecl)
  | doc (content : String) (scope : Option String)

namespace Declaration

/-- The type declared by a step. -/
def type? : Declaration → Option TypeDecl
  | type decl => some decl
  | _ => none

/-- The enumeration declared by a step. -/
def enum? : Declaration → Option EnumDecl
  | enum decl => some decl
  | _ => none

/-- The constant declared by a step. -/
def const? : Declaration → Option ConstDecl
  | const decl => some decl
  | _ => none

/-- The block of documentation added by a step. -/
def doc? : Declaration → Option DocDecl
  | doc content scope => some { scope, content }
  | _ => none

end Declaration

/-- Declares everything under its own name, one after the other. -/
def Table.insertAll {α : Type} (name : α → String) (table : Table α) (decls : List α) :
    Table α :=
  decls.foldl (fun table decl => table.insert (name decl) decl) table

/-- The last declaration of a name. -/
def lastNamed? {α : Type} (name : α → String) (decls : List α) (key : String) : Option α :=
  decls.reverse.find? (name · = key)

namespace Program

/-- Takes one step. -/
def declare (program : Program) : Declaration → Program
  | .type decl => program.declareType decl
  | .enum decl => program.declareEnum decl
  | .const decl => program.declareConst decl
  | .doc content scope => program.document content scope

/-- The program that some steps build. -/
def build (decls : List Declaration) : Program := decls.foldl declare {}

/-- Steps of different kinds do not meet. -/
theorem foldl_declare (decls : List Declaration) (program : Program) :
    decls.foldl declare program =
      { types := program.types.insertAll TypeDecl.name (decls.filterMap Declaration.type?)
        enums := program.enums.insertAll EnumDecl.name (decls.filterMap Declaration.enum?)
        consts :=
          program.consts.insertAll ConstDecl.name (decls.filterMap Declaration.const?)
        standaloneDocs :=
          program.standaloneDocs ++ decls.filterMap Declaration.doc? } := by
  induction decls generalizing program with
  | nil => simp only [List.filterMap_nil, List.append_nil]; rfl
  | cons decl rest ih =>
      rw [List.foldl_cons, ih]
      cases decl with
      | type | enum | const => rfl
      | doc content scope => simp only [declare, document, List.append_assoc]; rfl

end Program

theorem lastNamed?_cons {α : Type} (name : α → String) (decl : α) (rest : List α)
    (key : String) :
    lastNamed? name (decl :: rest) key =
      (lastNamed? name rest key).or (if name decl = key then some decl else none) := by
  simp only [lastNamed?, List.reverse_cons, List.find?_append, List.find?_singleton,
    decide_eq_true_eq]

/-- Of the declarations of a name the last one counts. -/
theorem Table.find?_insertAll {α : Type} (name : α → String) (table : Table α)
    (decls : List α) (key : String) :
    (table.insertAll name decls).find? key =
      (lastNamed? name decls key).or (table.find? key) := by
  induction decls generalizing table with
  | nil => rfl
  | cons decl rest ih =>
      show ((table.insert (name decl) decl).insertAll name rest).find? key = _
      rw [ih, Table.find?_insert, lastNamed?_cons, Option.or_assoc]
      by_cases hkey : name decl = key
      · rw [if_pos hkey, if_pos hkey.symm, Option.some_or]
      · rw [if_neg hkey, if_neg (Ne.symm hkey), Option.none_or]

theorem mem_of_lastNamed? {α : Type} {name : α → String} {decls : List α} {key : String}
    {decl : α} (last : lastNamed? name decls key = some decl) :
    decl ∈ decls ∧ name decl = key := by
  have hname := List.find?_some last
  exact ⟨List.mem_reverse.mp (List.mem_of_find?_eq_some last), of_decide_eq_true hname⟩

/-- With distinct names the last declaration of a name is the only one. -/
theorem lastNamed?_eq_some_iff {α : Type} {name : α → String} {decls : List α}
    (distinct : (decls.map name).Nodup) {key : String} {decl : α} :
    lastNamed? name decls key = some decl ↔ decl ∈ decls ∧ name decl = key := by
  refine ⟨mem_of_lastNamed?, ?_⟩
  rintro ⟨hmem, rfl⟩
  cases hlast : lastNamed? name decls (name decl) with
  | none =>
      have hnone := List.find?_eq_none.mp hlast decl (List.mem_reverse.mpr hmem)
      exact absurd (decide_eq_true rfl) hnone
  | some found =>
      obtain ⟨hfound, hname⟩ := mem_of_lastNamed? hlast
      exact congrArg some (List.inj_on_of_nodup_map distinct hfound hmem hname)

theorem lastNamed?_perm {α : Type} {name : α → String} {decls others : List α}
    (distinct : (decls.map name).Nodup) (h : decls.Perm others) :
    lastNamed? name decls = lastNamed? name others := by
  funext key
  refine Option.ext fun decl => ?_
  rw [lastNamed?_eq_some_iff distinct, h.mem_iff,
    lastNamed?_eq_some_iff ((h.map name).nodup distinct)]

namespace Program

/-- Two ways of building a program end with the same declarations: the last one of each
name counts, and of documentation every block. -/
structure SameLast (decls others : List Declaration) : Prop where
  types : lastNamed? TypeDecl.name (decls.filterMap Declaration.type?) =
    lastNamed? TypeDecl.name (others.filterMap Declaration.type?)
  enums : lastNamed? EnumDecl.name (decls.filterMap Declaration.enum?) =
    lastNamed? EnumDecl.name (others.filterMap Declaration.enum?)
  consts : lastNamed? ConstDecl.name (decls.filterMap Declaration.const?) =
    lastNamed? ConstDecl.name (others.filterMap Declaration.const?)
  docs : decls.filterMap Declaration.doc? = others.filterMap Declaration.doc?

/-- No type, enumeration or constant is declared twice. -/
structure DistinctNames (decls : List Declaration) : Prop where
  types : ((decls.filterMap Declaration.type?).map TypeDecl.name).Nodup
  enums : ((decls.filterMap Declaration.enum?).map EnumDecl.name).Nodup
  consts : ((decls.filterMap Declaration.const?).map ConstDecl.name).Nodup

variable {decls others : List Declaration}

theorem SameLast.alike (h : SameLast decls others) : (build decls).Alike (build others) := by
  rw [build, build, foldl_declare, foldl_declare]
  constructor
  · intro key
    rw [Table.find?_insertAll, Table.find?_insertAll, h.types]
  · intro key
    rw [Table.find?_insertAll, Table.find?_insertAll, h.enums]
  · intro key
    rw [Table.find?_insertAll, Table.find?_insertAll, h.consts]
  · exact h.docs

theorem DistinctNames.sameLast (distinct : DistinctNames decls) (h : decls.Perm others)
    (docs : decls.filterMap Declaration.doc? = others.filterMap Declaration.doc?) :
    SameLast decls others :=
  ⟨lastNamed?_perm distinct.types (h.filterMap _),
    lastNamed?_perm distinct.enums (h.filterMap _),
    lastNamed?_perm distinct.consts (h.filterMap _), docs⟩

/-- Lowering does not see the order of declarations: not that in which a program was
built, as long as the same declarations remain, nor that of the entries in its tables. -/
theorem lower_order_irrelevant (limit : Nat) :
    (∀ decls others, SameLast decls others →
      (build decls).lower limit = (build others).lower limit) ∧
    (∀ decls others : List Declaration, DistinctNames decls → decls.Perm others →
      decls.filterMap Declaration.doc? = others.filterMap Declaration.doc? →
        (build decls).lower limit = (build others).lower limit) ∧
    (∀ program other : Program, program.types.entries.Perm other.types.entries →
      program.enums.entries.Perm other.enums.entries →
      program.consts.entries.Perm other.consts.entries →
      program.standaloneDocs = other.standaloneDocs →
        program.lower limit = other.lower limit) := by
  refine ⟨fun decls others same => ?_, fun decls others distinct perm docs => ?_,
    fun program other types enums consts docs => ?_⟩
  · exact same.alike.lower_eq limit
  · exact (distinct.sameLast perm docs).alike.lower_eq limit
  · have alike : program.Alike other :=
      ⟨Table.same_of_perm types, Table.same_of_perm enums, Table.same_of_perm consts, docs⟩
    exact alike.lower_eq limit

/-- Two types and two constants that spread each other. -/
def circles : List Declaration :=
  [.const (.called "ping" (.object [.spreading "pong", .field "ping" (.bool true)])),
    .type ((TypeDecl.called "A").withSpread "B"), .doc "Circles" none,
    .const (.called "pong" (.object [.spreading "ping", .field "pong" (.bool true)])),
    .type ((TypeDecl.called "B").withSpread "A")]

theorem circles_distinctNames : DistinctNames circles :=
  ⟨by decide, by decide, by decide⟩

/-- A constant that is declared again later on is lost. -/
theorem circles_sameLast :
    SameLast (.const (.called "ping" (.bool false)) :: circles) circles.reverse := by
  have same := circles_distinctNames.sameLast (List.reverse_perm circles).symm rfl
  refine ⟨same.types, same.enums, ?_, same.docs⟩
  rw [← same.consts]
  funext key
  by_cases hkey : "ping" = key
  · subst hkey
    rfl
  · show lastNamed? ConstDecl.name (_ :: circles.filterMap Declaration.const?) key = _
    rw [lastNamed?_cons]
    exact (congrArg _ (if_neg hkey)).trans (Option.or_none ..)

theorem lower_order_irrelevant_circles :
    (build (.const (.called "ping" (.bool false)) :: circles)).lower 4 =
        (build circles.reverse).lower 4 ∧
      (build circles).lower 4 = (build circles.reverse).lower 4 ∧
      (build circles).lower 1 = (build circles.reverse).lower 1 ∧
      ((build circles).resolveConstant 4 "ping" {}).2.stats.cyclesBroken = 1 := by
  obtain ⟨hlast, hperm, _⟩ := lower_order_irrelevant 4
  obtain ⟨_, _, htables⟩ := lower_order_irrelevant 1
  refine ⟨hlast _ _ circles_sameLast, ?_, ?_, by decide +kernel⟩
  · exact hperm _ _ circles_distinctNames (List.reverse_perm circles).symm rfl
  · exact htables _ _ (List.reverse_perm (build circles).types.entries).symm .nil
      (List.reverse_perm (build circles).consts.entries).symm rfl

end Program

end SchemaIR
