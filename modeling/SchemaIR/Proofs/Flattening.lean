import SchemaIR.Lowering
import SchemaIR.Proofs.Evaluation

/-!
# Flattening as a judgment

Like evaluation, the flattening of types counts something that no statement should have to
quote: how many spreads may still be entered inside one another. This file replaces it by a
judgment without such a budget. `Flattens` has a rule for each thing that can happen to a
declared type, a field or a list of spreads, and says which result and which state come out.

A chain of expansions keeps a spread from being entered again, but an inline object starts a
chain of its own, so chains alone do not make flattening finite. Levels do: every spread and
every inline object that is entered uses up one, and what is converted inside it either is
smaller or is another spread on the next level. Hence every query has a derivation, whatever
refers to what, and a budget that covers the levels which are left computes it.
-/

namespace SchemaIR

namespace Lowering

/-- Opens a level. -/
def deeper (st : Lowering) : Lowering := { st with depth := st.depth + 1 }

/-- Reports and counts a level that is refused. -/
def refuse (st : Lowering) (limit : Nat) : Lowering :=
  { st.note (.nestingTooDeep limit) with truncated := st.truncated + 1 }

variable {st : Lowering} {limit : Nat}

theorem enter_full (full : limit ≤ st.depth) : st.enter limit = (false, st.refuse limit) :=
  if_pos full

theorem enter_room (room : st.depth < limit) : st.enter limit = (true, st.deeper) :=
  if_neg (Nat.not_le.mpr room)

end Lowering

/-! ## Chains -/

namespace Path

variable {name other : String} {path : Path}

theorem mem_enter :
    other ∈ path.enter name ↔ other = name ∨ other ∈ path := by
  unfold Path.enter
  split
  next busy => exact ⟨.inr, fun h => h.elim (fun h => h ▸ busy) id⟩
  next => exact List.mem_cons

theorem leave_enter (idle : name ∉ path) :
    (path.enter name).leave name = path := by
  have hkept : ∀ other ∈ path, other ≠ name := fun other hmem h => idle (h ▸ hmem)
  simp only [Path.enter, if_neg idle, Path.leave]
  simpa using hkept

end Path

/-! ## Steps as relations -/

/-- Steps taken one after the other, each from the state that the one before it left. -/
inductive Each {α β : Type} (step : α → Lowering → β → Lowering → Prop) :
    List α → Lowering → List β → Lowering → Prop where
  | nil {st : Lowering} : Each step [] st [] st
  | cons {a : α} {b : β} {rest : List α} {others : List β} {st st₁ st₂ : Lowering}
      (first : step a st b st₁) (more : Each step rest st₁ others st₂) :
      Each step (a :: rest) st (b :: others) st₂

section Each

variable {α β : Type} {step : α → Lowering → β → Lowering → Prop} {f : α → Step β}

theorem Each.computed (h : ∀ a st b st', step a st b st' → f a st = (b, st')) {items : List α}
    {st st' : Lowering} {results : List β} (run : Each step items st results st') :
    eachStep f items st = (results, st') := by
  induction run with
  | nil => rfl
  | cons first _ ih => simp only [eachStep, h _ _ _ _ first, ih]

/-- A relation that every step of a function obeys is obeyed by the steps together. -/
theorem each_eachStep (items : List α) (h : ∀ a ∈ items, ∀ st, step a st (f a st).1 (f a st).2)
    (st : Lowering) : Each step items st (eachStep f items st).1 (eachStep f items st).2 := by
  induction items generalizing st with
  | nil => exact .nil
  | cons a rest ih =>
      exact .cons (h a List.mem_cons_self st)
        (ih (fun a ha => h a (List.mem_cons_of_mem _ ha)) (f a st).2)

/-- Each result of the steps is the result of one of them. -/
theorem exists_of_mem_eachStep {items : List α} {st : Lowering} {b : β}
    (h : b ∈ (eachStep f items st).1) : ∃ a ∈ items, ∃ mid, (f a mid).1 = b := by
  induction items generalizing st with
  | nil => cases h
  | cons a rest ih =>
      rcases List.mem_cons.mp h with rfl | h
      · exact ⟨a, List.mem_cons_self, st, rfl⟩
      · obtain ⟨other, hmem, mid, hresult⟩ := ih h
        exact ⟨other, List.mem_cons_of_mem _ hmem, mid, hresult⟩

end Each

/-- `Annotates program limit decl st annotation st'`: in the state `st` an annotation is
converted, and the state `st'` is left. -/
inductive Annotates (program : Program) (limit : Nat) :
    AnnotationDecl → Lowering → Annotation → Lowering → Prop where
  | bare {decl : AnnotationDecl} {st : Lowering} (none : decl.argument = none) :
      Annotates program limit decl st ⟨decl.name, .none⟩ st
  | argued {decl : AnnotationDecl} {literal : Literal} {st : Lowering} {value? : Option Value}
      {resolver : Resolver} (given : decl.argument = some literal)
      (run : Evaluates program limit (.literal literal) st.resolver value? resolver) :
      Annotates program limit decl st ⟨decl.name, value?⟩ { st with resolver }

namespace Annotates

variable {program : Program} {limit : Nat}

theorem computed {decl : AnnotationDecl} {st st' : Lowering} {result : Annotation}
    (run : Annotates program limit decl st result st') :
    program.lowerAnnotation limit decl st = (result, st') := by
  cases run with
  | bare none => simp only [Program.lowerAnnotation, none]
  | argued given run =>
      have hanswer : program.resolveLiteral limit _ st.resolver = _ :=
        Program.answer_eq_iff.mpr run
      simp only [Program.lowerAnnotation, given, hanswer]

theorem total (program : Program) (limit : Nat) (decl : AnnotationDecl) (st : Lowering) :
    Annotates program limit decl st (program.lowerAnnotation limit decl st).1
      (program.lowerAnnotation limit decl st).2 := by
  cases given : decl.argument with
  | none =>
      rw [(Annotates.bare given).computed]
      exact .bare given
  | some literal =>
      have run := program.evaluates_answer limit (.literal literal) st.resolver
      rw [(Annotates.argued given run).computed]
      exact .argued given run

end Annotates

/-- Annotations are converted in order. -/
abbrev AnnotatesEach (program : Program) (limit : Nat) :=
  Each (Annotates program limit)

theorem annotatesEach_total (program : Program) (limit : Nat) (decls : List AnnotationDecl)
    (st : Lowering) :
    AnnotatesEach program limit decls st (program.lowerAnnotations limit decls st).1
      (program.lowerAnnotations limit decls st).2 :=
  each_eachStep decls (fun decl _ st => .total program limit decl st) st

theorem Each.annotations_computed {program : Program} {limit : Nat} {decls : List AnnotationDecl}
    {st st' : Lowering} {results : List Annotation}
    (run : AnnotatesEach program limit decls st results st') :
    program.lowerAnnotations limit decls st = (results, st') :=
  Each.computed (fun _ _ _ _ one => one.computed) run

/-- Annotations are a matter of the evaluation alone. -/
theorem Each.annotations_frame {program : Program} {limit : Nat} {decls : List AnnotationDecl}
    {st st' : Lowering} {results : List Annotation}
    (run : AnnotatesEach program limit decls st results st') :
    st'.depth = st.depth ∧ st'.truncated = st.truncated := by
  induction run with
  | nil => exact ⟨rfl, rfl⟩
  | cons first _ ih => cases first <;> exact ih

theorem Each.annotations_names {program : Program} {limit : Nat} {decls : List AnnotationDecl}
    {st st' : Lowering} {results : List Annotation}
    (run : AnnotatesEach program limit decls st results st') :
    results.map (·.name) = decls.map (·.name) := by
  induction run with
  | nil => rfl
  | cons first _ ih =>
      rw [List.map_cons, List.map_cons, ih]
      cases first <;> rfl

/-! ## Queries -/

/-- What flattening can be asked for. -/
inductive FieldQuery where
  | type (type : FieldType)
  | base (base : BaseType)
  | object (body : InlineObject)
  | field (field : FieldDecl)
  | fields (fields : List FieldDecl)
  /-- The fields that spreads add in a chain of expansions. -/
  | spreads (spreads : List Reference) (path : Path)

/-- What a query is answered with. Spreads also leave a chain to go on with. -/
abbrev FieldQuery.Answer : FieldQuery → Type
  | .type _ | .base _ => TypeRef
  | .object _ | .fields _ => List Field
  | .field _ => Field
  | .spreads _ _ => List Field × Path

/-- `Flattens program limit query st answer st'`: asked for `query` in the state `st`,
flattening answers `answer` and leaves the state `st'`. The rules for types come first, then
those for inline objects, fields and spreads. -/
inductive Flattens (program : Program) (limit : Nat) :
    (query : FieldQuery) → Lowering → query.Answer → Lowering → Prop where
  | plain {base : BaseType} {st st' : Lowering} {result : TypeRef}
      (run : Flattens program limit (.base base) st result st') :
      Flattens program limit (.type ⟨base, 0⟩) st result st'
  | array {base : BaseType} {dims : UInt32} {st st' : Lowering} {result : TypeRef}
      (dimensions : dims ≠ 0) (run : Flattens program limit (.base base) st result st') :
      Flattens program limit (.type ⟨base, dims⟩) st (.array result dims) st'
  | primitive {name : String} {st : Lowering} :
      Flattens program limit (.base (.primitive name)) st (Program.lowerPrimitive name st).1
        (Program.lowerPrimitive name st).2
  | custom {name : String} {st : Lowering} :
      Flattens program limit (.base (.custom name)) st (program.namedType name) st
  | map {value : FieldType} {st st' : Lowering} {result : TypeRef}
      (run : Flattens program limit (.type value) st result st') :
      Flattens program limit (.base (.map value)) st (.map result) st'
  | inline {body : InlineObject} {st st' : Lowering} {results : List Field}
      (run : Flattens program limit (.object body) st results st') :
      Flattens program limit (.base (.object body)) st (.object results) st'
  /-- No level is left for an inline object. -/
  | refusedObject {fields : List FieldDecl} {spreads : List Reference} {st : Lowering}
      (full : limit ≤ st.depth) :
      Flattens program limit (.object ⟨fields, spreads⟩) st [] (st.refuse limit)
  /-- An inline object starts a chain of its own. -/
  | object {fields : List FieldDecl} {spreads : List Reference} {path : Path}
      {inherited own : List Field} {st st₁ st₂ : Lowering} (room : st.depth < limit)
      (before : Flattens program limit (.spreads spreads []) st.deeper (inherited, path) st₁)
      (after : Flattens program limit (.fields fields) st₁ own st₂) :
      Flattens program limit (.object ⟨fields, spreads⟩) st (inherited ++ own) st₂.leave
  | field {name : String} {docstring : Option String} {annotations : List AnnotationDecl}
      {optional : Bool} {type : FieldType} {results : List Annotation} {result : TypeRef}
      {st st₁ st₂ : Lowering} (annotated : AnnotatesEach program limit annotations st results st₁)
      (run : Flattens program limit (.type type) st₁ result st₂) :
      Flattens program limit (.field ⟨name, docstring, annotations, optional, type⟩) st
        ⟨name, Doc.normalize? docstring, optional, results, result⟩ st₂
  | noFields {st : Lowering} : Flattens program limit (.fields []) st [] st
  | moreFields {field : FieldDecl} {rest : List FieldDecl} {result : Field} {others : List Field}
      {st st₁ st₂ : Lowering} (first : Flattens program limit (.field field) st result st₁)
      (more : Flattens program limit (.fields rest) st₁ others st₂) :
      Flattens program limit (.fields (field :: rest)) st (result :: others) st₂
  | noSpreads {path : Path} {st : Lowering} :
      Flattens program limit (.spreads [] path) st ([], path) st
  /-- A spread that names a member adds nothing. -/
  | memberSpread {spread : Reference} {rest : List Reference} {path : Path}
      {answer : List Field × Path} {st st' : Lowering} (named : spread.member.isSome = true)
      (more : Flattens program limit (.spreads rest path) st answer st') :
      Flattens program limit (.spreads (spread :: rest) path) st answer st'
  /-- The type is being expanded: a circle is cut. -/
  | circularSpread {spread : Reference} {rest : List Reference} {path : Path}
      {answer : List Field × Path} {st st' : Lowering} (plain : spread.member.isSome = false)
      (busy : spread.name ∈ path)
      (more : Flattens program limit (.spreads rest path) (st.note (.typeCycle spread.name))
        answer st') :
      Flattens program limit (.spreads (spread :: rest) path) st answer st'
  | undeclaredSpread {spread : Reference} {rest : List Reference} {path : Path}
      {answer : List Field × Path} {st st' : Lowering} (plain : spread.member.isSome = false)
      (idle : spread.name ∉ path) (absent : program.types.find? spread.name = none)
      (more : Flattens program limit (.spreads rest path) st answer st') :
      Flattens program limit (.spreads (spread :: rest) path) st answer st'
  /-- No level is left for a spread. -/
  | refusedSpread {spread : Reference} {rest : List Reference} {path : Path} {target : TypeDecl}
      {answer : List Field × Path} {st st' : Lowering} (plain : spread.member.isSome = false)
      (idle : spread.name ∉ path) (found : program.types.find? spread.name = some target)
      (full : limit ≤ st.depth)
      (more : Flattens program limit (.spreads rest path) (st.refuse limit) answer st') :
      Flattens program limit (.spreads (spread :: rest) path) st answer st'
  /-- The type is entered. -/
  | spread {spread : Reference} {rest : List Reference} {path path₁ : Path} {target : TypeDecl}
      {inherited own : List Field} {others : List Field × Path} {st st₁ st₂ st₃ : Lowering}
      (plain : spread.member.isSome = false) (idle : spread.name ∉ path)
      (found : program.types.find? spread.name = some target) (room : st.depth < limit)
      (before : Flattens program limit (.spreads target.spreads (path.enter target.name)) st.deeper
        (inherited, path₁) st₁)
      (after : Flattens program limit (.fields target.fields) st₁ own st₂)
      (more : Flattens program limit (.spreads rest (path₁.leave target.name)) st₂.leave
        others st₃) :
      Flattens program limit (.spreads (spread :: rest) path) st
        (inherited ++ own ++ others.1, others.2) st₃

namespace Program

theorem lowerPrimitive_frame (name : String) (st : Lowering) :
    (lowerPrimitive name st).2.depth = st.depth ∧
      (lowerPrimitive name st).2.truncated = st.truncated := by
  unfold lowerPrimitive
  cases Primitive.ofName? name <;> exact ⟨rfl, rfl⟩

end Program

namespace Flattens

variable {program : Program} {limit : Nat} {query : FieldQuery} {st st' : Lowering}
  {answer : query.Answer}

/-- Whatever is opened inside is closed again. -/
theorem frame (run : Flattens program limit query st answer st') : st'.depth = st.depth := by
  induction run with
  | plain _ ih | array _ _ ih | map _ ih | inline _ ih => exact ih
  | primitive => exact (Program.lowerPrimitive_frame _ _).1
  | custom | refusedObject | noFields | noSpreads => rfl
  | object _ _ _ ih₁ ih₂ =>
      simp only [Lowering.leave, ih₂, ih₁, Lowering.deeper, Nat.add_sub_cancel]
  | field annotated _ ih => exact ih.trans annotated.annotations_frame.1
  | moreFields _ _ ih₁ ih₂ => exact ih₂.trans ih₁
  | memberSpread _ _ ih | circularSpread _ _ _ ih | undeclaredSpread _ _ _ _ ih
  | refusedSpread _ _ _ _ _ ih => exact ih
  | spread _ _ _ _ _ _ _ ih₁ ih₂ ih₃ =>
      rw [ih₃]
      simp only [Lowering.leave, ih₂, ih₁, Lowering.deeper, Nat.add_sub_cancel]

section Level

variable {fields : List FieldDecl} {spreads : List Reference} {path : Path}
  {inherited : List Field × Path} {own : List Field} {st₁ st₂ : Lowering}

/-- Where the level of a spread or an inline object is closed, it is the last one that is open. -/
theorem closing_depth
    (before : Flattens program limit (.spreads spreads path) st.deeper inherited st₁)
    (after : Flattens program limit (.fields fields) st₁ own st₂) : st₂.depth = st.depth + 1 :=
  after.frame.trans before.frame

theorem closed_depth
    (before : Flattens program limit (.spreads spreads path) st.deeper inherited st₁)
    (after : Flattens program limit (.fields fields) st₁ own st₂) : st₂.leave.depth = st.depth := by
  rw [Lowering.leave, before.closing_depth after, Nat.add_sub_cancel]

end Level

/-! ## Every query is answered

On each level, spreads are answered under the assumption that everything is on the next one,
and types, fields and objects by their structure. -/

/-- There is a derivation for a query in a state. -/
def Answered (program : Program) (limit : Nat) (query : FieldQuery) (st : Lowering) : Prop :=
  ∃ answer st', Flattens program limit query st answer st'

/-- Spreads have derivations from a level on. -/
def SpreadsAnswered (program : Program) (limit level : Nat) : Prop :=
  ∀ spreads path st, level ≤ st.depth → Answered program limit (.spreads spreads path) st

variable {level : Nat}

mutual

theorem type_answered (deeper : SpreadsAnswered program limit (level + 1)) (type : FieldType)
    (st : Lowering) (h : level ≤ st.depth) : Answered program limit (.type type) st := by
  match type with
  | ⟨base, dims⟩ =>
      obtain ⟨_, _, run⟩ := base_answered deeper base st h
      by_cases flat : dims = 0
      · exact flat ▸ ⟨_, _, .plain run⟩
      · exact ⟨_, _, .array flat run⟩

theorem base_answered (deeper : SpreadsAnswered program limit (level + 1)) (base : BaseType)
    (st : Lowering) (h : level ≤ st.depth) : Answered program limit (.base base) st := by
  match base with
  | .primitive name => exact ⟨_, _, .primitive⟩
  | .custom name => exact ⟨_, _, .custom⟩
  | .map value =>
      obtain ⟨_, _, run⟩ := type_answered deeper value st h
      exact ⟨_, _, .map run⟩
  | .object body =>
      obtain ⟨_, _, run⟩ := object_answered deeper body st h
      exact ⟨_, _, .inline run⟩

theorem object_answered (deeper : SpreadsAnswered program limit (level + 1)) (body : InlineObject)
    (st : Lowering) (h : level ≤ st.depth) : Answered program limit (.object body) st := by
  match body with
  | ⟨fields, spreads⟩ =>
      rcases Nat.lt_or_ge st.depth limit with room | full
      · obtain ⟨_, st₁, before⟩ := deeper spreads [] st.deeper (Nat.succ_le_succ h)
        have hdepth : st₁.depth = st.depth + 1 := before.frame
        obtain ⟨_, _, after⟩ := fields_answered deeper fields st₁ (by omega)
        exact ⟨_, _, .object room before after⟩
      · exact ⟨_, _, .refusedObject full⟩

theorem field_answered (deeper : SpreadsAnswered program limit (level + 1)) (field : FieldDecl)
    (st : Lowering) (h : level ≤ st.depth) : Answered program limit (.field field) st := by
  match field with
  | ⟨_, _, annotations, _, type⟩ =>
      have annotated := annotatesEach_total program limit annotations st
      have hdepth := annotated.annotations_frame.1
      obtain ⟨_, _, run⟩ := type_answered deeper type
        (program.lowerAnnotations limit annotations st).2 (by omega)
      exact ⟨_, _, .field annotated run⟩

theorem fields_answered (deeper : SpreadsAnswered program limit (level + 1))
    (fields : List FieldDecl) (st : Lowering) (h : level ≤ st.depth) :
    Answered program limit (.fields fields) st := by
  match fields with
  | [] => exact ⟨_, _, .noFields⟩
  | decl :: rest =>
      obtain ⟨_, st₁, first⟩ := field_answered deeper decl st h
      have hdepth := first.frame
      obtain ⟨_, _, more⟩ := fields_answered deeper rest st₁ (by omega)
      exact ⟨_, _, .moreFields first more⟩

end

theorem spreads_answered (deeper : level < limit → SpreadsAnswered program limit (level + 1)) :
    SpreadsAnswered program limit level := by
  intro spreads
  induction spreads with
  | nil => exact fun path st _ => ⟨_, _, .noSpreads⟩
  | cons spread rest ih =>
      intro path st h
      cases plain : spread.member.isSome with
      | true =>
          obtain ⟨_, _, more⟩ := ih path st h
          exact ⟨_, _, .memberSpread plain more⟩
      | false =>
          by_cases busy : spread.name ∈ path
          · obtain ⟨_, _, more⟩ := ih path (st.note (.typeCycle spread.name)) h
            exact ⟨_, _, .circularSpread plain busy more⟩
          · cases found : program.types.find? spread.name with
            | none =>
                obtain ⟨_, _, more⟩ := ih path st h
                exact ⟨_, _, .undeclaredSpread plain busy found more⟩
            | some target =>
                rcases Nat.lt_or_ge st.depth limit with room | full
                · have deeper := deeper (by omega)
                  obtain ⟨⟨_, path₁⟩, st₁, before⟩ :=
                    deeper target.spreads (path.enter target.name) st.deeper (Nat.succ_le_succ h)
                  have hbefore : st₁.depth = st.depth + 1 := before.frame
                  obtain ⟨_, st₂, after⟩ := fields_answered deeper target.fields st₁ (by omega)
                  have hleft := before.closed_depth after
                  obtain ⟨_, _, more⟩ := ih (path₁.leave target.name) st₂.leave (by omega)
                  exact ⟨_, _, .spread plain busy found room before after more⟩
                · obtain ⟨_, _, more⟩ := ih path (st.refuse limit) h
                  exact ⟨_, _, .refusedSpread plain busy found full more⟩

/-- Spreads have derivations on every level, by induction on the levels above it. -/
theorem spreadsAnswered (program : Program) (limit level : Nat) :
    SpreadsAnswered program limit level := by
  induction hn : limit - level using Nat.strongRecOn generalizing level with
  | ind n ih =>
      exact spreads_answered fun room => ih (limit - (level + 1)) (by omega) (level + 1) rfl

/-- Flattening always comes to an end. -/
theorem total (program : Program) (limit : Nat) (query : FieldQuery) (st : Lowering) :
    Answered program limit query st := by
  have deeper := spreadsAnswered program limit (st.depth + 1)
  match query with
  | .type type => exact type_answered deeper type st (Nat.le_refl _)
  | .base base => exact base_answered deeper base st (Nat.le_refl _)
  | .object body => exact object_answered deeper body st (Nat.le_refl _)
  | .field decl => exact field_answered deeper decl st (Nat.le_refl _)
  | .fields decls => exact fields_answered deeper decls st (Nat.le_refl _)
  | .spreads spreads path =>
      exact spreadsAnswered program limit st.depth spreads path st (Nat.le_refl _)

end Flattens

/-! ## A derivation is what flattening computes -/

namespace Program

/-- The expansion of what is inside a spread that is entered. -/
def expandInside (program : Program) (limit : Nat) : Nat → FieldExpansion
  | 0 => fun _ path st => (([], path), st)
  | budget + 1 => program.expandFields limit budget

theorem expandFields_eq_inherited (program : Program) (limit budget : Nat) :
    program.expandFields limit budget =
      program.inheritedFields limit (program.expandInside limit budget) := by
  cases budget <;> rfl

/-- The function that answers a query, where so many spreads may be entered inside one
another. -/
def convert (program : Program) (limit budget : Nat) : (query : FieldQuery) → Step query.Answer
  | .type type => type.lower program limit (program.expandFields limit budget)
  | .base base => base.lower program limit (program.expandFields limit budget)
  | .object body => body.lower program limit (program.expandFields limit budget)
  | .field field => field.lower program limit (program.expandFields limit budget)
  | .fields fields => lowerFields program limit (program.expandFields limit budget) fields
  | .spreads spreads path => program.expandFields limit budget spreads path

end Program

/-- The budget covers the levels that spreads inside a query can use up. Outside of spreads
the first level is that of an inline object. -/
def FieldQuery.Covered (limit budget : Nat) (st : Lowering) : FieldQuery → Prop
  | .spreads _ _ => limit ≤ budget + st.depth
  | .type _ | .base _ | .object _ | .field _ | .fields _ => limit ≤ budget + (st.depth + 1)

namespace Flattens

variable {program : Program} {limit : Nat} {query : FieldQuery} {st st' : Lowering}
  {answer : query.Answer}

theorem computed (run : Flattens program limit query st answer st') :
    ∀ budget, query.Covered limit budget st →
      program.convert limit budget query st = (answer, st') := by
  induction run with
  | plain _ ih =>
      intro budget covered
      have hbase := ih budget covered
      simp only [Program.convert] at hbase
      simp only [Program.convert, FieldType.lower, hbase, if_true]
  | array dimensions _ ih =>
      intro budget covered
      have hbase := ih budget covered
      simp only [Program.convert] at hbase
      simp only [Program.convert, FieldType.lower, hbase, if_neg dimensions]
  | primitive | custom | noFields => intro budget _; rfl
  | map _ ih =>
      intro budget covered
      have hvalue := ih budget covered
      simp only [Program.convert] at hvalue
      simp only [Program.convert, BaseType.lower, hvalue]
  | inline _ ih =>
      intro budget covered
      have hbody := ih budget covered
      simp only [Program.convert] at hbody
      simp only [Program.convert, BaseType.lower, hbody]
  | refusedObject full =>
      intro budget _
      simp only [Program.convert, InlineObject.lower, Lowering.enter_full full]
  | object room before _ ih₁ ih₂ =>
      intro budget covered
      have hdepth := before.frame
      have hbefore := ih₁ budget covered
      have hafter := ih₂ budget (by
        simp only [FieldQuery.Covered, Lowering.deeper] at covered hdepth ⊢
        omega)
      simp only [Program.convert] at hbefore hafter
      simp only [Program.convert, InlineObject.lower, Lowering.enter_room room, hbefore, hafter]
  | field annotated _ ih =>
      intro budget covered
      have hdepth := annotated.annotations_frame.1
      have hannotations := annotated.annotations_computed
      have htype := ih budget (by
        simp only [FieldQuery.Covered] at covered ⊢
        omega)
      simp only [Program.convert] at htype
      simp only [Program.convert, FieldDecl.lower, hannotations, htype]
  | moreFields first _ ih₁ ih₂ =>
      intro budget covered
      have hdepth := first.frame
      have hfirst := ih₁ budget covered
      have hmore := ih₂ budget (by
        simp only [FieldQuery.Covered] at covered ⊢
        omega)
      simp only [Program.convert] at hfirst hmore
      simp only [Program.convert, lowerFields, hfirst, hmore]
  | noSpreads =>
      intro budget _
      simp only [Program.convert, Program.expandFields_eq_inherited, Program.inheritedFields]
  | memberSpread named _ ih =>
      intro budget covered
      have hmore := ih budget covered
      simp only [Program.convert, Program.expandFields_eq_inherited] at hmore
      simp only [Program.convert, Program.expandFields_eq_inherited, Program.inheritedFields,
        Program.spreadFields, named, if_true, hmore, List.nil_append]
  | circularSpread plain busy _ ih =>
      intro budget covered
      have hmore := ih budget covered
      simp only [Program.convert, Program.expandFields_eq_inherited] at hmore
      simp only [Program.convert, Program.expandFields_eq_inherited, Program.inheritedFields,
        Program.spreadFields, plain, Bool.false_eq_true, if_false, busy, if_true, hmore,
        List.nil_append]
  | undeclaredSpread plain idle absent _ ih =>
      intro budget covered
      have hmore := ih budget covered
      simp only [Program.convert, Program.expandFields_eq_inherited] at hmore
      simp only [Program.convert, Program.expandFields_eq_inherited, Program.inheritedFields,
        Program.spreadFields, plain, Bool.false_eq_true, if_false, idle, absent, hmore,
        List.nil_append]
  | refusedSpread plain idle found full _ ih =>
      intro budget covered
      have hmore := ih budget covered
      simp only [Program.convert, Program.expandFields_eq_inherited] at hmore
      simp only [Program.convert, Program.expandFields_eq_inherited, Program.inheritedFields,
        Program.spreadFields, plain, Bool.false_eq_true, if_false, idle, found,
        Lowering.enter_full full, hmore, List.nil_append]
  | @spread spread rest path path₁ target inherited own others st st₁ st₂ st₃ plain idle found room
      before after _ ih₁ ih₂ ih₃ =>
      -- A level is left, so the budget is, and what is inside runs on one unit less.
      intro budget covered
      have hbefore : st₁.depth = st.depth + 1 := before.frame
      have hleft : st₂.leave.depth = st.depth := before.closed_depth after
      have hlevels : limit ≤ budget + st.depth := covered
      obtain ⟨less, rfl⟩ : ∃ less, budget = less + 1 := ⟨budget - 1, by omega⟩
      have hspreads : program.expandFields limit less target.spreads (path.enter target.name)
          st.deeper = ((inherited, path₁), st₁) :=
        ih₁ less (show limit ≤ less + (st.depth + 1) by omega)
      have hown : lowerFields program limit (program.expandFields limit less) target.fields st₁ =
          (own, st₂) := ih₂ less (show limit ≤ less + (st₁.depth + 1) by omega)
      have hmore : program.inheritedFields limit (program.expandFields limit less) rest
          (path₁.leave target.name) st₂.leave = (others, st₃) :=
        ih₃ (less + 1) (show limit ≤ less + 1 + st₂.leave.depth by omega)
      show program.inheritedFields limit (program.expandFields limit less) (spread :: rest)
        path st = _
      simp only [Program.inheritedFields, Program.spreadFields, plain, Bool.false_eq_true, if_false,
        idle, found, Lowering.enter_room room, hspreads, hown, hmore]

end Flattens

namespace Program

/-- The answer to a query in a run that starts with the budget of the limit. -/
def flatten (program : Program) (limit : Nat) (query : FieldQuery) : Step query.Answer :=
  program.convert limit limit query

variable {program : Program} {limit : Nat} {query : FieldQuery} {st st' : Lowering}
  {answer : query.Answer}

/-- The judgment and the functions say the same. -/
theorem flatten_eq_iff :
    program.flatten limit query st = (answer, st') ↔
      Flattens program limit query st answer st' := by
  have hcovered : query.Covered limit limit st := by
    cases query <;> exact Nat.le_add_right _ _
  have hcomputed : ∀ {answer : query.Answer} {st' : Lowering},
      Flattens program limit query st answer st' →
        program.flatten limit query st = (answer, st') :=
    fun run => run.computed limit hcovered
  refine ⟨fun h => ?_, hcomputed⟩
  obtain ⟨answer', st'', run⟩ := Flattens.total program limit query st
  rw [hcomputed run] at h
  cases h
  exact run

theorem flattens_flatten (program : Program) (limit : Nat) (query : FieldQuery) (st : Lowering) :
    Flattens program limit query st (program.flatten limit query st).1
      (program.flatten limit query st).2 :=
  flatten_eq_iff.mp rfl

end Program

end SchemaIR
