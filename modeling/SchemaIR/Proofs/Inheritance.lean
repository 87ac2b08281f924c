import Mathlib
import SchemaIR.Proofs.Flattening
import SchemaIR.Proofs.Limits
import SchemaIR.Proofs.Memoization

/-!
# Inherited fields

A type that spreads others has their fields, in the order of the spreads, and then its own.
That the fields of a spread type are the ones it is emitted with is not how they come about:
they are converted once more, one level deeper and in a longer chain of expansions.

Neither makes a difference. A conversion that cuts nothing has the same result on any level
further out, but for the arguments of annotations, whose evaluation depends on what was
evaluated before. And a longer chain matters only to a spread of one of the types that it has
more, so a type that does not lead back to itself can be left out of it.
-/

namespace SchemaIR

/-- A field with the arguments of its annotations and of those in its type changed. -/
def Field.mapArguments (change : Option Value → Option Value) (field : Field) : Field :=
  { field with
    annotations := field.annotations.map (·.mapArgument change)
    type := field.type.mapArguments change }

theorem mapFieldArguments_eq_map (change : Option Value → Option Value) (fields : List Field) :
    mapFieldArguments change fields = fields.map (·.mapArguments change) := by
  induction fields with
  | nil => rfl
  | cons field rest ih =>
      obtain ⟨name, doc, optional, annotations, type⟩ := field
      simp only [mapFieldArguments, ih, List.map_cons, Field.mapArguments]

/-- What is compared of an answer: all but the arguments of annotations. -/
def FieldQuery.bare : (query : FieldQuery) → query.Answer → query.Answer
  | .type _ | .base _ => TypeRef.mapArguments fun _ => none
  | .object _ | .fields _ => mapFieldArguments fun _ => none
  | .field _ => Field.mapArguments fun _ => none
  | .spreads _ _ => fun answer => (mapFieldArguments (fun _ => none) answer.1, answer.2)

theorem Program.lowerPrimitive_result (name : String) (st st' : Lowering) :
    (lowerPrimitive name st).1 = (lowerPrimitive name st').1 := by
  unfold lowerPrimitive
  cases Primitive.ofName? name <;> rfl

theorem Each.annotations_bare {program : Program} {limit : Nat} {decls : List AnnotationDecl}
    {st st' : Lowering} {results : List Annotation}
    (run : AnnotatesEach program limit decls st results st') :
    results.map (·.mapArgument fun _ => none) = decls.map fun decl => ⟨decl.name, none⟩ := by
  have hnames := congrArg (List.map fun name => Annotation.mk name none) run.annotations_names
  rw [List.map_map, List.map_map] at hnames
  exact hnames

namespace Flattens

variable {program : Program} {limit : Nat} {query : FieldQuery} {st st' : Lowering}
  {answer : query.Answer}

theorem truncated_le (run : Flattens program limit query st answer st') :
    st.truncated ≤ st'.truncated := by
  induction run with
  | plain _ ih | array _ _ ih | map _ ih | inline _ ih => exact ih
  | primitive => exact Nat.le_of_eq (Program.lowerPrimitive_frame _ _).2.symm
  | custom | noFields | noSpreads => exact Nat.le_refl _
  | refusedObject => exact Nat.le_succ _
  | object _ _ _ ih₁ ih₂ => exact Nat.le_trans ih₁ ih₂
  | field annotated _ ih => exact annotated.annotations_frame.2 ▸ ih
  | moreFields _ _ ih₁ ih₂ => exact Nat.le_trans ih₁ ih₂
  | memberSpread _ _ ih | circularSpread _ _ _ ih | undeclaredSpread _ _ _ _ ih => exact ih
  | refusedSpread _ _ _ _ _ ih => exact Nat.le_trans (Nat.le_succ _) ih
  | spread _ _ _ _ _ _ _ ih₁ ih₂ ih₃ => exact Nat.le_trans (Nat.le_trans ih₁ ih₂) ih₃

theorem unique {st'' : Lowering} {answer' : query.Answer}
    (run : Flattens program limit query st answer st')
    (run' : Flattens program limit query st answer' st'') : answer = answer' ∧ st' = st'' := by
  have h := (Program.flatten_eq_iff.mpr run).symm.trans (Program.flatten_eq_iff.mpr run')
  exact Prod.mk.inj h

/-! ## Further out -/

/-- What cuts nothing can be done on any level further out, in whatever state of the
evaluation, and looks the same there. -/
theorem further_out (run : Flattens program limit query st answer st')
    (uncut : st'.truncated = st.truncated) :
    ∀ other : Lowering, other.depth ≤ st.depth →
      ∃ answer' other', Flattens program limit query other answer' other' ∧
        query.bare answer' = query.bare answer := by
  induction run with
  | plain _ ih =>
      intro other hout
      obtain ⟨result, other', run, hbare⟩ := ih uncut other hout
      exact ⟨result, other', .plain run, hbare⟩
  | array dimensions _ ih =>
      intro other hout
      obtain ⟨result, other', run, hbare⟩ := ih uncut other hout
      exact ⟨_, other', .array dimensions run, congrArg (TypeRef.array · _) hbare⟩
  | primitive =>
      intro other _
      refine ⟨_, _, .primitive, ?_⟩
      rw [Program.lowerPrimitive_result]
  | custom => exact fun other _ => ⟨_, other, .custom, rfl⟩
  | map _ ih =>
      intro other hout
      obtain ⟨result, other', run, hbare⟩ := ih uncut other hout
      exact ⟨_, other', .map run, congrArg TypeRef.map hbare⟩
  | inline _ ih =>
      intro other hout
      obtain ⟨results, other', run, hbare⟩ := ih uncut other hout
      exact ⟨_, other', .inline run, congrArg TypeRef.object hbare⟩
  | refusedObject => exact absurd uncut (Nat.succ_ne_self _)
  | @object _ _ _ _ _ st st₁ st₂ room before after ih₁ ih₂ =>
      intro other hout
      have hbefore : st.truncated ≤ st₁.truncated := before.truncated_le
      have hafter := after.truncated_le
      have huncut : st₂.truncated = st.truncated := uncut
      obtain ⟨⟨inherited, path⟩, other₁, before', hinherited⟩ :=
        ih₁ (show st₁.truncated = st.truncated by omega) other.deeper (Nat.succ_le_succ hout)
      have hdepth : st₁.depth = st.depth + 1 := before.frame
      have hdepth' : other₁.depth = other.depth + 1 := before'.frame
      obtain ⟨own, other₂, after', hown⟩ := ih₂ (by omega) other₁ (by omega)
      refine ⟨_, _, .object (by omega) before' after', ?_⟩
      obtain ⟨hinherited, -⟩ := Prod.mk.inj hinherited
      exact (mapFieldArguments_append _ _ _).trans
        ((congrArg₂ _ hinherited hown).trans (mapFieldArguments_append _ _ _).symm)
  | @field name _ annotations _ _ _ _ st st₁ st₂ annotated run ih =>
      intro other hout
      have annotated' := annotatesEach_total program limit annotations other
      obtain ⟨hdepth, htruncated⟩ := annotated.annotations_frame
      have hdepth' := annotated'.annotations_frame.1
      obtain ⟨result, other', run', hbare⟩ := ih (by omega)
        (program.lowerAnnotations limit annotations other).2 (by omega)
      refine ⟨_, other', .field annotated' run', ?_⟩
      have hannotations := annotated'.annotations_bare.trans annotated.annotations_bare.symm
      have htype : result.mapArguments (fun _ => none) = _ := hbare
      simp only [FieldQuery.bare, Field.mapArguments, hannotations, htype]
  | noFields => exact fun other _ => ⟨_, other, .noFields, rfl⟩
  | moreFields first more ih₁ ih₂ =>
      intro other hout
      have hfirst := first.truncated_le
      have hmore := more.truncated_le
      obtain ⟨result, other₁, first', hresult⟩ := ih₁ (by omega) other hout
      have hdepth := first.frame
      have hdepth' := first'.frame
      obtain ⟨others, other₂, more', hothers⟩ := ih₂ (by omega) other₁ (by omega)
      refine ⟨_, _, .moreFields first' more', ?_⟩
      simp only [FieldQuery.bare, mapFieldArguments_eq_map] at hresult hothers ⊢
      rw [List.map_cons, List.map_cons, hresult, hothers]
  | noSpreads => exact fun other _ => ⟨_, other, .noSpreads, rfl⟩
  | memberSpread named _ ih =>
      intro other hout
      obtain ⟨answer', other', more, hbare⟩ := ih uncut other hout
      exact ⟨answer', other', .memberSpread named more, hbare⟩
  | @circularSpread spread _ _ _ _ _ plain busy _ ih =>
      intro other hout
      obtain ⟨answer', other', more, hbare⟩ :=
        ih uncut (other.note (.typeCycle spread.name)) hout
      exact ⟨answer', other', .circularSpread plain busy more, hbare⟩
  | undeclaredSpread plain idle absent _ ih =>
      intro other hout
      obtain ⟨answer', other', more, hbare⟩ := ih uncut other hout
      exact ⟨answer', other', .undeclaredSpread plain idle absent more, hbare⟩
  | @refusedSpread _ _ _ _ _ st st' _ _ _ _ more =>
      have hmore : st.truncated + 1 ≤ st'.truncated := more.truncated_le
      omega
  | @spread _ _ _ path₁ target inherited own others st st₁ st₂ st₃ plain idle found room before
      after more ih₁ ih₂ ih₃ =>
      intro other hout
      have hbefore : st.truncated ≤ st₁.truncated := before.truncated_le
      have hafter := after.truncated_le
      have hmore : st₂.truncated ≤ st₃.truncated := more.truncated_le
      obtain ⟨⟨inherited', path'⟩, other₁, before', hinherited⟩ :=
        ih₁ (show st₁.truncated = st.truncated by omega) other.deeper (Nat.succ_le_succ hout)
      have hdepth : st₁.depth = st.depth + 1 := before.frame
      have hdepth' : other₁.depth = other.depth + 1 := before'.frame
      obtain ⟨own', other₂, after', hown⟩ := ih₂ (by omega) other₁ (by omega)
      -- The chain is compared as well, so the remaining spreads start from the same one.
      obtain ⟨hinherited, hpath⟩ := Prod.mk.inj hinherited
      obtain rfl : path' = path₁ := hpath
      have hleft := before.closed_depth after
      have hleft' := before'.closed_depth after'
      obtain ⟨others', other₃, more', hothers⟩ := ih₃ (show st₃.truncated = st₂.truncated by omega)
        other₂.leave (by omega)
      refine ⟨_, other₃, .spread plain idle found (by omega) before' after' more', ?_⟩
      obtain ⟨hothers, hpath⟩ := Prod.mk.inj hothers
      have hown : mapFieldArguments (fun _ => none) own' = _ := hown
      simp only [FieldQuery.bare, mapFieldArguments_append, hinherited, hown, hothers, hpath]

end Flattens

/-! ## Chains of expansions -/

namespace Program

/-- The type that is declared under the first name spreads the second name. -/
def Spreads (program : Program) (source target : String) : Prop :=
  ∃ decl, program.types.find? source = some decl ∧
    ∃ spread ∈ decl.spreads, spread.member.isSome = false ∧ spread.name = target

/-- Spreads lead to a name if they name it or a type they name does. -/
def LeadTo (program : Program) (spreads : List Reference) (name : String) : Prop :=
  ∃ spread ∈ spreads, spread.member.isSome = false ∧
    Relation.ReflTransGen program.Spreads spread.name name

/-- Two chains have the same of what spreads lead to. -/
def SameChain (program : Program) (spreads : List Reference) (path path' : Path) : Prop :=
  ∀ name, program.LeadTo spreads name → (name ∈ path ↔ name ∈ path')

variable {program : Program} {spread : Reference} {rest : List Reference} {path path' : Path}
  {target : TypeDecl}

theorem LeadTo.tail {name : String} (h : program.LeadTo rest name) :
    program.LeadTo (spread :: rest) name := by
  obtain ⟨other, hmem, plain, hleads⟩ := h
  exact ⟨other, List.mem_cons_of_mem _ hmem, plain, hleads⟩

theorem LeadTo.inside {name : String} (h : program.LeadTo target.spreads name)
    (plain : spread.member.isSome = false)
    (found : program.types.find? spread.name = some target) :
    program.LeadTo (spread :: rest) name := by
  obtain ⟨other, hmem, hplain, hleads⟩ := h
  have hedge : program.Spreads spread.name other.name := ⟨target, found, other, hmem, hplain, rfl⟩
  exact ⟨spread, List.mem_cons_self, plain, hleads.head hedge⟩

theorem SameChain.tail (h : program.SameChain (spread :: rest) path path') :
    program.SameChain rest path path' :=
  fun name hleads => h name hleads.tail

theorem SameChain.head (h : program.SameChain (spread :: rest) path path')
    (plain : spread.member.isSome = false) : spread.name ∈ path ↔ spread.name ∈ path' :=
  h spread.name ⟨spread, List.mem_cons_self, plain, .refl⟩

theorem SameChain.inside (h : program.SameChain (spread :: rest) path path')
    (plain : spread.member.isSome = false)
    (found : program.types.find? spread.name = some target) :
    program.SameChain target.spreads (path.enter target.name) (path'.enter target.name) := by
  intro name hleads
  simp only [Path.mem_enter, h name (hleads.inside plain found)]

end Program

/-- Asked for spreads, flattening goes on with the chain it was given. -/
def FieldQuery.KeepsChain : (query : FieldQuery) → query.Answer → Prop
  | .spreads _ path, answer => answer.2 = path
  | .type _, _ | .base _, _ | .object _, _ | .field _, _ | .fields _, _ => True

/-- Spreads in any chain that has the same of what they lead to add the same fields. -/
def FieldQuery.Rerouted (program : Program) (limit : Nat) :
    (query : FieldQuery) → Lowering → query.Answer → Lowering → Prop
  | .spreads items path, st, answer, st' => ∀ path', program.SameChain items path path' →
      Flattens program limit (.spreads items path') st (answer.1, path') st'
  | .type _, _, _, _ | .base _, _, _, _ | .object _, _, _, _ | .field _, _, _, _
  | .fields _, _, _, _ => True

namespace Flattens

variable {program : Program} {limit : Nat} {query : FieldQuery} {st st' : Lowering}
  {answer : query.Answer}

/-- A type that is declared under its own name leaves the chain as it was before. -/
theorem keepsChain
    (keyed : ∀ key decl, program.types.find? key = some decl → decl.name = key)
    (run : Flattens program limit query st answer st') : query.KeepsChain answer := by
  induction run with
  | plain | array | primitive | custom | map | inline | refusedObject | object | field | noFields
  | moreFields => trivial
  | noSpreads => rfl
  | memberSpread _ _ ih | circularSpread _ _ _ ih | undeclaredSpread _ _ _ _ ih
  | refusedSpread _ _ _ _ _ ih => exact ih
  | @spread spread _ path path₁ target _ _ others _ _ _ _ _ idle found _ _ _ _ ih₁ _ ih₃ =>
      have hname : target.name = spread.name := keyed _ _ found
      have hinside : path₁ = path.enter target.name := ih₁
      have hmore : others.2 = path₁.leave target.name := ih₃
      exact hmore.trans (hinside ▸ Path.leave_enter (hname ▸ idle))

/-- After a type that is declared under its own name the chain is what it was before it. -/
theorem leave_entered
    (keyed : ∀ key decl, program.types.find? key = some decl → decl.name = key)
    {spread : Reference} {target : TypeDecl} {path path₁ : Path} {inherited : List Field}
    (idle : spread.name ∉ path) (found : program.types.find? spread.name = some target)
    (before : Flattens program limit (.spreads target.spreads (path.enter target.name)) st
      (inherited, path₁) st') : path₁.leave target.name = path := by
  have hinside : path₁ = path.enter target.name := before.keepsChain keyed
  rw [hinside, Path.leave_enter (keyed _ _ found ▸ idle)]

theorem rerouted
    (keyed : ∀ key decl, program.types.find? key = some decl → decl.name = key)
    (run : Flattens program limit query st answer st') :
    query.Rerouted program limit st answer st' := by
  induction run with
  | plain | array | primitive | custom | map | inline | refusedObject | object | field | noFields
  | moreFields => trivial
  | noSpreads => exact fun path' _ => .noSpreads
  | memberSpread named _ ih => exact fun path' same => .memberSpread named (ih path' same.tail)
  | circularSpread plain busy _ ih =>
      exact fun path' same => .circularSpread plain ((same.head plain).mp busy) (ih path' same.tail)
  | undeclaredSpread plain idle absent _ ih =>
      exact fun path' same =>
        .undeclaredSpread plain (fun busy => idle ((same.head plain).mpr busy)) absent
          (ih path' same.tail)
  | refusedSpread plain idle found full _ ih =>
      exact fun path' same => .refusedSpread plain (fun busy => idle ((same.head plain).mpr busy))
        found full (ih path' same.tail)
  | @spread spread rest path path₁ target _ _ others _ _ st₂ st₃ plain idle found room before
      after more ih₁ _ ih₃ =>
      intro path' same
      have hname := keyed _ _ found
      have idle' : spread.name ∉ path' := fun busy => idle ((same.head plain).mpr busy)
      have hpath := before.leave_entered keyed idle found
      have hpath' : (path'.enter target.name).leave target.name = path' :=
        Path.leave_enter (hname ▸ idle')
      have hbefore := ih₁ (path'.enter target.name) (same.inside plain found)
      have hmore : Flattens program limit
          (.spreads rest ((path'.enter target.name).leave target.name)) st₂.leave
          (others.1, path') st₃ := by
        rw [hpath']
        exact ih₃ path' (hpath ▸ same.tail)
      exact .spread plain idle' found room hbefore after hmore

end Flattens

/-! ## Emitted fields -/

namespace Program

variable {program : Program} {limit : Nat}

/-- The fields are those of a declared type, converted on the outermost level without a
cut. -/
def EmitsFields (program : Program) (limit : Nat) (decl : TypeDecl) (fields : List Field) : Prop :=
  ∃ inherited own path st mid st', st.depth = 0 ∧ st'.truncated = st.truncated ∧
    Flattens program limit (.spreads decl.spreads [decl.name]) st (inherited, path) mid ∧
    Flattens program limit (.fields decl.fields) mid own st' ∧ fields = inherited ++ own

/-- The declared types that a list of spreads enters. -/
def bases (program : Program) (spreads : List Reference) : List TypeDecl :=
  spreads.filterMap fun spread =>
    if spread.member.isSome then none else program.types.find? spread.name

/-- Fields without the arguments of annotations. -/
def withoutArguments (fields : List Field) : List Field :=
  mapFieldArguments (fun _ => none) fields

/-- What a spread adds, one level deeper and behind the type that spreads it, is what its
target is emitted with. -/
theorem EmitsFields.of_spread
    (keyed : ∀ key decl, program.types.find? key = some decl → decl.name = key)
    {owner : String} {target : TypeDecl} {fields inherited own : List Field} {path : Path}
    {st st₁ st₂ : Lowering} (emits : program.EmitsFields limit target fields)
    (straight : ¬ program.LeadTo target.spreads owner)
    (before : Flattens program limit (.spreads target.spreads (Path.enter [owner] target.name)) st
      (inherited, path) st₁)
    (after : Flattens program limit (.fields target.fields) st₁ own st₂)
    (uncut : st₂.truncated = st.truncated) :
    withoutArguments (inherited ++ own) = withoutArguments fields := by
  obtain ⟨inherited', own', path', start, mid, last, hdepth, huncut, before', after', rfl⟩ := emits
  have hsame : program.SameChain target.spreads (Path.enter [owner] target.name) [target.name] := by
    intro name hleads
    have hname : name ≠ owner := fun h => straight (h ▸ hleads)
    simp [Path.mem_enter, hname]
  have hbefore := before.truncated_le
  have hafter := after.truncated_le
  have hreroute := before.rerouted keyed [target.name] hsame
  obtain ⟨answer, _, hrun, hbare⟩ := hreroute.further_out (by omega) start (by omega)
  obtain ⟨rfl, -⟩ := hrun.unique before'
  have hmid : mid.depth = start.depth := before'.frame
  obtain ⟨answer, _, hrun', hbare'⟩ := after.further_out (by omega) mid (by omega)
  obtain ⟨hanswer, -⟩ := hrun'.unique after'
  have hinherited : withoutArguments inherited' = withoutArguments inherited :=
    congrArg Prod.fst hbare
  have hown : withoutArguments own' = withoutArguments own := hanswer ▸ hbare'
  unfold withoutArguments at hinherited hown ⊢
  rw [mapFieldArguments_append, mapFieldArguments_append, hinherited, hown]

/-- The fields that the spreads of a type add are those their targets are emitted with. -/
theorem inherited_eq_flatMap
    (keyed : ∀ key decl, program.types.find? key = some decl → decl.name = key)
    {owner : String} {spreads : List Reference} (emitted : TypeDecl → List Field)
    (emits : ∀ base ∈ program.bases spreads, program.EmitsFields limit base (emitted base))
    (straight : ¬ program.LeadTo spreads owner) {st st' : Lowering} {inherited : List Field}
    {path : Path}
    (run : Flattens program limit (.spreads spreads [owner]) st (inherited, path) st')
    (uncut : st'.truncated = st.truncated) :
    withoutArguments inherited =
      (program.bases spreads).flatMap fun base => withoutArguments (emitted base) := by
  induction spreads generalizing st inherited with
  | nil =>
      cases run
      rfl
  | cons spread rest ih =>
      have hstraight : ¬ program.LeadTo rest owner := fun h => straight h.tail
      cases run with
      | memberSpread named more =>
          have hbases : program.bases (spread :: rest) = program.bases rest := by
            simp [bases, named]
          rw [hbases] at emits ⊢
          exact ih emits hstraight more uncut
      | circularSpread plain busy more =>
          -- The chain has the owner alone, and the spreads do not lead to it.
          have hname : spread.name = owner := by simpa using busy
          exact absurd ⟨spread, List.mem_cons_self, plain, hname ▸ .refl⟩ straight
      | undeclaredSpread plain idle absent more =>
          have hbases : program.bases (spread :: rest) = program.bases rest := by
            simp [bases, plain, absent]
          rw [hbases] at emits ⊢
          exact ih emits hstraight more uncut
      | refusedSpread plain idle found full more =>
          have hmore : st.truncated + 1 ≤ st'.truncated := more.truncated_le
          omega
      | @spread _ _ _ path₁ target inherited own others _ st₁ st₂ _ plain idle found room before
          after more =>
          have hbases : program.bases (spread :: rest) = target :: program.bases rest := by
            simp [bases, plain, found]
          rw [hbases] at emits ⊢
          have hbefore : st.truncated ≤ st₁.truncated := before.truncated_le
          have hafter := after.truncated_le
          have hmore : st₂.truncated ≤ st'.truncated := more.truncated_le
          rw [before.leave_entered keyed idle found] at more
          have hfirst : withoutArguments (inherited ++ own) = withoutArguments (emitted target) :=
            (emits target List.mem_cons_self).of_spread keyed
              (fun h => straight (h.inside plain found)) before after
              (show st₂.truncated = st.truncated by omega)
          have hrest := ih (fun base hbase => emits base (List.mem_cons_of_mem _ hbase)) hstraight
            more (show st'.truncated = st₂.truncated by omega)
          unfold withoutArguments at hfirst hrest ⊢
          rw [mapFieldArguments_append, hfirst, hrest, List.flatMap_cons]

theorem lowerType_emits (decl : TypeDecl) (st : Lowering) (outermost : st.depth = 0)
    (uncut : (program.lowerType limit decl st).2.truncated = 0) :
    program.EmitsFields limit decl (program.lowerType limit decl st).1.fields := by
  let noted := st.note (.convertingType decl.name)
  let start := (program.lowerAnnotations limit decl.annotations noted).2
  have hdepth : start.depth = st.depth :=
    (annotatesEach_total program limit decl.annotations noted).annotations_frame.1
  have before := program.flattens_flatten limit (.spreads decl.spreads [decl.name]) start
  have after := program.flattens_flatten limit (.fields decl.fields)
    (program.flatten limit (.spreads decl.spreads [decl.name]) start).2
  have hbefore := before.truncated_le
  have hafter := after.truncated_le
  have hlast : (program.flatten limit (.fields decl.fields)
    (program.flatten limit (.spreads decl.spreads [decl.name]) start).2).2.truncated = 0 := uncut
  exact ⟨_, _, _, start, _, _, by omega, by omega, before, after, rfl⟩

theorem eachType_emits (decls : List TypeDecl) (st : Lowering) (outermost : st.depth = 0)
    (uncut : (eachStep (program.lowerType limit) decls st).2.stats.depthExceeded = 0) :
    ∀ type ∈ (eachStep (program.lowerType limit) decls st).1,
      ∃ decl ∈ decls, type.name = decl.name ∧ program.EmitsFields limit decl type.fields := by
  induction decls generalizing st with
  | nil => exact List.forall_mem_nil _
  | cons decl rest ih =>
      have hfollows : (Likeness.bare program limit limit).Follows (fun _ => ()) 0
          (program.lowerType limit decl) (program.lowerType limit decl) :=
        (Likeness.lowerType_follows (Nat.le_refl limit) decl).of_view fun _ _ _ => rfl
      have hrest : (Likeness.bare program limit limit).Follows
          (List.map (TypeDef.mapArguments fun _ => none)) 0
          (eachStep (program.lowerType limit) rest) (eachStep (program.lowerType limit) rest) :=
        .each fun decl _ => Likeness.lowerType_follows (Nat.le_refl limit) decl
      let first := program.lowerType limit decl st
      have hdepth : first.2.depth = 0 := (hfollows.closes st (Nat.zero_le _)).trans outermost
      have huncut : (eachStep (program.lowerType limit) rest first.2).2.stats.depthExceeded = 0 :=
        uncut
      have hcount := (hrest.tallies first.2 (Nat.zero_le _)).le
      have hnone : first.2.resolver.stats.depthExceeded + first.2.truncated = 0 :=
        Nat.le_zero.mp (huncut ▸ hcount)
      have hfirst : first.2.truncated = 0 := by omega
      intro type hmem
      rcases List.mem_cons.mp hmem with rfl | hmem
      · exact ⟨decl, List.mem_cons_self, rfl, lowerType_emits decl st outermost hfirst⟩
      · obtain ⟨other, hother, h⟩ := ih first.2 hdepth huncut type hmem
        exact ⟨other, List.mem_cons_of_mem _ hother, h⟩

/-- A declared type is emitted under its name, with its fields. -/
theorem exists_emitted
    (keyed : ∀ key decl, program.types.find? key = some decl → decl.name = key)
    (uncut : (program.lower limit).stats.depthExceeded = 0) {decl : TypeDecl}
    (found : program.types.find? decl.name = some decl) :
    ∃ type, (program.lower limit).schema.findType? decl.name = some type ∧
      program.EmitsFields limit decl type.fields := by
  let types := eachStep (program.lowerType limit) program.types.sorted {}
  have huncut : types.2.stats.depthExceeded = 0 := types_uncut uncut
  have named : ∀ decl st, (program.lowerType limit decl st).1.name = decl.name := fun _ _ => rfl
  obtain ⟨type, hmem, hname⟩ := exists_mem_sortByName named found {}
  have hsome : ((program.lower limit).schema.findType? decl.name).isSome :=
    List.find?_isSome.mpr ⟨type, hmem, decide_eq_true hname⟩
  obtain ⟨type, hfind⟩ := Option.isSome_iff_exists.mp hsome
  refine ⟨type, hfind, ?_⟩
  have hmem : type ∈ types.1 := mem_sortByName.mp (List.mem_of_find?_eq_some hfind)
  have hname : type.name = decl.name := by simpa using List.find?_some hfind
  obtain ⟨other, hother, hname', emits⟩ := eachType_emits _ _ rfl huncut type hmem
  -- Types are declared under their own names, so no other declaration has this one.
  obtain ⟨key, hkey⟩ := Table.mem_sorted.mp hother
  have hsame : key = decl.name := by rw [← keyed key other hkey, ← hname', hname]
  rw [hsame, found] at hkey
  cases hkey
  exact emits

/-- A type that the spreads of a type lead to is reached from it. -/
theorem LeadTo.reaches {decl : TypeDecl} {name : String}
    (found : program.types.find? decl.name = some decl)
    (h : program.LeadTo decl.spreads name) :
    Relation.TransGen program.Spreads decl.name name := by
  obtain ⟨spread, hmem, plain, hleads⟩ := h
  exact .head' ⟨decl, found, spread, hmem, plain, rfl⟩ hleads

theorem find?_of_mem_bases
    (keyed : ∀ key decl, program.types.find? key = some decl → decl.name = key)
    {spreads : List Reference} {base : TypeDecl} (h : base ∈ program.bases spreads) :
    program.types.find? base.name = some base := by
  obtain ⟨spread, -, hbase⟩ := List.mem_filterMap.mp h
  split at hbase
  · cases hbase
  · rw [keyed _ _ hbase]
    exact hbase

/-- Where types are declared under their own names and nothing is cut, a type that does not
reach itself through spreads is emitted with the fields that the types it spreads are emitted
with, in the order of the spreads, and then with its own fields as they are converted on the
outermost level. Arguments of annotations are left out of the comparison. -/
theorem emitted_fields_eq_flatMap (program : Program) (limit : Nat)
    (keyed : ∀ key decl, program.types.find? key = some decl → decl.name = key)
    (uncut : (program.lower limit).stats.depthExceeded = 0) (decl : TypeDecl)
    (found : program.types.find? decl.name = some decl)
    (straight : ¬ Relation.TransGen program.Spreads decl.name decl.name) :
    ∃ (type : TypeDef) (bases : List TypeDef),
      (program.lower limit).schema.findType? decl.name = some type ∧
      (program.bases decl.spreads).map
        (fun base => (program.lower limit).schema.findType? base.name) = bases.map some ∧
      withoutArguments type.fields =
        bases.flatMap (fun base => withoutArguments base.fields) ++
          withoutArguments
            (lowerFields program limit (program.expandFields limit limit) decl.fields {}).1 := by
  let emitted (base : TypeDecl) : TypeDef :=
    ((program.lower limit).schema.findType? base.name).getD default
  obtain ⟨type, hfind, inherited, own, path, st, mid, st', hdepth, hcount, before, after,
    hfields⟩ := exists_emitted keyed uncut found
  have hbases : ∀ base ∈ program.bases decl.spreads,
      (program.lower limit).schema.findType? base.name = some (emitted base) ∧
        program.EmitsFields limit base (emitted base).fields := by
    intro base hmem
    obtain ⟨type, hfind, emits⟩ := exists_emitted keyed uncut (find?_of_mem_bases keyed hmem)
    have hemitted : emitted base = type := by simp only [emitted, hfind, Option.getD_some]
    exact hemitted ▸ ⟨hfind, emits⟩
  have hbefore := before.truncated_le
  have hafter := after.truncated_le
  have hmid : mid.depth = st.depth := before.frame
  have hinherited := inherited_eq_flatMap keyed (fun base => (emitted base).fields)
    (fun base hmem => (hbases base hmem).2) (fun h => straight (h.reaches found)) before (by omega)
  obtain ⟨own', _, hrun, hbare⟩ := after.further_out (by omega) {} (Nat.zero_le _)
  have hown : (lowerFields program limit (program.expandFields limit limit) decl.fields {}).1 =
      own' := congrArg Prod.fst (flatten_eq_iff.mpr hrun)
  have hbare : withoutArguments own' = withoutArguments own := hbare
  refine ⟨type, (program.bases decl.spreads).map emitted, hfind, ?_, ?_⟩
  · rw [List.map_map]
    exact List.map_congr_left fun base hmem => (hbases base hmem).1
  · calc withoutArguments type.fields
        = withoutArguments inherited ++ withoutArguments own := by
          rw [hfields]
          exact mapFieldArguments_append _ _ _
      _ = _ := by rw [hinherited, hown, hbare, List.flatMap_map]

theorem straight_of_rank (program : Program) (rank : String → Nat)
    (falls : ∀ entry ∈ program.types.entries, ∀ spread ∈ entry.2.spreads,
      rank spread.name < rank entry.1) (name : String) :
    ¬ Relation.TransGen program.Spreads name name := by
  have hpath : ∀ {a b}, Relation.TransGen program.Spreads a b → rank b < rank a := by
    have hedge : ∀ {a b}, program.Spreads a b → rank b < rank a := by
      rintro a b ⟨decl, found, spread, hmem, -, rfl⟩
      exact falls _ (Table.mem_of_find? found) spread hmem
    intro a b path
    induction path with
    | single edge => exact hedge edge
    | tail _ edge ih => exact Nat.lt_trans (hedge edge) ih
  exact fun circle => Nat.lt_irrefl _ (hpath circle)

/-- A type that spreads two others and a name which is not declared. -/
def diamondUser : TypeDecl :=
  (((TypeDecl.called "User").withSpread "Named").withSpread "Nowhere").withSpread "Placed"
    |>.withField (.called "tags" ((FieldType.primitive "string").arrayOf 2))

/-- The fields of `Base` come to `User` in two ways, and once more in an inline object. -/
def diamond : Program :=
  ({} : Program).declareType ((TypeDecl.called "Base").withField
      ((FieldDecl.called "id" (.primitive "int")).annotated
        { name := "key", argument := some (.constant "first") }))
    |>.declareType (((TypeDecl.called "Named").withSpread "Base").withField
        (FieldDecl.called "name" (.primitive "string")).asOptional)
    |>.declareType (((TypeDecl.called "Placed").withSpread "Base").withField
        (.called "at" (.object (({} : InlineObject).withSpread "Named"))))
    |>.declareType diamondUser
    |>.declareConst (.called "first" (.ofInt 1))

theorem emitted_fields_eq_flatMap_diamond :
    (diamond.lower 4).stats.depthExceeded = 0 ∧
      (diamond.bases diamondUser.spreads).map TypeDecl.name = ["Named", "Placed"] ∧
      ∃ (type : TypeDef) (bases : List TypeDef),
        (diamond.lower 4).schema.findType? "User" = some type ∧
        (diamond.bases diamondUser.spreads).map
          (fun base => (diamond.lower 4).schema.findType? base.name) = bases.map some ∧
        withoutArguments type.fields =
          bases.flatMap (fun base => withoutArguments base.fields) ++
            [⟨"tags", none, false, [], .array (.primitive .string) 2⟩] := by
  have keyed : ∀ entry ∈ diamond.types.entries, entry.2.name = entry.1 := by decide
  have uncut : (diamond.lower 4).stats.depthExceeded = 0 := by cbv
  have straight := straight_of_rank diamond
    (fun name => ["Base", "Nowhere", "Named", "Placed", "User"].idxOf name)
    (by decide +kernel) "User"
  have hown : withoutArguments
      (lowerFields diamond 4 (diamond.expandFields 4 4) diamondUser.fields {}).1 =
        [⟨"tags", none, false, [], .array (.primitive .string) 2⟩] := by cbv
  rw [← hown]
  exact ⟨uncut, by cbv, emitted_fields_eq_flatMap diamond 4
    (fun _ _ found => keyed _ (Table.mem_of_find? found)) uncut diamondUser rfl straight⟩

end Program

end SchemaIR
