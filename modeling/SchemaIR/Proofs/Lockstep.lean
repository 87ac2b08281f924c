import Mathlib
import SchemaIR.Proofs.Raising

/-!
# Lowering under a higher limit

Two runs of one program, the second under a higher limit, are followed step by step. They
stay alike as long as the first one cuts nothing: every spread and every inline object that
it enters is entered by the second one at the same depth.

What alike means is left open. Compared as a whole, the two runs are the same if the limit
makes no difference to any enumeration. Compared without the arguments of annotations they
are alike in any case, since nothing that is evaluated has an influence on the fields.
-/

namespace SchemaIR

/-! ## What of a schema is compared -/

/-- An annotation with its argument changed. -/
def Annotation.mapArgument (change : Option Value → Option Value) : Annotation → Annotation
  | ⟨name, argument⟩ => ⟨name, change argument⟩

mutual

/-- A type with the arguments of its annotations changed, at any depth. -/
def TypeRef.mapArguments (change : Option Value → Option Value) : TypeRef → TypeRef
  | .array item dims => .array (item.mapArguments change) dims
  | .map value => .map (value.mapArguments change)
  | .object fields => .object (mapFieldArguments change fields)
  | .primitive primitive => .primitive primitive
  | .named name => .named name
  | .enumeration name type => .enumeration name type

/-- Fields with the arguments of their annotations and of those in their types changed. -/
def mapFieldArguments (change : Option Value → Option Value) : List Field → List Field
  | [] => []
  | ⟨name, doc, optional, annotations, type⟩ :: rest =>
      ⟨name, doc, optional, annotations.map (·.mapArgument change), type.mapArguments change⟩ ::
        mapFieldArguments change rest

end

/-- A declared type with the arguments of its annotations and of those in its fields
changed. -/
def TypeDef.mapArguments (change : Option Value → Option Value) (type : TypeDef) : TypeDef :=
  { type with
    annotations := type.annotations.map (·.mapArgument change)
    fields := mapFieldArguments change type.fields }

theorem map_mapArgument_id (annotations : List Annotation) :
    annotations.map (·.mapArgument id) = annotations :=
  List.map_id annotations

mutual

theorem TypeRef.mapArguments_id (type : TypeRef) : type.mapArguments id = type := by
  match type with
  | .array item _ | .map item => rw [TypeRef.mapArguments, item.mapArguments_id]
  | .object fields => rw [TypeRef.mapArguments, mapFieldArguments_id fields]
  | .primitive _ | .named _ | .enumeration _ _ => rfl

theorem mapFieldArguments_id (fields : List Field) : mapFieldArguments id fields = fields := by
  match fields with
  | [] => rfl
  | ⟨_, _, _, annotations, type⟩ :: rest =>
      rw [mapFieldArguments, map_mapArgument_id, type.mapArguments_id, mapFieldArguments_id rest]

end

theorem TypeDef.mapArguments_id (type : TypeDef) : type.mapArguments id = type := by
  rw [TypeDef.mapArguments, map_mapArgument_id, mapFieldArguments_id]

theorem mapFieldArguments_append (change : Option Value → Option Value)
    (fields more : List Field) :
    mapFieldArguments change (fields ++ more) =
      mapFieldArguments change fields ++ mapFieldArguments change more := by
  induction fields with
  | nil => rfl
  | cons field rest ih =>
      obtain ⟨name, doc, optional, annotations, type⟩ := field
      simp only [List.cons_append, mapFieldArguments, ih]

/-! ## Steps that follow each other -/

/-- What was cut between two states of a run is reported, and it is counted. -/
def Lowering.Tallies (st st' : Lowering) : Prop :=
  st.resolver.log.Tallies st.stats.depthExceeded st'.resolver.log st'.stats.depthExceeded

/-- A way to compare a run with one under a higher limit: what is compared of an answer of
the evaluation, and a tie between the two evaluations that lasts while the first one cuts
nothing. -/
structure Likeness (program : Program) (limit higher : Nat) where
  view : Option Value → Option Value
  Tied : Resolver → Resolver → Prop
  report : ∀ {st st'} events, Tied st st' → Tied (st.report events) (st'.report events)
  call : ∀ call {st st'}, Tied st st' →
    (program.call limit call st).2.stats.depthExceeded = st.stats.depthExceeded →
      view (program.call limit call st).1 = view (program.call higher call st').1 ∧
        Tied (program.call limit call st).2 (program.call higher call st').2

namespace Likeness

variable {program : Program} {limit higher : Nat}

/-- Everything is compared. -/
def whole (raise : limit ≤ higher) (members : program.SameMembers limit higher) :
    Likeness program limit higher where
  view := id
  Tied := Eq
  report _ tied := tied ▸ rfl
  call call st st' tied uncut := by
    subst tied
    have run := (program.evaluates_call limit call st).raise raise members uncut
    rw [program.call_eq_answer higher, Program.answer_eq_iff.mpr run]
    exact ⟨rfl, rfl⟩

/-- Evaluation is left out of the comparison. -/
def bare (program : Program) (limit higher : Nat) : Likeness program limit higher where
  view _ := none
  Tied _ _ := True
  report _ _ := trivial
  call _ _ _ _ _ := ⟨rfl, trivial⟩

variable (like : Likeness program limit higher)

/-- Two states are tied and equally deep. -/
structure Alike (st st' : Lowering) : Prop where
  tied : like.Tied st.resolver st'.resolver
  depth : st'.depth = st.depth
  truncated : st'.truncated = st.truncated

/-- From a depth on, one step does what the other does: it closes what it opens, it counts
what it cuts, and where it cuts nothing the two lead from like states to like states with
results that look the same. -/
structure Follows {α γ : Type} (view : α → γ) (level : Nat) (low high : Step α) : Prop where
  closes : ∀ st : Lowering, level ≤ st.depth → (low st).2.depth = st.depth
  tallies : ∀ st : Lowering, level ≤ st.depth → st.Tallies (low st).2
  alike : ∀ st st' : Lowering, level ≤ st.depth → like.Alike st st' →
    (low st).2.stats.depthExceeded = st.stats.depthExceeded →
      view (low st).1 = view (high st').1 ∧ like.Alike (low st).2 (high st').2

variable {like} {α β γ δ : Type} {view : α → γ} {view' : β → δ} {level : Nat}

theorem Alike.report {st st' : Lowering} (h : like.Alike st st') (events : Log) :
    like.Alike { st with resolver := st.resolver.report events }
      { st' with resolver := st'.resolver.report events } :=
  ⟨like.report events h.tied, h.depth, h.truncated⟩

theorem Follows.pure {a a' : α} (same : view a = view a') :
    like.Follows view level (fun st => (a, st)) (fun st => (a', st)) where
  closes _ _ := rfl
  tallies _ _ := .refl _ _
  alike _ _ _ halike _ := ⟨same, halike⟩

theorem Follows.mono {low high : Step α} {level' : Nat} (h : like.Follows view level low high)
    (deeper : level ≤ level') : like.Follows view level' low high where
  closes st hlevel := h.closes st (Nat.le_trans deeper hlevel)
  tallies st hlevel := h.tallies st (Nat.le_trans deeper hlevel)
  alike st st' hlevel := h.alike st st' (Nat.le_trans deeper hlevel)

/-- The first steps close what they open, so the second ones start at the same depth. -/
theorem Follows.bind {low high : Step α} {low' high' : α → Step β}
    (first : like.Follows view level low high)
    (second : ∀ a a', view a = view a' → like.Follows view' level (low' a) (high' a')) :
    like.Follows view' level (fun st => low' (low st).1 (low st).2)
      (fun st => high' (high st).1 (high st).2) where
  closes st hlevel := by
    have hfirst := first.closes st hlevel
    exact ((second _ _ rfl).closes (low st).2 (by omega)).trans hfirst
  tallies st hlevel := by
    have hfirst := first.closes st hlevel
    exact (first.tallies st hlevel).trans ((second _ _ rfl).tallies (low st).2 (by omega))
  alike st st' hlevel halike uncut := by
    have hdepth := first.closes st hlevel
    have hlevel' : level ≤ (low st).2.depth := by omega
    -- Neither step takes a count back, so an unchanged count means two uncut steps.
    have hfirst := (first.tallies st hlevel).le
    have hsecond := ((second (low st).1 _ rfl).tallies (low st).2 hlevel').le
    obtain ⟨hsame, hmid⟩ := first.alike st st' hlevel halike (by omega)
    exact (second _ _ hsame).alike (low st).2 (high st').2 hlevel' hmid (by omega)

theorem Follows.map {low high : Step α} (h : like.Follows view level low high) {f f' : α → β}
    (same : ∀ a a', view a = view a' → view' (f a) = view' (f' a')) :
    like.Follows view' level (fun st => (f (low st).1, (low st).2))
      (fun st => (f' (high st).1, (high st).2)) :=
  h.bind fun a a' hsame => .pure (same a a' hsame)

theorem Follows.of_view {low high : Step α} (h : like.Follows view level low high)
    {coarser : α → δ} (same : ∀ a a', view a = view a' → coarser a = coarser a') :
    like.Follows coarser level low high where
  closes := h.closes
  tallies := h.tallies
  alike st st' hlevel halike uncut :=
    (h.alike st st' hlevel halike uncut).imp_left (same _ _)

theorem Follows.report {low high : Step α} (h : like.Follows view level low high) {events : Log}
    (quiet : events.cuts = 0) :
    like.Follows view level
      (fun st => low { st with resolver := st.resolver.report events })
      (fun st => high { st with resolver := st.resolver.report events }) where
  closes st hlevel := h.closes { st with resolver := st.resolver.report events } hlevel
  tallies st hlevel := (Log.Tallies.append _ _ quiet).trans
    (h.tallies { st with resolver := st.resolver.report events } hlevel)
  alike _ _ hlevel halike uncut := h.alike _ _ hlevel (halike.report events) uncut

theorem Follows.note {low high : Step α} (h : like.Follows view level low high) {event : Event}
    (quiet : event.isCut = false) :
    like.Follows view level (fun st => low (st.note event)) (fun st => high (st.note event)) := by
  have hcuts : Log.cuts #[event] = 0 := by rw [Log.cuts_singleton, quiet]; rfl
  simp only [Lowering.note, Resolver.note_eq_report]
  exact h.report hcuts

theorem Follows.each {low high : β → Step α} {items : List β}
    (h : ∀ b ∈ items, like.Follows view level (low b) (high b)) :
    like.Follows (List.map view) level (eachStep low items) (eachStep high items) := by
  induction items with
  | nil => exact .pure rfl
  | cons b rest ih =>
      have hrest := ih fun b hb => h b (List.mem_cons_of_mem _ hb)
      refine (h b List.mem_cons_self).bind fun a a' hfirst => hrest.map fun as as' hothers => ?_
      simp only [List.map_cons, hfirst, hothers]

/-- A step inside a level of its own. Where no level is left for it the result is the one
given. -/
def nested (limit : Nat) (dropped : α) (inner : Step α) : Step α := fun st =>
  match st.enter limit with
  | (false, st) => (dropped, st)
  | (true, st) => ((inner st).1, (inner st).2.leave)

theorem nested_full {dropped : α} {inner : Step α} {st : Lowering} (full : limit ≤ st.depth) :
    nested limit dropped inner st =
      (dropped, { st.note (.nestingTooDeep limit) with truncated := st.truncated + 1 }) := by
  simp only [nested, Lowering.enter, if_pos full]

theorem nested_room {dropped : α} {inner : Step α} {st : Lowering} (room : ¬ limit ≤ st.depth) :
    nested limit dropped inner st =
      ((inner { st with depth := st.depth + 1 }).1,
        (inner { st with depth := st.depth + 1 }).2.leave) := by
  simp only [nested, Lowering.enter, if_neg room]

/-- The one place where a level is refused, and it is counted. So where nothing is cut both
steps enter, and inside they are one level deeper. -/
theorem Follows.nested {dropped : α} {low high : Step α} (raise : limit ≤ higher)
    (h : level < limit → like.Follows view (level + 1) low high) :
    like.Follows view level (nested limit dropped low) (nested higher dropped high) where
  closes st hlevel := by
    by_cases full : limit ≤ st.depth
    · rw [nested_full full]
      rfl
    · rw [nested_room full]
      have hinner := (h (by omega)).closes { st with depth := st.depth + 1 }
        (Nat.succ_le_succ hlevel)
      simp only [Lowering.leave, hinner, Nat.add_sub_cancel]
  tallies st hlevel := by
    by_cases full : limit ≤ st.depth
    · rw [nested_full full]
      exact .cut _ _ rfl
    · rw [nested_room full]
      exact (h (by omega)).tallies { st with depth := st.depth + 1 } (Nat.succ_le_succ hlevel)
  alike st st' hlevel halike uncut := by
    by_cases full : limit ≤ st.depth
    · rw [nested_full full] at uncut
      exact absurd uncut (Nat.succ_ne_self _)
    · have full' : ¬ higher ≤ st'.depth := by
        have := halike.depth
        omega
      rw [nested_room full] at uncut ⊢
      rw [nested_room full']
      have hdeeper : like.Alike { st with depth := st.depth + 1 }
          { st' with depth := st'.depth + 1 } :=
        ⟨halike.tied, congrArg (· + 1) halike.depth, halike.truncated⟩
      obtain ⟨hsame, hinner⟩ := (h (by omega)).alike _ _ (Nat.succ_le_succ hlevel) hdeeper uncut
      exact ⟨hsame, hinner.tied, congrArg (· - 1) hinner.depth, hinner.truncated⟩

/-! ## Annotations and fields -/

/-- Asks the evaluation. -/
def ask (program : Program) (limit : Nat) (call : Call) : Step (Option Value) := fun st =>
  let (answer, resolver) := program.call limit call st.resolver
  (answer, { st with resolver })

theorem ask_follows (call : Call) :
    like.Follows like.view level (ask program limit call) (ask program higher call) where
  closes _ _ := rfl
  tallies st _ := by
    have run := program.evaluates_call limit call st.resolver
    exact run.tallies.add st.truncated
  alike st st' _ halike uncut := by
    obtain ⟨hsame, htied⟩ := like.call call halike.tied (Nat.add_right_cancel uncut)
    exact ⟨hsame, htied, halike.depth, halike.truncated⟩

theorem lowerAnnotation_follows (decl : AnnotationDecl) :
    like.Follows (·.mapArgument like.view) level (program.lowerAnnotation limit decl)
      (program.lowerAnnotation higher decl) := by
  unfold Program.lowerAnnotation
  cases decl.argument with
  | none => exact .pure rfl
  | some literal =>
      exact (ask_follows (.literal literal)).map fun answer answer' same => by
        simp only [same, Annotation.mapArgument]

theorem lowerAnnotations_follows (decls : List AnnotationDecl) :
    like.Follows (List.map (·.mapArgument like.view)) level
      (program.lowerAnnotations limit decls) (program.lowerAnnotations higher decls) :=
  .each fun decl _ => lowerAnnotation_follows decl

theorem lowerPrimitive_follows (name : String) :
    like.Follows (TypeRef.mapArguments like.view) level (Program.lowerPrimitive name)
      (Program.lowerPrimitive name) := by
  unfold Program.lowerPrimitive
  cases Primitive.ofName? name with
  | some primitive => exact .pure rfl
  | none => exact (Follows.pure rfl).note rfl

/-- What is compared of expanded spreads: the fields, and the chain to go on with. -/
def expanded (like : Likeness program limit higher) (result : List Field × Path) :
    List Field × Path :=
  (mapFieldArguments like.view result.1, result.2)

/-- From a depth on, an expansion of spreads does what the other does. -/
def ExpansionFollows (like : Likeness program limit higher) (level : Nat)
    (low high : FieldExpansion) : Prop :=
  ∀ spreads path, like.Follows like.expanded level (low spreads path) (high spreads path)

variable {low high : FieldExpansion}

theorem ExpansionFollows.deeper (h : like.ExpansionFollows level low high) :
    like.ExpansionFollows (level + 1) low high :=
  fun spreads path => (h spreads path).mono (Nat.le_succ level)

theorem append_same {fields fields' more more' : List Field}
    (h : mapFieldArguments like.view fields = mapFieldArguments like.view fields')
    (hmore : mapFieldArguments like.view more = mapFieldArguments like.view more') :
    mapFieldArguments like.view (fields ++ more) =
      mapFieldArguments like.view (fields' ++ more') := by
  rw [mapFieldArguments_append, mapFieldArguments_append, h, hmore]

theorem expanded_append (finish : Path → Path) {result result' : List Field × Path}
    (h : like.expanded result = like.expanded result') (own own' : List Field)
    (hown : mapFieldArguments like.view own = mapFieldArguments like.view own') :
    like.expanded (result.1 ++ own, finish result.2) =
      like.expanded (result'.1 ++ own', finish result'.2) := by
  obtain ⟨hfields, hpath⟩ := Prod.mk.inj h
  simp only [expanded, append_same hfields hown, hpath]

theorem expanded_prepend {first first' : List Field × Path}
    (h : like.expanded first = like.expanded first') (others others' : List Field × Path)
    (hothers : like.expanded others = like.expanded others') :
    like.expanded (first.1 ++ others.1, others.2) =
      like.expanded (first'.1 ++ others'.1, others'.2) := by
  obtain ⟨hmore, hpath⟩ := Prod.mk.inj hothers
  simp only [expanded, append_same (congrArg Prod.fst h) hmore, hpath]

mutual

theorem lowerFieldType_follows {level : Nat} (raise : limit ≤ higher)
    (h : like.ExpansionFollows (level + 1) low high) (type : FieldType) :
    like.Follows (TypeRef.mapArguments like.view) level (type.lower program limit low)
      (type.lower program higher high) := by
  match type with
  | ⟨base, dims⟩ =>
      have hbase := lowerBaseType_follows raise h base
      by_cases plain : dims = 0
      · simp only [FieldType.lower, if_pos plain]
        exact hbase
      · simp only [FieldType.lower, if_neg plain]
        have harray (type type' : TypeRef)
            (same : type.mapArguments like.view = type'.mapArguments like.view) :
            (TypeRef.array type dims).mapArguments like.view =
              (TypeRef.array type' dims).mapArguments like.view := by
          simp only [TypeRef.mapArguments, same]
        exact hbase.map harray

theorem lowerBaseType_follows {level : Nat} (raise : limit ≤ higher)
    (h : like.ExpansionFollows (level + 1) low high) (base : BaseType) :
    like.Follows (TypeRef.mapArguments like.view) level (base.lower program limit low)
      (base.lower program higher high) := by
  match base with
  | .primitive name => exact lowerPrimitive_follows name
  | .custom name => exact .pure rfl
  | .map value =>
      exact (lowerFieldType_follows raise h value).map fun type type' same => by
        simp only [TypeRef.mapArguments, same]
  | .object body =>
      exact (lowerInlineObject_follows raise h body).map fun fields fields' same => by
        simp only [TypeRef.mapArguments, same]

theorem lowerInlineObject_follows {level : Nat} (raise : limit ≤ higher)
    (h : like.ExpansionFollows (level + 1) low high) (body : InlineObject) :
    like.Follows (mapFieldArguments like.view) level (body.lower program limit low)
      (body.lower program higher high) := by
  match body with
  | ⟨fields, spreads⟩ =>
      have hinner := (h spreads []).bind fun inherited inherited' hinherited =>
        (lowerFields_follows raise h.deeper fields).map fun own own' hown =>
          append_same (congrArg Prod.fst hinherited) hown
      exact .nested raise fun _ => hinner

theorem lowerField_follows {level : Nat} (raise : limit ≤ higher)
    (h : like.ExpansionFollows (level + 1) low high) (field : FieldDecl) :
    like.Follows (fun field => mapFieldArguments like.view [field]) level
      (field.lower program limit low) (field.lower program higher high) := by
  match field with
  | ⟨name, docstring, annotations, optional, type⟩ =>
      exact (lowerAnnotations_follows annotations).bind fun _ _ hannotations =>
        (lowerFieldType_follows raise h type).map fun _ _ htype => by
          simp only [mapFieldArguments, hannotations, htype]

theorem lowerFields_follows {level : Nat} (raise : limit ≤ higher)
    (h : like.ExpansionFollows (level + 1) low high) (fields : List FieldDecl) :
    like.Follows (mapFieldArguments like.view) level (lowerFields program limit low fields)
      (lowerFields program higher high fields) := by
  match fields with
  | [] => exact .pure rfl
  | field :: rest =>
      exact (lowerField_follows raise h field).bind fun _ _ hfirst =>
        (lowerFields_follows raise h rest).map fun _ _ hrest => append_same hfirst hrest

end

theorem spreadFields_follows (raise : limit ≤ higher)
    (h : level < limit → like.ExpansionFollows (level + 1) low high) (spread : Reference)
    (path : Path) :
    like.Follows like.expanded level (program.spreadFields limit low spread path)
      (program.spreadFields higher high spread path) := by
  unfold Program.spreadFields
  by_cases member : spread.member.isSome
  · simp only [if_pos member]
    exact .pure rfl
  · simp only [if_neg member]
    by_cases busy : spread.name ∈ path
    · simp only [if_pos busy]
      exact (Follows.pure rfl).note rfl
    · simp only [if_neg busy]
      cases program.types.find? spread.name with
      | none => exact .pure rfl
      | some target =>
          exact .nested raise fun room =>
            (h room target.spreads (path.enter target.name)).bind
              fun inherited inherited' hinherited =>
                (lowerFields_follows raise (h room).deeper target.fields).map
                  (expanded_append (·.leave target.name) hinherited)

theorem inheritedFields_follows (raise : limit ≤ higher)
    (h : level < limit → like.ExpansionFollows (level + 1) low high) :
    like.ExpansionFollows level (program.inheritedFields limit low)
      (program.inheritedFields higher high) := by
  intro spreads
  induction spreads with
  | nil => exact fun path => .pure rfl
  | cons spread rest ih =>
      intro path
      have hrest {path path' : Path} (hpath : path = path') :
          like.Follows like.expanded level (program.inheritedFields limit low rest path)
            (program.inheritedFields higher high rest path') := hpath ▸ ih path
      exact (spreadFields_follows raise h spread path).bind fun first first' hfirst =>
        (hrest (congrArg Prod.snd hfirst)).map (expanded_prepend hfirst)

/-- A budget that reaches the limit is never used up: where it would be, no level is left.
The budget of the second expansion is larger than that of the first one, and it may be so at
every depth. -/
theorem expandFields_follows (raise : limit ≤ higher) {budget budget' level : Nat}
    (enough : limit ≤ budget + level) (enough' : higher ≤ budget' + level) :
    like.ExpansionFollows level (program.expandFields limit budget)
      (program.expandFields higher budget') := by
  induction budget generalizing budget' level with
  | zero =>
      -- The depth is the limit by now, and a spread is refused before it is expanded.
      cases budget' <;> exact inheritedFields_follows raise fun room => absurd room (by omega)
  | succ budget ih =>
      cases budget' with
      | zero => exact inheritedFields_follows raise fun room => absurd room (by omega)
      | succ budget' => exact inheritedFields_follows raise fun _ => ih (by omega) (by omega)

theorem typeFields_follows (raise : limit ≤ higher) (decl : TypeDecl) :
    like.Follows (mapFieldArguments like.view) 0 (program.typeFields limit decl)
      (program.typeFields higher decl) := by
  have hexpand : like.ExpansionFollows 0 (program.expandFields limit limit)
      (program.expandFields higher higher) := expandFields_follows raise (by omega) (by omega)
  exact (hexpand decl.spreads [decl.name]).bind fun inherited inherited' hinherited =>
    (lowerFields_follows raise hexpand.deeper decl.fields).map fun own own' hown =>
      append_same (congrArg Prod.fst hinherited) hown

/-! ## Declarations -/

theorem lowerType_follows (raise : limit ≤ higher) (decl : TypeDecl) :
    like.Follows (TypeDef.mapArguments like.view) 0 (program.lowerType limit decl)
      (program.lowerType higher decl) := by
  have quiet : (Event.convertingType decl.name).isCut = false := rfl
  have hassembled {annotations annotations' : List Annotation}
      (hannotations : annotations.map (·.mapArgument like.view) =
        annotations'.map (·.mapArgument like.view)) (fields fields' : List Field)
      (hfields : mapFieldArguments like.view fields = mapFieldArguments like.view fields') :
      TypeDef.mapArguments like.view
          ⟨decl.name, Doc.normalize? decl.docstring, annotations, fields⟩ =
        TypeDef.mapArguments like.view
          ⟨decl.name, Doc.normalize? decl.docstring, annotations', fields'⟩ := by
    simp only [TypeDef.mapArguments, hannotations, hfields]
  have hconverted := (lowerAnnotations_follows decl.annotations).bind
    fun annotations annotations' hannotations =>
      (typeFields_follows raise decl).map (hassembled hannotations)
  exact hconverted.note quiet

end Likeness

end SchemaIR
