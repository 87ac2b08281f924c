import Mathlib
import SchemaIR.Proofs.Inheritance
import SchemaIR.Proofs.Inventory
import SchemaIR.Proofs.Routes

/-!
# A higher limit loses nothing

Where a limit cuts, something is missing: the members that a spread of an enumeration would have
brought, the fields of a spread, the inside of an inline object. Under a higher limit more is
there, and this file shows that it is only more. What was there before is still there, in the same
order, and an inline object that has more fields than before has the old ones among them.

For enumerations that is a matter of routes: those that are simple under a limit are simple under
a higher one, and both lists of routes are in the order of the search. Types are converted in the
course of an expansion, so two runs have to be followed beside each other. They are on the same
level and in the same chain wherever they meet, since a spread which only one of them goes into is
left again before the next one has its turn; for that, types have to be declared under their own
names.
-/

namespace SchemaIR

/-! ## Fields and types with more in them -/

mutual

/-- The types are equal, but inline objects of the second one may have more fields. -/
inductive TypeRef.Embeds : TypeRef → TypeRef → Prop where
  | same (type : TypeRef) : TypeRef.Embeds type type
  | array {item whole : TypeRef} (dims : UInt32) (h : TypeRef.Embeds item whole) :
      TypeRef.Embeds (.array item dims) (.array whole dims)
  | map {value whole : TypeRef} (h : TypeRef.Embeds value whole) :
      TypeRef.Embeds (.map value) (.map whole)
  | object {fields whole : List Field} (h : List.SublistForall₂ Field.Embeds fields whole) :
      TypeRef.Embeds (.object fields) (.object whole)

/-- The fields are equal, but for the arguments of annotations and for what the type of the second
one has more. -/
inductive Field.Embeds : Field → Field → Prop where
  | mk {name : String} {doc : Option String} {optional : Bool}
      {annotations others : List Annotation} {type whole : TypeRef}
      (named : annotations.map (·.name) = others.map (·.name))
      (h : TypeRef.Embeds type whole) :
      Field.Embeds ⟨name, doc, optional, annotations, type⟩ ⟨name, doc, optional, others, whole⟩

end

/-- Each of the fields is there, in order, with as much or more in its type. -/
abbrev FieldsEmbed : List Field → List Field → Prop := List.SublistForall₂ Field.Embeds

/-- All that is in the first answer is in the second one. The paths that spreads leave are not
compared. -/
def FieldQuery.Embeds : (query : FieldQuery) → query.Answer → query.Answer → Prop
  | .type _ | .base _ => TypeRef.Embeds
  | .object _ | .fields _ => FieldsEmbed
  | .field _ => Field.Embeds
  | .spreads _ _ => fun answer whole => FieldsEmbed answer.1 whole.1

theorem FieldsEmbed.prepend {fields whole : List Field} (more : List Field)
    (h : FieldsEmbed fields whole) : FieldsEmbed fields (more ++ whole) :=
  sublistForall₂_append (.nil : FieldsEmbed [] more) h

/-! ## Two runs beside each other -/

namespace Flattens

variable {program : Program} {limit higher : Nat} {query : FieldQuery} {st st' : Lowering}
  {answer : query.Answer}

/-- Whatever a run converts, a run under a higher limit converts as well on the same level, and
what it comes to has at least as much in it. -/
theorem embeds (keyed : ∀ key decl, program.types.find? key = some decl → decl.name = key)
    (raise : limit ≤ higher) (run : Flattens program limit query st answer st') :
    ∀ other : Lowering, other.depth = st.depth →
      ∃ whole other', Flattens program higher query other whole other' ∧
        query.Embeds answer whole := by
  induction run with
  | plain _ ih =>
      intro other level
      obtain ⟨whole, other', run, h⟩ := ih other level
      exact ⟨whole, other', .plain run, h⟩
  | array dimensions _ ih =>
      intro other level
      obtain ⟨whole, other', run, h⟩ := ih other level
      exact ⟨_, other', .array dimensions run, .array _ h⟩
  | primitive =>
      intro other _
      refine ⟨_, _, .primitive, ?_⟩
      rw [Program.lowerPrimitive_result]
      exact .same _
  | custom => exact fun other _ => ⟨_, other, .custom, .same _⟩
  | map _ ih =>
      intro other level
      obtain ⟨whole, other', run, h⟩ := ih other level
      exact ⟨_, other', .map run, .map h⟩
  | inline _ ih =>
      intro other level
      obtain ⟨whole, other', run, h⟩ := ih other level
      exact ⟨_, other', .inline run, .object h⟩
  | refusedObject =>
      -- Nothing embeds in whatever the other run makes of it.
      exact fun other _ => ⟨_, _, program.flattens_flatten higher _ other, .nil⟩
  | @object _ _ _ _ _ st st₁ st₂ room before after ih₁ ih₂ =>
      intro other level
      obtain ⟨⟨inherited, path⟩, other₁, before', hinherited⟩ :=
        ih₁ other.deeper (congrArg (· + 1) level)
      have hdepth : st₁.depth = st.depth + 1 := before.frame
      have hdepth' : other₁.depth = other.depth + 1 := before'.frame
      obtain ⟨own, other₂, after', hown⟩ := ih₂ other₁ (by omega)
      exact ⟨_, _, .object (by omega) before' after', sublistForall₂_append hinherited hown⟩
  | @field _ _ annotations _ _ _ _ st st₁ st₂ annotated run ih =>
      intro other level
      have annotated' := annotatesEach_total program higher annotations other
      have hdepth := annotated.annotations_frame.1
      have hdepth' := annotated'.annotations_frame.1
      obtain ⟨whole, other', run', h⟩ :=
        ih (program.lowerAnnotations higher annotations other).2 (by omega)
      have hnames := annotated.annotations_names.trans annotated'.annotations_names.symm
      exact ⟨_, other', .field annotated' run', .mk hnames h⟩
  | noFields => exact fun other _ => ⟨_, other, .noFields, .nil⟩
  | moreFields first more ih₁ ih₂ =>
      intro other level
      obtain ⟨result, other₁, first', hresult⟩ := ih₁ other level
      have hdepth := first.frame
      have hdepth' := first'.frame
      obtain ⟨others, other₂, more', hothers⟩ := ih₂ other₁ (by omega)
      exact ⟨_, _, .moreFields first' more', .cons hresult hothers⟩
  | noSpreads => exact fun other _ => ⟨_, other, .noSpreads, .nil⟩
  | memberSpread named _ ih =>
      intro other level
      obtain ⟨whole, other', more, h⟩ := ih other level
      exact ⟨whole, other', .memberSpread named more, h⟩
  | @circularSpread spread _ _ _ _ _ plain busy _ ih =>
      intro other level
      obtain ⟨whole, other', more, h⟩ := ih (other.note (.typeCycle spread.name)) level
      exact ⟨whole, other', .circularSpread plain busy more, h⟩
  | undeclaredSpread plain idle absent _ ih =>
      intro other level
      obtain ⟨whole, other', more, h⟩ := ih other level
      exact ⟨whole, other', .undeclaredSpread plain idle absent more, h⟩
  | @refusedSpread spread rest path target answer st st' plain idle found full _ ih =>
      intro other level
      rcases Nat.lt_or_ge other.depth higher with room | full'
      · -- The higher limit lets the spread in. It is out of the chain again afterwards.
        obtain ⟨⟨inherited, path₁⟩, other₁, before⟩ :=
          total program higher (.spreads target.spreads (path.enter target.name)) other.deeper
        obtain ⟨own, other₂, after⟩ := total program higher (.fields target.fields) other₁
        obtain ⟨whole, other₃, more, h⟩ :=
          ih other₂.leave ((before.closed_depth after).trans level)
        have hpath := before.leave_entered keyed idle found
        exact ⟨_, other₃, .spread plain idle found room before after (hpath.symm ▸ more),
          h.prepend _⟩
      · obtain ⟨whole, other', more, h⟩ := ih (other.refuse higher) level
        exact ⟨whole, other', .refusedSpread plain idle found full' more, h⟩
  | @spread spread rest path path₁ target inherited own others st st₁ st₂ st₃ plain idle found room
      before after _ ih₁ ih₂ ih₃ =>
      intro other level
      obtain ⟨⟨inherited', path'⟩, other₁, before', hinherited⟩ :=
        ih₁ other.deeper (congrArg (· + 1) level)
      have hdepth : st₁.depth = st.depth + 1 := before.frame
      have hdepth' : other₁.depth = other.depth + 1 := before'.frame
      obtain ⟨own', other₂, after', hown⟩ := ih₂ other₁ (by omega)
      have hleft : other₂.leave.depth = st₂.leave.depth := by
        rw [before'.closed_depth after', before.closed_depth after, level]
      obtain ⟨whole, other₃, more', hothers⟩ := ih₃ other₂.leave hleft
      have hpath : path'.leave target.name = path₁.leave target.name :=
        (before'.leave_entered keyed idle found).trans (before.leave_entered keyed idle found).symm
      refine ⟨_, other₃, .spread plain idle found (by omega) before' after' (hpath ▸ more'), ?_⟩
      exact sublistForall₂_append (sublistForall₂_append hinherited hown) hothers

theorem embeds_run (keyed : ∀ key decl, program.types.find? key = some decl → decl.name = key)
    (raise : limit ≤ higher) (run : Flattens program limit query st answer st')
    {other other' : Lowering} {whole : query.Answer}
    (run' : Flattens program higher query other whole other') (level : other.depth = st.depth) :
    query.Embeds answer whole := by
  obtain ⟨_, _, high, h⟩ := run.embeds keyed raise other level
  rw [(run'.unique high).1]
  exact h

end Flattens

/-! ## Declarations -/

theorem rel_of_common {α β γ : Type} {R : α → β → Prop} {S : α → γ → Prop} {T : β → γ → Prop}
    (h : ∀ a b c, R a b → S a c → T b c) {a? : Option α} {b? : Option β} {c? : Option γ}
    (hb : Option.Rel R a? b?) (hc : Option.Rel S a? c?) : Option.Rel T b? c? := by
  cases hb with
  | none =>
      cases hc
      exact .none
  | some hb =>
      cases hc with
      | some hc => exact .some (h _ _ _ hb hc)

namespace Program

variable {program : Program} {limit higher : Nat}

theorem SimpleRoute.raise (raise : limit ≤ higher) {decl : EnumDecl} {route : Route}
    (h : program.SimpleRoute limit decl route) : program.SimpleRoute higher decl route := by
  obtain ⟨enums, henums, distinct, short⟩ := h
  exact ⟨enums, henums, distinct, by omega⟩

theorem enumMembers_sublist
    (keyed : ∀ key decl, program.enums.find? key = some decl → decl.name = key)
    (raise : limit ≤ higher) (decl : EnumDecl) :
    (program.enumMembers limit decl).1.Sublist (program.enumMembers higher decl).1 := by
  obtain ⟨routes, low⟩ := exists_survey keyed limit decl
  obtain ⟨more, high⟩ := exists_survey keyed higher decl
  have hsubset : routes ⊆ more := by
    intro route hroute
    exact (high.exact route).mpr (((low.exact route).mp hroute).raise raise)
  have hsub : routes.Sublist more :=
    List.sublist_of_subperm_of_pairwise (List.subperm_of_subset low.ordered.nodup hsubset)
      low.ordered high.ordered
  rw [low.brought, high.brought]
  exact hsub.flatMap _

section Types

variable (keyed : ∀ key decl, program.types.find? key = some decl → decl.name = key)
  (raise : limit ≤ higher) {decl : TypeDecl}

include keyed raise

/-- Inherited fields and own ones embed, each in their place. -/
theorem fields_embed {st st₁ st₂ other other₁ other₂ : Lowering} {inherited own : List Field}
    {inherited' own' : List Field} {path path' : Path}
    (before : Flattens program limit (.spreads decl.spreads [decl.name]) st (inherited, path) st₁)
    (after : Flattens program limit (.fields decl.fields) st₁ own st₂)
    (before' : Flattens program higher (.spreads decl.spreads [decl.name]) other
      (inherited', path') other₁)
    (after' : Flattens program higher (.fields decl.fields) other₁ own' other₂)
    (level : other.depth = st.depth) : FieldsEmbed (inherited ++ own) (inherited' ++ own') := by
  have hinherited : FieldsEmbed inherited inherited' := before.embeds_run keyed raise before' level
  have hlevel : other₁.depth = st₁.depth := by rw [before'.frame, before.frame, level]
  have hown : FieldsEmbed own own' := after.embeds_run keyed raise after' hlevel
  exact sublistForall₂_append hinherited hown

theorem typeFields_embed (decl : TypeDecl) {st other : Lowering} (level : other.depth = st.depth) :
    FieldsEmbed (program.typeFields limit decl st).1 (program.typeFields higher decl other).1 :=
  fields_embed keyed raise
    (program.flattens_flatten limit (.spreads decl.spreads [decl.name]) st)
    (program.flattens_flatten limit (.fields decl.fields) _)
    (program.flattens_flatten higher (.spreads decl.spreads [decl.name]) other)
    (program.flattens_flatten higher (.fields decl.fields) _) level

theorem emitted_fields_embed {type whole : TypeDef}
    (low : Taken (LowersType program limit) decl type)
    (high : Taken (LowersType program higher) decl whole) :
    FieldsEmbed type.fields whole.fields := by
  obtain ⟨_, _, outermost, annotated, before, after⟩ := low
  obtain ⟨_, _, outermost', annotated', before', after'⟩ := high
  have hlow := annotated.annotations_frame.1.trans outermost
  have hhigh := annotated'.annotations_frame.1.trans outermost'
  exact fields_embed keyed raise before after before' after' (hhigh.trans hlow.symm)

end Types

/-- Where types and enumerations are declared under their own names, a higher limit loses nothing
and leaves everything in its order. The members of an enumeration are among those that it has
under the higher limit, and the fields of a type embed in those that it has there. So it is in the
lowered schemas. -/
theorem raising_loses_nothing (program : Program)
    (types : ∀ key decl, program.types.find? key = some decl → decl.name = key)
    (enums : ∀ key decl, program.enums.find? key = some decl → decl.name = key)
    {limit higher : Nat} (raise : limit ≤ higher) :
    (∀ decl, (program.enumMembers limit decl).1.Sublist (program.enumMembers higher decl).1) ∧
    (∀ decl (st other : Lowering), other.depth = st.depth →
      FieldsEmbed (program.typeFields limit decl st).1 (program.typeFields higher decl other).1) ∧
    ∀ key,
      Option.Rel
        (fun enum whole => (enum.members.map EnumMember.outline).Sublist
          (whole.members.map EnumMember.outline))
        ((program.lower limit).schema.findEnum? key)
        ((program.lower higher).schema.findEnum? key) ∧
      Option.Rel (fun type whole => FieldsEmbed type.fields whole.fields)
        ((program.lower limit).schema.findType? key)
        ((program.lower higher).schema.findType? key) := by
  refine ⟨enumMembers_sublist enums raise, fun decl st other => typeFields_embed types raise decl,
    fun key => ⟨?_, ?_⟩⟩
  · refine rel_of_common (fun decl enum whole low high => ?_)
      (findEnum?_related enums limit key) (findEnum?_related enums higher key)
    rw [low.enum_outlines enums, high.enum_outlines enums]
    exact (enumMembers_sublist enums raise decl).map _
  · refine rel_of_common (fun decl type whole low high => ?_)
      (findType?_related types limit key) (findType?_related types higher key)
    exact emitted_fields_embed types raise low high

/-- Under a higher limit the inline object in `Node` has the fields of `Node` as well, and one
more inline object inside. -/
def growing : Program :=
  let inside := (({} : InlineObject).withSpread "Node").withField
    (.called "tag" (.primitive "string"))
  let enum := fun name own => (EnumDecl.called name .string).withName own
  ({} : Program).declareType ((TypeDecl.called "Base").withField (.called "id" (.primitive "int")))
    |>.declareType (((TypeDecl.called "Node").withSpread "Base").withField
        (.called "next" (.map ((FieldType.object inside).arrayOf 1))))
    |>.declareEnum ((enum "A" "a").withSpread "B")
    |>.declareEnum ((enum "B" "b").withSpread "C")
    |>.declareEnum ((enum "C" "c").withSpread "A")

theorem raising_loses_nothing_growing :
    let id : Field := ⟨"id", none, false, [], .primitive .int⟩
    let tag : Field := ⟨"tag", none, false, [], .primitive .string⟩
    let next := fun inside => (⟨"next", none, false, [], .map (.array (.object inside) 1)⟩ : Field)
    FieldsEmbed [id, next [tag]] [id, next [id, next [tag], tag]] ∧
      ((growing.lower 1).schema.findType? "Node").map (·.fields) = some [id, next [tag]] ∧
      ((growing.lower 3).schema.findType? "Node").map (·.fields) =
        some [id, next [id, next [tag], tag]] ∧
      ((growing.lower 2).schema.findEnum? "A").map EnumDef.memberNames = some ["b", "a"] ∧
      ((growing.lower 3).schema.findEnum? "A").map EnumDef.memberNames = some ["c", "b", "a"] := by
  intro id tag next
  have types : ∀ entry ∈ growing.types.entries, entry.2.name = entry.1 := by decide
  have enums : ∀ entry ∈ growing.enums.entries, entry.2.name = entry.1 := by decide
  have hlow : ((growing.lower 1).schema.findType? "Node").map (·.fields) =
      some [id, next [tag]] := by cbv
  have hhigh : ((growing.lower 3).schema.findType? "Node").map (·.fields) =
      some [id, next [id, next [tag], tag]] := by cbv
  obtain ⟨-, -, hschema⟩ := raising_loses_nothing growing
    (fun _ _ found => types _ (Table.mem_of_find? found))
    (fun _ _ found => enums _ (Table.mem_of_find? found)) (by decide : 1 ≤ 3)
  refine ⟨?_, hlow, hhigh, by cbv, by cbv⟩
  have hembed := (hschema "Node").2
  generalize (growing.lower 1).schema.findType? "Node" = type at hlow hembed
  generalize (growing.lower 3).schema.findType? "Node" = whole at hhigh hembed
  cases hembed with
  | none => cases hlow
  | some h =>
      rw [Option.map_some, Option.some_inj] at hlow hhigh
      rw [hlow, hhigh] at h
      exact h

end Program

end SchemaIR
