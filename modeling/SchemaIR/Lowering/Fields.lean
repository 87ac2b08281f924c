import SchemaIR.Doc
import SchemaIR.Lowering.Evaluation
import SchemaIR.Lowering.Inference

/-!
# Fields of types and inline objects

A type has the fields of every type that it spreads, in the order of the spreads, and
then its own. As with enumerations, a spread of a type that is being expanded already
adds nothing. An inline object is expanded in the same way but starts a chain of its
own, so it may spread the type around it; what keeps that finite is the nesting limit,
of which every spread and every inline object uses up one level.

Conversion of a field is recursive in its declared type and leaves the expansion of
spreads to a parameter; that expansion is recursive in the number of spreads that may
still be entered. Entering a spread uses up a level, so the limit is enough.
-/

namespace SchemaIR

/-- The state of a lowering run. -/
structure Lowering where
  resolver : Resolver := {}
  /-- The spreads and inline objects that are open. -/
  depth : Nat := 0
  /-- The spreads and inline objects dropped at the limit. -/
  truncated : Nat := 0
deriving Inhabited

namespace Lowering

/-- Reports an event. -/
def note (st : Lowering) (event : Event) : Lowering :=
  { st with resolver := st.resolver.note event }

/-- Opens a level. Says whether there was one left, and counts a refusal. -/
def enter (st : Lowering) (limit : Nat) : Bool × Lowering :=
  if limit ≤ st.depth then
    (false, { st.note (.nestingTooDeep limit) with truncated := st.truncated + 1 })
  else (true, { st with depth := st.depth + 1 })

/-- Closes a level. -/
def leave (st : Lowering) : Lowering :=
  { st with depth := st.depth - 1 }

/-- The counters of the run: those of the evaluation, with the levels refused added to
what it dropped itself. -/
def stats (st : Lowering) : Stats :=
  { st.resolver.stats with
    depthExceeded := st.resolver.stats.depthExceeded + st.truncated }

end Lowering

/-- A step of a lowering run. -/
abbrev Step (α : Type) := Lowering → α × Lowering

/-- Runs a step on each element in turn. -/
def eachStep {α β : Type} (step : α → Step β) : List α → Step (List β)
  | [], st => ([], st)
  | a :: rest, st =>
    let (b, st) := step a st
    let (bs, st) := eachStep step rest st
    (b :: bs, st)

namespace Program

/-- An annotation with its argument evaluated. An argument without a value is left out. -/
def lowerAnnotation (program : Program) (limit : Nat) (decl : AnnotationDecl) :
    Step Annotation := fun st =>
  match decl.argument with
  | none => (⟨decl.name, none⟩, st)
  | some literal =>
    let (value?, resolver) := program.resolveLiteral limit literal st.resolver
    (⟨decl.name, value?⟩, { st with resolver })

/-- Annotations in order. -/
def lowerAnnotations (program : Program) (limit : Nat) :
    List AnnotationDecl → Step (List Annotation) :=
  eachStep (program.lowerAnnotation limit)

/-- The primitive of a keyword. An unknown keyword counts as `string`. -/
def lowerPrimitive (name : String) : Step TypeRef := fun st =>
  match Primitive.ofName? name with
  | some primitive => (.primitive primitive, st)
  | none => (.primitive .string, st.note (.unknownPrimitive name))

end Program

/-- The fields that spreads add, in the chain of expansions given; also the chain to go
on with. -/
abbrev FieldExpansion := List Reference → Path → Step (List Field × Path)

mutual

/-- The normalized form of a declared type. -/
def FieldType.lower (program : Program) (limit : Nat) (expand : FieldExpansion) :
    FieldType → Step TypeRef
  | ⟨base, dims⟩, st =>
    let (type, st) := base.lower program limit expand st
    (if dims = 0 then type else .array type dims, st)

/-- The normalized form of a base type. -/
def BaseType.lower (program : Program) (limit : Nat) (expand : FieldExpansion) :
    BaseType → Step TypeRef
  | .primitive name, st => Program.lowerPrimitive name st
  | .custom name, st => (program.namedType name, st)
  | .map value, st =>
    let (type, st) := value.lower program limit expand st
    (.map type, st)
  | .object body, st =>
    let (fields, st) := body.lower program limit expand st
    (.object fields, st)

/-- The fields of an inline object, or none where no level is left for it. -/
def InlineObject.lower (program : Program) (limit : Nat) (expand : FieldExpansion) :
    InlineObject → Step (List Field)
  | ⟨fields, spreads⟩, st =>
    match st.enter limit with
    | (false, st) => ([], st)
    | (true, st) =>
      let ((inherited, _), st) := expand spreads [] st
      let (own, st) := lowerFields program limit expand fields st
      (inherited ++ own, st.leave)

/-- A field with its annotations and its type normalized. -/
def FieldDecl.lower (program : Program) (limit : Nat) (expand : FieldExpansion) :
    FieldDecl → Step Field
  | ⟨name, docstring, annotations, optional, type⟩, st =>
    let (annotations, st) := program.lowerAnnotations limit annotations st
    let (type, st) := type.lower program limit expand st
    (⟨name, Doc.normalize? docstring, optional, annotations, type⟩, st)

/-- Fields in order. -/
def lowerFields (program : Program) (limit : Nat) (expand : FieldExpansion) :
    List FieldDecl → Step (List Field)
  | [], st => ([], st)
  | field :: rest, st =>
    let (first, st) := field.lower program limit expand st
    let (others, st) := lowerFields program limit expand rest st
    (first :: others, st)

end

namespace Program

/-- The fields that one spread adds, where `expand` gives those of the spreads of its
target. -/
def spreadFields (program : Program) (limit : Nat) (expand : FieldExpansion)
    (spread : Reference) (path : Path) : Step (List Field × Path) := fun st =>
  if spread.member.isSome then (([], path), st)
  else if spread.name ∈ path then (([], path), st.note (.typeCycle spread.name))
  else
    match program.types.find? spread.name with
    | none => (([], path), st)
    | some target =>
      match st.enter limit with
      | (false, st) => (([], path), st)
      | (true, st) =>
        let ((inherited, path), st) := expand target.spreads (path.enter target.name) st
        let (own, st) := lowerFields program limit expand target.fields st
        ((inherited ++ own, path.leave target.name), st.leave)

/-- The fields that several spreads add, in order. -/
def inheritedFields (program : Program) (limit : Nat) (expand : FieldExpansion) :
    FieldExpansion
  | [], path, st => (([], path), st)
  | spread :: rest, path, st =>
    let ((first, path), st) := program.spreadFields limit expand spread path st
    let ((others, path), st) := program.inheritedFields limit expand rest path st
    ((first ++ others, path), st)

/-- The fields that spreads add, where at most `budget` spreads may be entered inside one
another. -/
def expandFields (program : Program) (limit : Nat) : Nat → FieldExpansion
  | 0, spreads, path, st =>
    program.inheritedFields limit (fun _ path st => (([], path), st)) spreads path st
  | budget + 1, spreads, path, st =>
    program.inheritedFields limit (program.expandFields limit budget) spreads path st

/-- The fields of a declared type: those of its spreads, then its own. -/
def typeFields (program : Program) (limit : Nat) (decl : TypeDecl) : Step (List Field) :=
  fun st =>
    let expand := program.expandFields limit limit
    let ((inherited, _), st) := expand decl.spreads [decl.name] st
    let (own, st) := lowerFields program limit expand decl.fields st
    (inherited ++ own, st)

end Program

end SchemaIR
