import SchemaIR.Lowering.Fields
import SchemaIR.Schema

/-!
# Lowering

Lowering turns a declared program into a schema. Declarations are visited in the order
of their keys, types before enumerations before constants, since one evaluation is
shared by all of them and what it caches and where it cuts circles depends on the order
of the visits. The result is then sorted by name, and of equal names the one with the
smaller key comes first.
-/

namespace SchemaIR

/-- The nesting limit of a run that is given none. -/
def defaultLimit : Nat := 32

/-- A schema with the counters and the log of the run that made it. -/
structure Lowered where
  schema : Schema
  stats : Stats
  log : Log

/-- Sorts by name, keeping the order of what has the same name. -/
def sortByName {α : Type} (name : α → String) (items : List α) : List α :=
  items.mergeSort fun a b => decide (name a ≤ name b)

/-- The block of documentation, unless it is blank. -/
def DocDecl.lower? (decl : DocDecl) : Option DocDef :=
  (Doc.normalize decl.content).map (⟨decl.scope, ·⟩)

namespace Program

/-- A type in its lowered form. -/
def lowerType (program : Program) (limit : Nat) (decl : TypeDecl) : Step TypeDef := fun st =>
  let st := st.note (.convertingType decl.name)
  let (annotations, st) := program.lowerAnnotations limit decl.annotations st
  let (fields, st) := program.typeFields limit decl st
  (⟨decl.name, Doc.normalize? decl.docstring, annotations, fields⟩, st)

/-- A member of an enumeration in its lowered form. -/
def lowerMember (program : Program) (limit : Nat) (decl : MemberDecl) : Step EnumMember :=
  fun st =>
    let (annotations, st) := program.lowerAnnotations limit decl.annotations st
    (⟨decl.name, decl.value, Doc.normalize? decl.docstring, annotations⟩, st)

/-- An enumeration in its lowered form. -/
def lowerEnum (program : Program) (limit : Nat) (decl : EnumDecl) : Step EnumDef := fun st =>
  let st := st.note (.convertingEnum decl.name)
  let (decls, events) := program.enumMembers limit decl
  let st := { st with resolver := { st.resolver with log := st.resolver.log ++ events } }
  let (members, st) := eachStep (program.lowerMember limit) decls st
  let (annotations, st) := program.lowerAnnotations limit decl.annotations st
  (⟨decl.name, Doc.normalize? decl.docstring, annotations, decl.valueType, members⟩, st)

/-- The value of a declared constant, looked up by its name; the empty string if it has
none. -/
def constantValue (program : Program) (limit : Nat) (decl : ConstDecl) : Step Value :=
  fun st =>
    let (value?, resolver) := program.resolveConstant limit decl.name st.resolver
    let st := { st with resolver }
    match value? with
    | some value => (value, st)
    | none => (.string "", st.note (.constantFallback decl.name))

/-- A constant in its lowered form. -/
def lowerConstant (program : Program) (limit : Nat) (decl : ConstDecl) : Step ConstantDef :=
  fun st =>
    let st := st.note (.convertingConstant decl.name)
    let (value, st) := program.constantValue limit decl st
    let (annotations, st) := program.lowerAnnotations limit decl.annotations st
    (⟨decl.name, Doc.normalize? decl.docstring, annotations,
      program.constantType decl value, value⟩, st)

/-- All declarations in their lowered form. -/
def lowerAll (program : Program) (limit : Nat) : Step Schema := fun st =>
  let (types, st) := eachStep (program.lowerType limit) program.types.sorted st
  let (enums, st) := eachStep (program.lowerEnum limit) program.enums.sorted st
  let (constants, st) := eachStep (program.lowerConstant limit) program.consts.sorted st
  ({ types := sortByName TypeDef.name types
     enums := sortByName EnumDef.name enums
     constants := sortByName ConstantDef.name constants
     docs := program.standaloneDocs.filterMap DocDecl.lower? }, st)

/-- Lowers a program under a nesting limit. -/
def lower (program : Program) (limit : Nat) : Lowered :=
  let (schema, st) := program.lowerAll limit {}
  let counts := Event.lowered schema.types.length schema.enums.length
    schema.constants.length schema.docs.length
  ⟨schema, st.stats, (st.resolver.log.push counts).push (.evaluated st.stats)⟩

end Program

end SchemaIR
