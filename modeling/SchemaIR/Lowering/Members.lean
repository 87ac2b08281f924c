import SchemaIR.Log
import SchemaIR.Program

/-!
# Members of enumerations

An enumeration has the members of every enumeration that it spreads, in the order
of the spreads, and then its own. A spread of an enumeration that is being expanded
already adds nothing, nor does one that would make the chain of expansions longer
than the limit. The chain is scoped to its branch: what two sibling spreads share
appears twice.
-/

namespace SchemaIR

/-- The names of the declarations being expanded, without repetition. -/
abbrev Path := List String

/-- Adds a name to a path. -/
def Path.enter (path : Path) (name : String) : Path :=
  if name ∈ path then path else name :: path

/-- Takes a name off a path. -/
def Path.leave (path : Path) (name : String) : Path :=
  path.filter (· ≠ name)

/-- What an expansion carries along: the chain it is in and what it reports. -/
structure Walk where
  path : Path := []
  log : Log := #[]

namespace Walk

/-- Reports an event. -/
def note (walk : Walk) (event : Event) : Walk :=
  { walk with log := walk.log.push event }

/-- Makes a declaration part of the chain. -/
def enter (walk : Walk) (name : String) : Walk :=
  { walk with path := walk.path.enter name }

/-- Ends the expansion of a declaration. -/
def leave (walk : Walk) (name : String) : Walk :=
  { walk with path := walk.path.leave name }

end Walk

/-- An expansion of one declaration, which may extend the walk it is given. -/
abbrev MemberExpansion := EnumDecl → Walk → List MemberDecl × Walk

/-- The members that one spread of `owner` adds, where `expand` gives those of its
target. A spread that names a member is no spread of an enumeration. -/
def spreadMembers (program : Program) (limit : Nat) (owner : String) (expand : MemberExpansion)
    (spread : Reference) (walk : Walk) : List MemberDecl × Walk :=
  if spread.member.isSome then ([], walk)
  else if spread.name ∈ walk.path then ([], walk.note (.enumCycle owner spread.name))
  else
    match program.enums.find? spread.name with
    | none => ([], walk)
    | some target =>
      if limit ≤ walk.path.length then ([], walk.note (.enumChainTooDeep owner limit))
      else expand target walk

/-- The members that several spreads of `owner` add, in order. -/
def inheritedMembers (program : Program) (limit : Nat) (owner : String)
    (expand : MemberExpansion) : List Reference → Walk → List MemberDecl × Walk
  | [], walk => ([], walk)
  | spread :: rest, walk =>
    let (first, walk) := spreadMembers program limit owner expand spread walk
    let (others, walk) := inheritedMembers program limit owner expand rest walk
    (first ++ others, walk)

/-- The members of a declaration, where at most `budget` declarations may be expanded
inside one another. -/
def expandMembers (program : Program) (limit : Nat) : Nat → MemberExpansion
  | 0, decl, walk => (decl.members, walk)
  | budget + 1, decl, walk =>
    let (inherited, walk) :=
      inheritedMembers program limit decl.name (expandMembers program limit budget) decl.spreads
        (walk.enter decl.name)
    (inherited ++ decl.members, walk.leave decl.name)

/-- The members of an enumeration, inherited ones first, and what was reported on the
way. Every expansion inside another one adds a declared name to the chain, so there
are never more of them than declarations. -/
def Program.enumMembers (program : Program) (limit : Nat) (decl : EnumDecl) :
    List MemberDecl × Log :=
  let (members, walk) := expandMembers program limit (program.enums.size + 1) decl {}
  (members, walk.log)

end SchemaIR
