import Mathlib
import SchemaIR.Proofs.Faithful
import SchemaIR.Proofs.Visits

/-!
# Lowered constants and constants on their own

Lowering asks one evaluation for every constant, so most of them have been met before
their turn comes, inside an annotation or another constant, and are answered from the
cache. What is cached was evaluated at the depth where it was first met. There the limit
may have cut more of it than it would have cut at the top; and where a constant is met
after the constants it refers to, they are taken from the cache and may be cut less, or
withheld as a whole. So neither of the two values, the lowered one and that of a fresh
evaluation, contains the other. Both are prunings of what the constant means, and each is
what it means if nothing was cut in the run that it comes from. For the lowered value
that is the whole lowering, since the evaluation of a constant may cut nothing itself and
still meet what was cut before.

The meaning has no limit on the nesting of values, but members of enumerations are looked
up among those that are expanded under the limit.
-/

namespace SchemaIR

namespace Program

variable {program : Program} {limit : Nat}

theorem map_eachStep {α β γ : Type} {step : α → Step β} {f : β → γ} {g : α → γ}
    (h : ∀ a st, f (step a st).1 = g a) (items : List α) (st : Lowering) :
    (eachStep step items st).1.map f = items.map g := by
  induction items generalizing st with
  | nil => rfl
  | cons a rest ih =>
      show f (step a st).1 :: ((eachStep step rest (step a st).2).1.map f) = _
      rw [h, ih, List.map_cons]

/-- Whatever is declared is emitted under its name. -/
theorem exists_mem_sortByName {α β : Type} {table : Table α} {step : α → Step β}
    {name : β → String} {own : α → String} (named : ∀ a st, name (step a st).1 = own a)
    {key : String} {a : α} (found : table.find? key = some a) (st : Lowering) :
    ∃ b ∈ sortByName name (eachStep step table.sorted st).1, name b = own a := by
  have hown : own a ∈ (eachStep step table.sorted st).1.map name := by
    rw [map_eachStep named]
    exact List.mem_map_of_mem (Table.mem_sorted.mpr ⟨key, found⟩)
  obtain ⟨b, hmem, hname⟩ := List.mem_map.mp hown
  exact ⟨b, mem_sortByName.mpr hmem, hname⟩

theorem exists_lowered {name : String} {decl : ConstDecl}
    (found : program.consts.find? name = some decl) :
    ∃ constant ∈ (program.lower limit).schema.constants, constant.name = decl.name := by
  let types := eachStep (program.lowerType limit) program.types.sorted {}
  let enums := eachStep (program.lowerEnum limit) program.enums.sorted types.2
  have named : ∀ decl st, (program.lowerConstant limit decl st).1.name = decl.name :=
    fun _ _ => rfl
  exact exists_mem_sortByName named found enums.2

end Program

end SchemaIR
