import Mathlib.Data.Set.Finite.Basic
import Mathlib.Logic.Relation
import SchemaIR.Proofs.Evaluation

/-!
# What literals and constants mean

The evaluator keeps a cache, a set of constants being evaluated and a count of open
levels. None of them belongs to what a literal means. Here is the meaning without them:
a scalar is read or has none, a reference means what its target means, an array keeps
the elements that mean something, and an object strings together its fields and the
entries of the objects it spreads.

For constants this is an equation, since the meaning of a constant is that of its literal
and so depends on other constants. Where no constant reaches itself the equation can be
solved by following references until they end, and `meaning` is the solution.
-/

namespace SchemaIR

/-- What names stand for. -/
structure Names where
  constant : String → Option Value
  member : String → String → Option Value

/-- What a reference stands for: a constant, or a member of an enumeration. -/
def Names.reference (names : Names) (target : Reference) : Option Value :=
  match target.member with
  | none => names.constant target.name
  | some member => names.member target.name member

/-- The entries that a spread stands for. Only a constant can be spread. -/
def Names.spread (names : Names) (source : Reference) : List (String × Value) :=
  match source.member with
  | none => spreadEntries (names.constant source.name)
  | some _ => []

mutual

/-- The meaning of a literal. -/
def Literal.denote (names : Names) : Literal → Option Value
  | .string text => some (.string text)
  | .int raw => (Number.readInt64 raw).toOption.map .int
  | .float raw => ((Number.readFloat raw).toOption.filter (·.isFinite)).map .float
  | .bool flag => some (.bool flag)
  | .reference target => names.reference target
  | .object entries => some (.object (denoteEntries names entries))
  | .array elements => some (.array (denoteElements names elements))

/-- The meanings of the elements that have one, in order. -/
def denoteElements (names : Names) : List Literal → List Value
  | [] => []
  | element :: rest => (element.denote names).toList ++ denoteElements names rest

/-- The entries of an object: fields that mean something, and the entries of spreads. -/
def denoteEntries (names : Names) : List LiteralEntry → List (String × Value)
  | [] => []
  | .spread source :: rest => names.spread source ++ denoteEntries names rest
  | .field key value :: rest =>
      (value.denote names).toList.map (key, ·) ++ denoteEntries names rest

end

/-! ## Which constants a literal refers to -/

/-- The constant that a reference without a member names. -/
def Reference.targets (target : Reference) : List String :=
  match target.member with
  | none => [target.name]
  | some _ => []

mutual

/-- The constants that a literal refers to or spreads, at any depth. -/
def Literal.targets : Literal → List String
  | .reference target => target.targets
  | .object entries => entriesTargets entries
  | .array elements => elementsTargets elements
  | .string _ | .int _ | .float _ | .bool _ => []

/-- The constants that some elements refer to. -/
def elementsTargets : List Literal → List String
  | [] => []
  | element :: rest => element.targets ++ elementsTargets rest

/-- The constants that some entries refer to or spread. -/
def entriesTargets : List LiteralEntry → List String
  | [] => []
  | .spread source :: rest => source.targets ++ entriesTargets rest
  | .field _ value :: rest => value.targets ++ entriesTargets rest

end

/-! ## A literal depends on the constants it refers to and on no others -/

section Congruence

/-- Two readings of names that cannot be told apart by references to `targets`. -/
structure Names.Agree (names names' : Names) (targets : List String) : Prop where
  member : names.member = names'.member
  constant : ∀ name ∈ targets, names.constant name = names'.constant name

variable {names names' : Names}

theorem Names.Agree.left {some others : List String}
    (h : names.Agree names' (some ++ others)) : names.Agree names' some :=
  ⟨h.member, fun name hname => h.constant name (List.mem_append_left _ hname)⟩

theorem Names.Agree.right {some others : List String}
    (h : names.Agree names' (some ++ others)) : names.Agree names' others :=
  ⟨h.member, fun name hname => h.constant name (List.mem_append_right _ hname)⟩

theorem Names.reference_congr {target : Reference}
    (h : names.Agree names' target.targets) :
    names.reference target = names'.reference target := by
  unfold Names.reference
  cases hm : target.member with
  | none => exact h.constant _ (by simp [Reference.targets, hm])
  | some member => simp only [h.member]

theorem Names.spread_congr {source : Reference}
    (h : names.Agree names' source.targets) :
    names.spread source = names'.spread source := by
  unfold Names.spread
  cases hm : source.member with
  | none =>
      have hsame := h.constant source.name (by simp [Reference.targets, hm])
      simp only [hsame]
  | some member => rfl

mutual

theorem Literal.denote_congr (literal : Literal)
    (h : names.Agree names' literal.targets) :
    literal.denote names = literal.denote names' := by
  match literal with
  | .string _ | .int _ | .float _ | .bool _ => rfl
  | .reference target => exact Names.reference_congr h
  | .object entries =>
      rw [Literal.denote, Literal.denote, denoteEntries_congr entries h]
  | .array elements =>
      rw [Literal.denote, Literal.denote, denoteElements_congr elements h]

theorem denoteElements_congr (elements : List Literal)
    (h : names.Agree names' (elementsTargets elements)) :
    denoteElements names elements = denoteElements names' elements := by
  match elements with
  | [] => rfl
  | element :: rest =>
      rw [denoteElements, denoteElements, Literal.denote_congr element h.left,
        denoteElements_congr rest h.right]

theorem denoteEntries_congr (entries : List LiteralEntry)
    (h : names.Agree names' (entriesTargets entries)) :
    denoteEntries names entries = denoteEntries names' entries := by
  match entries with
  | [] => rfl
  | .spread source :: rest =>
      rw [denoteEntries, denoteEntries, Names.spread_congr h.left,
        denoteEntries_congr rest h.right]
  | .field key value :: rest =>
      rw [denoteEntries, denoteEntries, Literal.denote_congr value h.left,
        denoteEntries_congr rest h.right]

end

end Congruence

/-! ## Programs in which no constant reaches itself -/

namespace Program

/-- The literal of a constant. -/
def body? (program : Program) (name : String) : Option Literal :=
  (program.consts.find? name).bind ConstDecl.value

/-- One constant refers to another one, or spreads it. -/
def Refers (program : Program) (name target : String) : Prop :=
  ∃ literal, program.body? name = some literal ∧ target ∈ literal.targets

/-- No constant reaches itself. -/
def Acyclic (program : Program) : Prop :=
  ∀ name, ¬ Relation.TransGen program.Refers name name

variable {program : Program}

theorem body?_of_find? {name : String} {decl : ConstDecl}
    (found : program.consts.find? name = some decl) :
    program.body? name = decl.value := by
  simp [body?, found]

theorem Refers.mem_keys {name target : String} (h : program.Refers name target) :
    name ∈ program.consts.keys := by
  obtain ⟨literal, hbody, _⟩ := h
  obtain ⟨decl, found, _⟩ := Option.bind_eq_some_iff.mp hbody
  exact Table.mem_keys_of_find? found

/-- It is enough that some measure of constants falls along every reference. -/
theorem acyclic_of_rank (rank : String → Nat)
    (falls : ∀ entry ∈ program.consts.entries,
      ∀ target ∈ (entry.2.value.map Literal.targets).getD [],
        rank target < rank entry.1) :
    program.Acyclic := by
  have hedge : ∀ {name target}, program.Refers name target →
      rank target < rank name := by
    rintro name target ⟨literal, hbody, htarget⟩
    obtain ⟨decl, found, hvalue⟩ := Option.bind_eq_some_iff.mp hbody
    exact falls _ (Table.mem_of_find? found) target (by simpa [hvalue] using htarget)
  have hpath : ∀ {a b}, Relation.TransGen program.Refers a b → rank b < rank a := by
    intro a b path
    induction path with
    | single edge => exact hedge edge
    | tail _ edge ih => exact Nat.lt_trans (hedge edge) ih
  exact fun name path => Nat.lt_irrefl _ (hpath path)

/-- References come to an end: the declared constants are finitely many, and the others
refer to nothing. -/
theorem Acyclic.wellFounded (acyclic : program.Acyclic) :
    WellFounded fun target name => program.Refers name target := by
  let Below (a b : { name // name ∈ program.consts.keys }) : Prop :=
    Relation.TransGen program.Refers b.1 a.1
  have htrans : IsTrans _ Below := ⟨fun _ _ _ hab hbc => hbc.trans hab⟩
  have hirrefl : Std.Irrefl Below := ⟨fun a => acyclic a.1⟩
  have hlisted : Finite { name // name ∈ program.consts.keys } :=
    (List.finite_toSet program.consts.keys).to_subtype
  have hfinite : WellFounded Below := Finite.wellFounded_of_trans_of_irrefl Below
  have hleaf : ∀ name, name ∉ program.consts.keys →
      Acc (fun target name => program.Refers name target) name :=
    fun name hname => ⟨name, fun target h => absurd h.mem_keys hname⟩
  have hkey : ∀ key : { name // name ∈ program.consts.keys },
      Acc (fun target name => program.Refers name target) key.1 := by
    intro key
    induction key using hfinite.induction with
    | _ key ih =>
        refine ⟨key.1, fun target h => ?_⟩
        by_cases hmem : target ∈ program.consts.keys
        · exact ih ⟨target, hmem⟩ (.single h)
        · exact hleaf target hmem
  refine ⟨fun name => ?_⟩
  by_cases hmem : name ∈ program.consts.keys
  · exact hkey ⟨name, hmem⟩
  · exact hleaf name hmem

/-- What a constant means. References are followed until they end; a literal is given
the meanings of the constants it refers to and nothing else. -/
def meaning (program : Program) (limit : Nat) (acyclic : program.Acyclic)
    (name : String) : Option Value :=
  match _body : program.body? name with
  | none => none
  | some literal =>
      literal.denote
        { constant := fun target =>
            if _named : target ∈ literal.targets then
              program.meaning limit acyclic target
            else none
          member := program.memberValue? limit }
termination_by acyclic.wellFounded.wrap name
decreasing_by exact ⟨literal, _body, _named⟩

/-- What the names of a program mean. -/
def names (program : Program) (limit : Nat) (acyclic : program.Acyclic) : Names :=
  ⟨program.meaning limit acyclic, program.memberValue? limit⟩

/-- A constant means what its literal means. -/
theorem meaning_eq (limit : Nat) (acyclic : program.Acyclic) (name : String) :
    program.meaning limit acyclic name =
      (program.body? name).bind (Literal.denote (program.names limit acyclic)) := by
  rw [meaning]
  split
  · next hbody => simp [hbody]
  · next literal hbody =>
      rw [hbody, Option.bind_some]
      refine literal.denote_congr ⟨rfl, fun target htarget => ?_⟩
      simp only [htarget, dif_pos, names]

/-- That equation has no other solution. -/
theorem meaning_unique {limit : Nat} (acyclic : program.Acyclic)
    {solution : String → Option Value}
    (solves : ∀ name, solution name =
      (program.body? name).bind (Literal.denote ⟨solution, program.memberValue? limit⟩)) :
    solution = program.meaning limit acyclic := by
  funext name
  induction name using acyclic.wellFounded.induction with
  | _ name ih =>
      rw [solves, meaning_eq]
      cases hbody : program.body? name with
      | none => rfl
      | some literal =>
          exact literal.denote_congr
            ⟨rfl, fun target htarget => ih target ⟨literal, hbody, htarget⟩⟩

end Program

end SchemaIR
