/-!
# Tables of declarations

A table holds at most one declaration under each key, in the order in which the
keys first arrived. The order is an accident of how a table was filled: two tables
with the same look-ups count as equal, and whatever must not depend on the order
goes through `sorted`.
-/

namespace SchemaIR

/-- Declarations by key. -/
structure Table (α : Type) where
  entries : List (String × α)
  nodup : (entries.map Prod.fst).Nodup

namespace Table

variable {α : Type}

/-- The table without declarations. -/
def empty : Table α := ⟨[], List.nodup_nil⟩

instance : Inhabited (Table α) := ⟨empty⟩

/-- Puts a declaration in place of the one under the same key, or at the end. -/
def insertEntry (key : String) (value : α) : List (String × α) → List (String × α)
  | [] => [(key, value)]
  | (k, v) :: rest =>
    if k = key then (k, value) :: rest else (k, v) :: insertEntry key value rest

theorem map_fst_insertEntry (key : String) (value : α) (entries : List (String × α)) :
    (insertEntry key value entries).map Prod.fst =
      if key ∈ entries.map Prod.fst then entries.map Prod.fst
      else entries.map Prod.fst ++ [key] := by
  induction entries with
  | nil => simp [insertEntry]
  | cons entry rest ih =>
    obtain ⟨k, v⟩ := entry
    by_cases h : k = key
    · simp [insertEntry, h]
    · have h' : ¬key = k := fun e => h e.symm
      simp only [insertEntry, h, if_false, List.map_cons, ih, List.mem_cons, h', false_or]
      split <;> simp

theorem nodup_insertEntry (key : String) (value : α) {entries : List (String × α)}
    (h : (entries.map Prod.fst).Nodup) :
    ((insertEntry key value entries).map Prod.fst).Nodup := by
  rw [map_fst_insertEntry]
  split
  · exact h
  · next hk => exact List.nodup_append.2 ⟨h, by simp, by
      intro a ha b hb
      simp only [List.mem_singleton] at hb
      subst hb
      exact fun e => hk (e ▸ ha)⟩

/-- Declares `value` under `key`; an earlier declaration of that key is lost. -/
def insert (table : Table α) (key : String) (value : α) : Table α :=
  ⟨insertEntry key value table.entries, nodup_insertEntry key value table.nodup⟩

/-- The table of a list of declarations, of which the last under each key counts. -/
def ofList (entries : List (String × α)) : Table α :=
  entries.foldl (fun table entry => table.insert entry.1 entry.2) empty

/-- The declaration under a key. -/
def find? (table : Table α) (key : String) : Option α :=
  table.entries.lookup key

/-- Whether a key is declared. -/
def contains (table : Table α) (key : String) : Bool :=
  (table.find? key).isSome

/-- How many keys are declared. -/
def size (table : Table α) : Nat := table.entries.length

/-- Whether nothing is declared. -/
def isEmpty (table : Table α) : Bool := table.entries.isEmpty

/-- The declarations in the order of their keys, compared by code points. -/
def sorted (table : Table α) : List α :=
  (table.entries.mergeSort fun a b => decide (a.1 ≤ b.1)).map Prod.snd

instance [BEq α] : BEq (Table α) where
  beq a b := a.size == b.size && a.entries.all fun (key, value) =>
    match b.find? key with
    | some other => value == other
    | none => false

end Table

end SchemaIR
