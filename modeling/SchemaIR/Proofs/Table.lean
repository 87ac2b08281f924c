import Mathlib.Data.List.Nodup
import SchemaIR.Table

/-!
# Looking up and enumerating tables

A table is a list of entries with distinct keys, so a look-up and membership say the
same. Two tables with the same look-ups then have the same entries, in some order, and
enumerate them alike once they are sorted by key.
-/

namespace SchemaIR.Table

variable {α : Type} {table other : Table α} {key : String} {value : α}

/-- The declared keys. -/
def keys (table : Table α) : List String := table.entries.map Prod.fst

theorem length_keys (table : Table α) : table.keys.length = table.size :=
  List.length_map _

theorem mem_of_find? (found : table.find? key = some value) :
    (key, value) ∈ table.entries := by
  obtain ⟨before, after, hsplit, _⟩ := List.lookup_eq_some_iff.mp found
  rw [hsplit]
  simp

theorem mem_keys_of_find? (found : table.find? key = some value) : key ∈ table.keys :=
  List.mem_map_of_mem (f := Prod.fst) (mem_of_find? found)

theorem find?_eq_some_iff : table.find? key = some value ↔ (key, value) ∈ table.entries := by
  refine ⟨mem_of_find?, fun hmem => ?_⟩
  obtain ⟨before, after, hsplit⟩ := List.append_of_mem hmem
  refine List.lookup_eq_some_iff.mpr ⟨before, after, hsplit, fun entry hentry => ?_⟩
  have hnodup := table.nodup
  rw [hsplit, List.map_append, List.map_cons] at hnodup
  have hdistinct := (List.nodup_append.mp hnodup).2.2 entry.1
    (List.mem_map_of_mem (f := Prod.fst) hentry) key List.mem_cons_self
  exact bne_iff_ne.mpr (Ne.symm hdistinct)

/-- How many declared keys are not among the names. -/
def unlisted (table : Table α) (names : List String) : Nat :=
  (table.keys.filter (· ∉ names)).length

theorem unlisted_le_size (table : Table α) (names : List String) :
    table.unlisted names ≤ table.size := by
  rw [← length_keys]
  exact List.length_filter_le _ _

/-- A declared key that is added to the names leaves fewer. -/
theorem unlisted_cons_lt {names : List String} (found : table.find? key = some value)
    (fresh : key ∉ names) : table.unlisted (key :: names) < table.unlisted names := by
  have hfewer : table.keys.filter (· ∉ key :: names) =
      (table.keys.filter (· ∉ names)).filter (· ≠ key) := by
    rw [List.filter_filter]
    exact List.filter_congr fun other _ => by simp
  have hthere : key ∈ table.keys.filter (· ∉ names) := by
    simpa [fresh] using mem_keys_of_find? found
  rw [unlisted, unlisted, hfewer]
  exact List.length_filter_lt_length_iff_exists.mpr ⟨key, hthere, by simp⟩

theorem mem_sorted : value ∈ table.sorted ↔ ∃ key, table.find? key = some value := by
  simp [sorted, List.mem_mergeSort, find?_eq_some_iff]

theorem lookup_cons_ite (entry : String × α) (entries : List (String × α))
    (wanted : String) :
    (entry :: entries).lookup wanted =
      if wanted = entry.1 then some entry.2 else entries.lookup wanted := by
  rw [List.lookup_cons]
  by_cases h : wanted = entry.1
  · rw [if_pos h, beq_iff_eq.mpr h]
  · rw [if_neg h, beq_false_of_ne h]

theorem lookup_insertEntry (key : String) (value : α) (entries : List (String × α))
    (wanted : String) :
    (insertEntry key value entries).lookup wanted =
      if wanted = key then some value else entries.lookup wanted := by
  induction entries with
  | nil => exact lookup_cons_ite (key, value) [] wanted
  | cons entry rest ih =>
      rw [insertEntry]
      by_cases hkey : entry.1 = key
      · rw [if_pos hkey, lookup_cons_ite, lookup_cons_ite, hkey]
        split <;> rfl
      · rw [if_neg hkey, lookup_cons_ite, lookup_cons_ite, ih]
        by_cases hwanted : wanted = key
        · rw [if_neg (hwanted ▸ Ne.symm hkey), if_pos hwanted, if_pos hwanted]
        · rw [if_neg hwanted, if_neg hwanted]

/-- An insertion is seen under its own key and nowhere else. -/
theorem find?_insert (table : Table α) (key : String) (value : α) (wanted : String) :
    (table.insert key value).find? wanted =
      if wanted = key then some value else table.find? wanted :=
  lookup_insertEntry key value table.entries wanted

/-- Two tables with the same look-ups. -/
def Same (table other : Table α) : Prop := ∀ key, table.find? key = other.find? key

theorem same_of_perm (h : table.entries.Perm other.entries) : table.Same other := by
  intro key
  refine Option.ext fun value => ?_
  rw [find?_eq_some_iff, find?_eq_some_iff, h.mem_iff]

theorem Same.perm (h : table.Same other) : table.entries.Perm other.entries := by
  refine (List.perm_ext_iff_of_nodup table.nodup.of_map other.nodup.of_map).mpr ?_
  rintro ⟨key, value⟩
  rw [← find?_eq_some_iff, ← find?_eq_some_iff, h]

theorem Same.size_eq (h : table.Same other) : table.size = other.size :=
  h.perm.length_eq

theorem Same.contains_eq (h : table.Same other) : table.contains = other.contains :=
  funext fun key => congrArg Option.isSome (h key)

/-- Sorting by distinct keys leaves no choice. -/
theorem Same.sorted_eq (h : table.Same other) : table.sorted = other.sorted := by
  let le : String × α → String × α → Bool := fun a b => decide (a.1 ≤ b.1)
  have htrans : ∀ a b c, le a b → le b c → le a c := by
    intro a b c hab hbc
    exact decide_eq_true (String.le_trans (of_decide_eq_true hab) (of_decide_eq_true hbc))
  have htotal : ∀ a b, le a b || le b a := by
    intro a b
    simpa [le] using String.le_total a.1 b.1
  have hperm : (table.entries.mergeSort le).Perm (other.entries.mergeSort le) :=
    (List.mergeSort_perm _ _).trans (h.perm.trans (List.mergeSort_perm _ _).symm)
  -- Entries that stand on both sides of each other have one key, and it has one value.
  have hsame : ∀ a b, a ∈ table.entries.mergeSort le → b ∈ other.entries.mergeSort le →
      le a b → le b a → a = b := by
    rintro ⟨key, value⟩ ⟨key', value'⟩ ha hb hab hba
    obtain rfl : key = key' :=
      String.le_antisymm (of_decide_eq_true hab) (of_decide_eq_true hba)
    have ha := find?_eq_some_iff.mpr (List.mem_mergeSort.mp ha)
    have hb := find?_eq_some_iff.mpr (h.perm.mem_iff.mpr (List.mem_mergeSort.mp hb))
    rw [Option.some.inj (ha.symm.trans hb)]
  exact congrArg (List.map Prod.snd) (hperm.eq_of_pairwise hsame
    (List.pairwise_mergeSort htrans htotal _) (List.pairwise_mergeSort htrans htotal _))

end SchemaIR.Table
