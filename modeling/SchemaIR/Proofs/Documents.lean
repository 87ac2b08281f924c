import Mathlib
import SchemaIR.Proofs.JsonText

/-!
# The parts of a document

A document is a tree, and much that is asked of it is asked of every part: that no number is
beyond reading, that no key is repeated. This file has the parts, equality of documents, which
can be decided though floats are among the parts, and what it means that every scalar has its
value. In documents read from JSON only unreadable tokens stand against that, since every token
of a JSON text has a type of its own.
-/

namespace SchemaIR

namespace Node

mutual

/-- All parts of a document, keys included, and the document itself. -/
def parts : Node → List Node
  | .seq items => .seq items :: itemsParts items
  | .map entries => .map entries :: entriesParts entries
  | .null => [.null]
  | .bool flag => [.bool flag]
  | .int number => [.int number]
  | .float number => [.float number]
  | .string text => [.string text]
  | .plain text => [.plain text]
  | .unreadable => [.unreadable]

/-- All parts of some documents. -/
def itemsParts : List Node → List Node
  | [] => []
  | item :: rest => item.parts ++ itemsParts rest

/-- All parts of some keys and values. -/
def entriesParts : List (Node × Node) → List Node
  | [] => []
  | (key, value) :: rest => key.parts ++ value.parts ++ entriesParts rest

end

theorem mem_itemsParts {items : List Node} {part : Node} :
    part ∈ itemsParts items ↔ ∃ item ∈ items, part ∈ item.parts := by
  induction items with
  | nil => simp [itemsParts]
  | cons item rest ih => simp [itemsParts, ih]

theorem mem_entriesParts {entries : List (Node × Node)} {part : Node} :
    part ∈ entriesParts entries ↔
      ∃ entry ∈ entries, part ∈ entry.1.parts ∨ part ∈ entry.2.parts := by
  induction entries with
  | nil => simp [entriesParts]
  | cons entry rest ih => simp [entriesParts, ih, or_assoc]

mutual

theorem parts_trans (node : Node) {part inner : Node} (outer : part ∈ node.parts)
    (h : inner ∈ part.parts) : inner ∈ node.parts := by
  match node with
  | .null | .bool _ | .int _ | .float _ | .string _ | .plain _ | .unreadable =>
      cases List.mem_singleton.mp outer
      exact h
  | .seq items =>
      rcases List.mem_cons.mp outer with rfl | outer
      · exact h
      · exact List.mem_cons_of_mem _ (itemsParts_trans items outer h)
  | .map entries =>
      rcases List.mem_cons.mp outer with rfl | outer
      · exact h
      · exact List.mem_cons_of_mem _ (entriesParts_trans entries outer h)

theorem itemsParts_trans (items : List Node) {part inner : Node} (outer : part ∈ itemsParts items)
    (h : inner ∈ part.parts) : inner ∈ itemsParts items := by
  match items with
  | item :: rest =>
      rcases List.mem_append.mp outer with outer | outer
      · exact List.mem_append_left _ (parts_trans item outer h)
      · exact List.mem_append_right _ (itemsParts_trans rest outer h)

theorem entriesParts_trans (entries : List (Node × Node)) {part inner : Node}
    (outer : part ∈ entriesParts entries) (h : inner ∈ part.parts) :
    inner ∈ entriesParts entries := by
  match entries with
  | (key, value) :: rest =>
      simp only [entriesParts, List.mem_append] at outer ⊢
      rcases outer with (outer | outer) | outer
      · exact .inl (.inl (parts_trans key outer h))
      · exact .inl (.inr (parts_trans value outer h))
      · exact .inr (entriesParts_trans rest outer h)

end

theorem mem_parts_self (node : Node) : node ∈ node.parts := by
  cases node <;> exact List.mem_cons_self

/-! ## Equality -/

mutual

/-- Whether two documents are the same. -/
def same : Node → Node → Bool
  | .null, .null => true
  | .bool a, .bool b => decide (a = b)
  | .int a, .int b => decide (a = b)
  | .float a, .float b => decide (a = b)
  | .string a, .string b => decide (a = b)
  | .plain a, .plain b => decide (a = b)
  | .unreadable, .unreadable => true
  | .seq items, .seq others => sameItems items others
  | .map entries, .map others => sameEntries entries others
  | _, _ => false

/-- Whether two lists of documents are the same. -/
def sameItems : List Node → List Node → Bool
  | [], [] => true
  | item :: rest, other :: others => item.same other && sameItems rest others
  | _, _ => false

/-- Whether two lists of keys and values are the same. -/
def sameEntries : List (Node × Node) → List (Node × Node) → Bool
  | [], [] => true
  | (key, value) :: rest, (otherKey, otherValue) :: others =>
      key.same otherKey && value.same otherValue && sameEntries rest others
  | _, _ => false

end

mutual

theorem same_iff (node other : Node) : node.same other = true ↔ node = other := by
  match node with
  | .null | .unreadable => cases other <;> simp [same]
  | .bool _ | .int _ | .float _ | .string _ | .plain _ => cases other <;> simp [same]
  | .seq items =>
      cases other with
      | seq others => rw [same, sameItems_iff items others, seq.injEq]
      | null | bool | int | float | string | plain | unreadable | map => simp [same]
  | .map entries =>
      cases other with
      | map others => rw [same, sameEntries_iff entries others, map.injEq]
      | null | bool | int | float | string | plain | unreadable | seq => simp [same]

theorem sameItems_iff (items others : List Node) :
    sameItems items others = true ↔ items = others := by
  match items, others with
  | [], [] => simp [sameItems]
  | [], _ :: _ | _ :: _, [] => simp [sameItems]
  | item :: rest, other :: others =>
      rw [sameItems, Bool.and_eq_true, same_iff item other, sameItems_iff rest others,
        List.cons.injEq]

theorem sameEntries_iff (entries others : List (Node × Node)) :
    sameEntries entries others = true ↔ entries = others := by
  match entries, others with
  | [], [] => simp [sameEntries]
  | [], _ :: _ | _ :: _, [] => simp [sameEntries]
  | (key, value) :: rest, (otherKey, otherValue) :: others =>
      rw [sameEntries, Bool.and_eq_true, Bool.and_eq_true, same_iff key otherKey,
        same_iff value otherValue, sameEntries_iff rest others, List.cons.injEq, Prod.mk.injEq]

end

instance : DecidableEq Node := fun node other => decidable_of_iff _ (same_iff node other)

/-! ## Scalars with a value -/

/-- No part of the document is a plain scalar, whose type the reader would choose. -/
def Typed (node : Node) : Prop := ∀ text, .plain text ∉ node.parts

/-- Every scalar of the document has its value. -/
structure Settled (node : Node) : Prop where
  readable : .unreadable ∉ node.parts
  typed : node.Typed

mutual

theorem settle_of_settled (node : Node) (h : node.Settled) : node.settle = some node := by
  match node with
  | .null | .bool _ | .int _ | .float _ | .string _ => rfl
  | .plain text => exact absurd List.mem_cons_self (h.typed text)
  | .unreadable => exact absurd List.mem_cons_self h.readable
  | .seq items =>
      have hitems := settleItems_of_settled items
        ⟨fun hmem => h.readable (List.mem_cons_of_mem _ hmem),
          fun text hmem => h.typed text (List.mem_cons_of_mem _ hmem)⟩
      rw [settle, hitems, Option.map_some]
  | .map entries =>
      have hentries := settleEntries_of_settled entries
        ⟨fun hmem => h.readable (List.mem_cons_of_mem _ hmem),
          fun text hmem => h.typed text (List.mem_cons_of_mem _ hmem)⟩
      rw [settle, hentries, Option.map_some]

theorem settleItems_of_settled (items : List Node)
    (h : .unreadable ∉ itemsParts items ∧ ∀ text, .plain text ∉ itemsParts items) :
    settleItems items = some items := by
  match items with
  | [] => rfl
  | item :: rest =>
      simp only [itemsParts, List.mem_append, not_or] at h
      have hitem := settle_of_settled item ⟨h.1.1, fun text => (h.2 text).1⟩
      have hrest := settleItems_of_settled rest ⟨h.1.2, fun text => (h.2 text).2⟩
      rw [settleItems, hitem, hrest]
      rfl

theorem settleEntries_of_settled (entries : List (Node × Node))
    (h : .unreadable ∉ entriesParts entries ∧ ∀ text, .plain text ∉ entriesParts entries) :
    settleEntries entries = some entries := by
  match entries with
  | [] => rfl
  | (key, value) :: rest =>
      simp only [entriesParts, List.mem_append, not_or] at h
      have hkey := settle_of_settled key ⟨h.1.1.1, fun text => (h.2 text).1.1⟩
      have hvalue := settle_of_settled value ⟨h.1.1.2, fun text => (h.2 text).1.2⟩
      have hrest := settleEntries_of_settled rest ⟨h.1.2, fun text => (h.2 text).2⟩
      rw [settleEntries, hkey, hvalue, hrest]
      rfl

end

end Node

/-! ## What is read from a text -/

namespace Json

theorem parse?_of_chars {text : String} {cs : List Char} {node : Node} (chars : text.toList = cs)
    (read : readValue (2 * cs.length + 2) cs = some (node, [])) : parse? text = some node := by
  subst chars
  simp only [parse?, read]
  rfl

end Json

end SchemaIR
