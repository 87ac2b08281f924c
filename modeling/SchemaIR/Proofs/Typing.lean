import Mathlib
import SchemaIR.Proofs.Numbers

/-!
# Values have the types that they show

The type that a value shows is found by looking at the first item of each array and nowhere else,
and the arrays that are met on the way down become one node with a count. A value has a type in
a plainer sense, which looks at every item and takes an array apart one dimension at a time. This
file is about values for which the two agree.

The items of an array need not be alike, and then the first one does not speak for the others. If
they all show the same type, on every level, then it does.
-/

namespace SchemaIR

mutual

/-- `value.HasType type`: the value is one of the type. -/
inductive Value.HasType : Value → TypeRef → Prop where
  | string (text : String) : Value.HasType (.string text) (.primitive .string)
  | int (number : Int64) : Value.HasType (.int number) (.primitive .int)
  | float (number : Float) : Value.HasType (.float number) (.primitive .float)
  | bool (flag : Bool) : Value.HasType (.bool flag) (.primitive .bool)
  | object {entries : List (String × Value)} {fields : List Field}
      (h : EntriesHaveTypes entries fields) : Value.HasType (.object entries) (.object fields)
  /-- With one dimension the items are of the type of items. -/
  | items {items : List Value} {item : TypeRef} (each : ∀ value ∈ items, Value.HasType value item) :
      Value.HasType (.array items) (.array item 1)
  /-- With more of them the items are arrays that have one less. -/
  | slices {items : List Value} {item : TypeRef} {dims : UInt32} (several : 1 < dims)
      (each : ∀ value ∈ items, Value.HasType value (.array item (dims - 1))) :
      Value.HasType (.array items) (.array item dims)

/-- The entries of an object are those of the fields, in order, and none of these is optional. -/
inductive EntriesHaveTypes : List (String × Value) → List Field → Prop where
  | nil : EntriesHaveTypes [] []
  | cons {key : String} {value : Value} {doc : Option String} {annotations : List Annotation}
      {type : TypeRef} {entries : List (String × Value)} {fields : List Field}
      (first : Value.HasType value type) (more : EntriesHaveTypes entries fields) :
      EntriesHaveTypes ((key, value) :: entries) (⟨key, doc, false, annotations, type⟩ :: fields)

end

/-- On every level of a value, all items of an array show the same type. -/
inductive Value.Uniform : Value → Prop where
  | string (text : String) : Uniform (.string text)
  | int (number : Int64) : Uniform (.int number)
  | float (number : Float) : Uniform (.float number)
  | bool (flag : Bool) : Uniform (.bool flag)
  | object {entries : List (String × Value)} (each : ∀ entry ∈ entries, Uniform entry.2) :
      Uniform (.object entries)
  | array {items : List Value} (each : ∀ item ∈ items, Uniform item)
      (alike : ∀ item ∈ items, ∀ other ∈ items, item.inferType = other.inferType) :
      Uniform (.array items)

namespace Value

theorem uniform_array {items : List Value} : (array items).Uniform ↔
    (∀ item ∈ items, item.Uniform) ∧
      ∀ item ∈ items, ∀ other ∈ items, item.inferType = other.inferType := by
  constructor
  · intro h
    cases h with
    | array each alike => exact ⟨each, alike⟩
  · exact fun h => .array h.1 h.2

theorem uniform_object {entries : List (String × Value)} :
    (object entries).Uniform ↔ ∀ entry ∈ entries, entry.2.Uniform := by
  constructor
  · intro h
    cases h with
    | object each => exact each
  · exact .object

theorem depth_le_itemsDepth {item : Value} {items : List Value} (h : item ∈ items) :
    item.depth ≤ itemsDepth items := by
  induction items with
  | nil => cases h
  | cons first rest ih =>
      rw [itemsDepth]
      rcases List.mem_cons.mp h with rfl | h
      · omega
      · have := ih h
        omega

theorem depth_le_entriesDepth {entry : String × Value} {entries : List (String × Value)}
    (h : entry ∈ entries) : entry.2.depth ≤ entriesDepth entries := by
  induction entries with
  | nil => cases h
  | cons first rest ih =>
      rw [entriesDepth]
      rcases List.mem_cons.mp h with rfl | h
      · exact Nat.le_max_left _ _
      · have := ih h
        omega

/-- An array of values of a type is of the array of that type, merged or not. -/
theorem hasType_arrayOf {items : List Value} {type : TypeRef} (counted : 0 ∉ type.dimensions)
    (room : type.outer + 1 < UInt32.size) (each : ∀ item ∈ items, item.HasType type) :
    (array items).HasType type.arrayOf := by
  cases type with
  | primitive | named | enumeration | map | object => exact .items each
  | array item dims =>
      have hdims : dims ≠ 0 := fun hzero => counted (hzero ▸ List.mem_cons_self)
      have hpositive : dims.toNat ≠ 0 := fun hzero => hdims (UInt32.toNat_inj.mp hzero)
      have hsum : (dims + 1).toNat = dims.toNat + 1 :=
        (TypeRef.arrayOf_dimensions room counted).2
      refine .slices ?_ ?_
      · rw [UInt32.lt_iff_toNat_lt, hsum]
        show 1 < dims.toNat + 1
        omega
      · rw [UInt32.add_sub_cancel]
        exact each

theorem entriesHaveTypes_inferFields {entries : List (String × Value)}
    (each : ∀ entry ∈ entries, entry.2.HasType entry.2.inferType) :
    EntriesHaveTypes entries (inferFields entries) := by
  induction entries with
  | nil => exact .nil
  | cons entry rest ih =>
      obtain ⟨key, value⟩ := entry
      rw [List.forall_mem_cons] at each
      rw [inferFields]
      exact .cons each.1 (ih each.2)

/-- A value has the type that it shows, if on every level of it the items of an array all show
the same type. It has to nest less deep than 32 bits can count. -/
theorem hasType_inferType (value : Value) (uniform : value.Uniform)
    (shallow : value.depth < UInt32.size) : value.HasType value.inferType := by
  induction uniform with
  | string text => exact .string text
  | int number => exact .int number
  | float number => exact .float number
  | bool flag => exact .bool flag
  | @object entries _ ih =>
      rw [depth] at shallow
      refine .object (entriesHaveTypes_inferFields fun entry hentry => ?_)
      have hdepth := depth_le_entriesDepth hentry
      exact ih entry hentry (by omega)
  | @array items _ alike ih =>
      rw [depth] at shallow
      have each : ∀ item ∈ items, item.HasType item.inferType := by
        intro item hitem
        have hdepth := depth_le_itemsDepth hitem
        exact ih item hitem (by omega)
      cases items with
      | nil => exact .items (List.forall_mem_nil _)
      | cons first rest =>
          -- The first item speaks for all of them.
          have hfirst : ∀ item ∈ first :: rest, item.HasType first.inferType := by
            intro item hitem
            rw [alike first List.mem_cons_self item hitem]
            exact each item hitem
          have hdepth := depth_le_itemsDepth (List.mem_cons_self (a := first) (l := rest))
          obtain ⟨hcounted, houter⟩ := first.inferType_dimensions (by omega)
          rw [inferType]
          exact hasType_arrayOf hcounted (by omega) hfirst

/-- An object with a matrix, with objects in an array that have arrays of empty arrays in them, and
with a key that comes twice. -/
def sheet : Value :=
  .object [("cells", .array [.array [.int 1, .int 2], .array [.int 3]]),
    ("notes", .array [.object [("tags", .array [.array []])],
      .object [("tags", .array [.array [.string "x"], .array []])]]),
    ("cells", .array [])]

theorem sheet_uniform : sheet.Uniform := by
  have hint (number : Int64) : (int number).Uniform := .int number
  have hstring (text : String) : (string text).Uniform := .string text
  simp [sheet, uniform_object, uniform_array, hint, hstring, inferType, inferFields,
    TypeRef.arrayOf]

theorem hasType_inferType_sheet :
    let tags : Field := ⟨"tags", none, false, [], .array (.primitive .string) 2⟩
    let mixed := array [.int 1, .string "x"]
    sheet.Uniform ∧ sheet.depth = 6 ∧
      sheet.HasType (.object [⟨"cells", none, false, [], .array (.primitive .int) 2⟩,
        ⟨"notes", none, false, [], .array (.object [tags]) 1⟩,
        ⟨"cells", none, false, [], .array (.primitive .string) 1⟩]) ∧
      ¬ mixed.HasType mixed.inferType := by
  intro tags mixed
  refine ⟨sheet_uniform, rfl, hasType_inferType sheet sheet_uniform (by decide), fun h => ?_⟩
  have htype : (array [.int 1, .string "x"]).HasType (.array (.primitive .int) 1) := h
  cases htype with
  | items each =>
      have hstring := each (.string "x") (by simp)
      cases hstring
  | slices several => exact absurd several (by decide)

end Value

end SchemaIR
