import SchemaIR.Proofs.Flattening
import SchemaIR.Proofs.Nesting
import SchemaIR.Proofs.RoundTrip

/-!
# The numbers in a lowered schema

Two kinds of numbers could keep a schema from being what it is published as. A float that is
not finite has no text, and an array type without dimensions is not one.

Floats come from literals only, and a literal beyond every float has no value; everything else
that evaluation does passes values on. Dimensions are declared, where none at all means that
there is no array, or they are counted along the nesting of a value. The count has 32 bits, so
it is right for values that nest less deep than that.
-/

namespace SchemaIR

/-! ## Floats -/

namespace Value

/-- Every float in the value is finite. -/
def Finite (value : Value) : Prop := ∀ x ∈ value.floats, x.isFinite = true

theorem entriesFloats_eq_flatMap (entries : List (String × Value)) :
    entriesFloats entries = entries.flatMap (·.2.floats) := by
  induction entries with
  | nil => rfl
  | cons entry rest ih => rw [entriesFloats, ih, List.flatMap_cons]

theorem itemsFloats_eq_flatMap (items : List Value) :
    itemsFloats items = items.flatMap floats := by
  induction items with
  | nil => rfl
  | cons item rest ih => rw [itemsFloats, ih, List.flatMap_cons]

theorem finite_object {entries : List (String × Value)} :
    (object entries).Finite ↔ ∀ entry ∈ entries, entry.2.Finite := by
  simp only [Finite, floats, entriesFloats_eq_flatMap, List.mem_flatMap]
  constructor
  · exact fun h entry hentry x hx => h x ⟨entry, hentry, hx⟩
  · rintro h x ⟨entry, hentry, hx⟩
    exact h entry hentry x hx

theorem finite_array {items : List Value} :
    (array items).Finite ↔ ∀ item ∈ items, item.Finite := by
  simp only [Finite, floats, itemsFloats_eq_flatMap, List.mem_flatMap]
  constructor
  · exact fun h item hitem x hx => h x ⟨item, hitem, hx⟩
  · rintro h x ⟨item, hitem, hx⟩
    exact h item hitem x hx

end Value

theorem Literal.scalar?_finite {literal : Literal} {value : Value} {events : Log}
    (plain : literal.scalar? = some (some value, events)) : value.Finite := by
  obtain ⟨_, rfl⟩ | ⟨_, rfl⟩ | ⟨x, finite, rfl⟩ | ⟨_, rfl⟩ := scalar?_value plain
  · exact List.forall_mem_nil _
  · exact List.forall_mem_nil _
  · exact List.forall_mem_singleton.mpr finite
  · exact List.forall_mem_nil _

theorem Program.memberValue?_finite {program : Program} {limit : Nat}
    {enum member : String} {value : Value}
    (h : program.memberValue? limit enum member = some value) : value.Finite := by
  obtain ⟨_, rfl⟩ | ⟨_, rfl⟩ := memberValue?_value h <;> exact List.forall_mem_nil _

/-- The values in the cache are finite. -/
def Resolver.Finite (st : Resolver) : Prop :=
  ∀ name known, st.cache.lookup name = some known → known.value.Finite

/-- What is answered is finite. -/
def Query.Finite : (query : Query) → query.Answer → Prop
  | .constant _ => fun answer => ∀ value ∈ answer, value.Finite
  | .literal _ => fun answer => ∀ value ∈ answer, value.Finite
  | .elements _ => fun answer => ∀ item ∈ answer, item.Finite
  | .entries _ => fun answer => ∀ entry ∈ answer, entry.2.Finite

theorem Resolver.Finite.conclude {st : Resolver} (h : st.Finite) (name : String)
    {value? : Option Value} (answered : ∀ value ∈ value?, value.Finite) :
    (st.conclude name value?).Finite := by
  cases value? with
  | none => exact h
  | some value =>
      intro other known hlookup
      simp only [conclude_cache_some, List.lookup_cons] at hlookup
      split at hlookup
      · cases hlookup
        exact answered value rfl
      · exact h other known hlookup

/-- Evaluation passes finite values on: what it takes from the cache it put there. -/
theorem Evaluates.finite {program : Program} {limit : Nat} {query : Query} {st st' : Resolver}
    {answer : query.Answer} (run : Evaluates program limit query st answer st')
    (h : st.Finite) : query.Finite answer ∧ st'.Finite := by
  induction run with
  | cached hit _ =>
      refine ⟨?_, h⟩
      rintro value ⟨⟩
      exact h _ _ hit
  | withheld | undeclared | circular | valueless | tooDeep =>
      refine ⟨?_, h⟩
      rintro value ⟨⟩
  | visited _ _ _ _ _ ih => exact ⟨(ih h).1, (ih h).2.conclude _ (ih h).1⟩
  | reference _ _ ih | memberSpread _ _ ih => exact ih h
  | member => exact ⟨fun _ hvalue => Program.memberValue?_finite hvalue, h⟩
  | scalar _ plain =>
      refine ⟨?_, h⟩
      rintro value rfl
      exact Literal.scalar?_finite plain
  | object _ _ ih =>
      refine ⟨?_, (ih h).2⟩
      rintro value ⟨⟩
      exact Value.finite_object.mpr (ih h).1
  | array _ _ ih =>
      refine ⟨?_, (ih h).2⟩
      rintro value ⟨⟩
      exact Value.finite_array.mpr (ih h).1
  | noElements | noEntries => exact ⟨List.forall_mem_nil _, h⟩
  | element _ _ ih₁ ih₂ =>
      obtain ⟨hfirst, hmid⟩ := ih₁ h
      obtain ⟨hmore, hend⟩ := ih₂ hmid
      refine ⟨fun item hitem => ?_, hend⟩
      rcases List.mem_append.mp hitem with hitem | hitem
      · exact hfirst item (Option.mem_toList.mp hitem)
      · exact hmore item hitem
  | field _ _ ih₁ ih₂ =>
      obtain ⟨hfirst, hmid⟩ := ih₁ h
      obtain ⟨hmore, hend⟩ := ih₂ hmid
      refine ⟨fun entry hentry => ?_, hend⟩
      rcases List.mem_append.mp hentry with hentry | hentry
      · obtain ⟨value, hvalue, rfl⟩ := List.mem_map.mp hentry
        exact hfirst value (Option.mem_toList.mp hvalue)
      · exact hmore entry hentry
  | spread _ _ _ ih₁ ih₂ =>
      obtain ⟨hfirst, hmid⟩ := ih₁ h
      obtain ⟨hmore, hend⟩ := ih₂ hmid
      refine ⟨fun entry hentry => ?_, hend⟩
      rcases List.mem_append.mp hentry with hentry | hentry
      · obtain ⟨entries, hvalue, hentry⟩ := mem_spreadEntries hentry
        exact Value.finite_object.mp (hfirst _ hvalue) entry hentry
      · exact hmore entry hentry

namespace Program

variable {program : Program} {limit : Nat} {st : Resolver}

theorem Later.finite (later : program.Later limit {} st) : st.Finite := by
  induction later with
  | refl => rintro name known ⟨⟩
  | tail _ move ih =>
      cases move with
      | report => exact ih
      | call call => exact ((program.evaluates_call limit call _).finite ih).2

theorem Emits.finite {value : Value} (h : program.Emits limit value {} st) : value.Finite := by
  obtain ⟨call, mid, hbefore, hanswer, -⟩ := h
  exact ((program.evaluates_call limit call mid).finite hbefore.finite).1 value hanswer

theorem Assigns.finite {constant : ConstantDef} (h : program.Assigns limit constant {} st) :
    constant.value.Finite := by
  obtain ⟨call, mid, hbefore, ⟨rfl, hvalue⟩, -⟩ := h
  have hanswer := ((program.evaluates_call limit (.constant constant.name) mid).finite
    hbefore.finite).1
  rw [hvalue]
  cases hcall : (program.call limit (.constant constant.name) mid).1 with
  | none => exact List.forall_mem_nil _
  | some value => exact hanswer value hcall

end Program

/-! ## Dimensions -/

mutual

/-- The dimensions of the arrays in a type, at any depth. -/
def TypeRef.dimensions : TypeRef → List UInt32
  | .array item dims => dims :: item.dimensions
  | .map value => value.dimensions
  | .object fields => fieldsDimensions fields
  | .primitive _ | .named _ | .enumeration _ _ => []

/-- The dimensions of the arrays in the types of fields. -/
def fieldsDimensions : List Field → List UInt32
  | [] => []
  | ⟨_, _, _, _, type⟩ :: rest => type.dimensions ++ fieldsDimensions rest

end

/-- The dimensions of all arrays in a schema. -/
def Schema.dimensions (schema : Schema) : List UInt32 :=
  schema.types.flatMap (fieldsDimensions ·.fields) ++
    schema.constants.flatMap (·.type.dimensions)

theorem fieldsDimensions_append (fields more : List Field) :
    fieldsDimensions (fields ++ more) = fieldsDimensions fields ++ fieldsDimensions more := by
  induction fields with
  | nil => rfl
  | cons field rest ih =>
      obtain ⟨name, doc, optional, annotations, type⟩ := field
      simp only [List.cons_append, fieldsDimensions, ih, List.append_assoc]

/-- The dimensions of the arrays in what is answered. -/
def FieldQuery.dimensions : (query : FieldQuery) → query.Answer → List UInt32
  | .type _ => TypeRef.dimensions
  | .base _ => TypeRef.dimensions
  | .object _ => fieldsDimensions
  | .field _ => fun field => field.type.dimensions
  | .fields _ => fieldsDimensions
  | .spreads _ _ => fun answer => fieldsDimensions answer.1

theorem TypeRef.Simple.dimensions {type : TypeRef} (h : type.Simple) : 0 ∉ type.dimensions := by
  cases h <;> exact List.not_mem_nil

/-- An array in a declared type has at least one dimension. -/
theorem Flattens.dimensions {program : Program} {limit : Nat} {query : FieldQuery}
    {st st' : Lowering} {answer : query.Answer}
    (run : Flattens program limit query st answer st') : 0 ∉ query.dimensions answer := by
  induction run with
  | plain _ ih | map _ ih | inline _ ih | field _ _ ih => exact ih
  | array dimensions _ ih => exact List.not_mem_cons_of_ne_of_not_mem dimensions.symm ih
  | primitive => exact (Program.lowerPrimitive_simple _ _).dimensions
  | custom => exact (program.namedType_simple _).dimensions
  | refusedObject | noFields | noSpreads => exact List.not_mem_nil
  | object _ _ _ ih₁ ih₂ =>
      rw [FieldQuery.dimensions, fieldsDimensions_append, List.mem_append, not_or]
      exact ⟨ih₁, ih₂⟩
  | @moreFields field _ result _ _ _ _ _ _ ih₁ ih₂ =>
      obtain ⟨name, doc, optional, annotations, type⟩ := result
      exact List.mem_append.not.mpr (not_or.mpr ⟨ih₁, ih₂⟩)
  | memberSpread _ _ ih | circularSpread _ _ _ ih | undeclaredSpread _ _ _ _ ih
  | refusedSpread _ _ _ _ _ ih => exact ih
  | spread _ _ _ _ _ _ _ ih₁ ih₂ ih₃ =>
      simp only [FieldQuery.dimensions, fieldsDimensions_append, List.mem_append, not_or]
      exact ⟨⟨ih₁, ih₂⟩, ih₃⟩

/-- The dimensions of an array type; any other type has none. -/
def TypeRef.outer : TypeRef → Nat
  | .array _ dims => dims.toNat
  | _ => 0

theorem TypeRef.arrayOf_dimensions {type : TypeRef} (room : type.outer + 1 < UInt32.size)
    (counted : 0 ∉ type.dimensions) :
    0 ∉ type.arrayOf.dimensions ∧ type.arrayOf.outer = type.outer + 1 := by
  cases type with
  | array item dims =>
      have hsum : (dims + 1).toNat = dims.toNat + 1 := by
        rw [UInt32.toNat_add]
        exact Nat.mod_eq_of_lt room
      have hpositive : 0 ≠ dims + 1 := by
        intro hzero
        have := congrArg UInt32.toNat hzero
        rw [hsum] at this
        cases this
      have hitem : 0 ∉ item.dimensions := fun hmem => counted (List.mem_cons_of_mem _ hmem)
      exact ⟨List.not_mem_cons_of_ne_of_not_mem hpositive hitem, hsum⟩
  | primitive | named | enumeration | map | object =>
      exact ⟨List.not_mem_cons_of_ne_of_not_mem (by decide) counted, rfl⟩

mutual

/-- The dimensions of the type that a value shows are counted along its nesting. -/
theorem Value.inferType_dimensions (value : Value) (shallow : value.depth < UInt32.size) :
    0 ∉ value.inferType.dimensions ∧ value.inferType.outer ≤ value.depth := by
  match value with
  | .string _ | .int _ | .float _ | .bool _ => exact ⟨List.not_mem_nil, Nat.zero_le _⟩
  | .object entries =>
      rw [Value.depth] at shallow
      exact ⟨inferFields_dimensions entries (by omega), Nat.zero_le _⟩
  | .array [] => exact ⟨by decide, Nat.le_refl 1⟩
  | .array (item :: rest) =>
      rw [Value.depth, Value.itemsDepth] at shallow ⊢
      obtain ⟨hcounted, houter⟩ := item.inferType_dimensions (by omega)
      have hroom : item.inferType.outer + 1 < UInt32.size := by omega
      have harray := TypeRef.arrayOf_dimensions hroom hcounted
      rw [Value.inferType, harray.2]
      exact ⟨harray.1, by omega⟩

theorem inferFields_dimensions (entries : List (String × Value))
    (shallow : Value.entriesDepth entries < UInt32.size) :
    0 ∉ fieldsDimensions (inferFields entries) := by
  match entries with
  | [] => exact List.not_mem_nil
  | (key, value) :: rest =>
      rw [Value.entriesDepth] at shallow
      have hvalue := (value.inferType_dimensions (by omega)).1
      have hrest := inferFields_dimensions rest (by omega)
      exact List.mem_append.not.mpr (not_or.mpr ⟨hvalue, hrest⟩)

end

namespace Program

theorem constantType_dimensions (program : Program) (decl : ConstDecl) {value : Value}
    (shallow : value.depth < UInt32.size) : 0 ∉ (program.constantType decl value).dimensions := by
  rcases program.constantType_cases decl value with h | h
  · rw [h]
    exact (value.inferType_dimensions shallow).1
  · exact h.dimensions

theorem typeFields_dimensions (program : Program) (limit : Nat) (decl : TypeDecl) (st : Lowering) :
    0 ∉ fieldsDimensions (program.typeFields limit decl st).1 := by
  have hinherited := program.flattens_flatten limit (.spreads decl.spreads [decl.name]) st
  have hown := program.flattens_flatten limit (.fields decl.fields)
    (program.flatten limit (.spreads decl.spreads [decl.name]) st).2
  rw [typeFields, fieldsDimensions_append, List.mem_append, not_or]
  exact ⟨hinherited.dimensions, hown.dimensions⟩

/-- Constants nest at most one level deeper than the limit. -/
theorem lower_depth_le {program : Program} {limit : Nat} {constant : ConstantDef}
    (h : constant ∈ (program.lower limit).schema.constants) : constant.value.depth ≤ limit + 1 := by
  rcases ((lowerAll_visited program limit {}).2 constant h).capped with ⟨hvalue, -⟩ | hemits
  · rw [hvalue]
    exact Nat.le_add_left 1 limit
  · obtain ⟨_, _, _, _, _, hcapped⟩ := hemits
    exact hcapped.1

/-- Under a limit below `UInt32.size - 1`, the dimensions of every constant can be counted. -/
theorem lower_depth_lt {program : Program} {limit : Nat} {constant : ConstantDef}
    (room : limit < UInt32.size - 1)
    (h : constant ∈ (program.lower limit).schema.constants) :
    constant.value.depth < UInt32.size := by
  have hdepth := lower_depth_le h
  omega

/-- Every array in a lowered schema has at least one dimension, if no constant nests so deep
that its dimensions cannot be counted. -/
theorem lower_dimensions (program : Program) (limit : Nat)
    (shallow : ∀ constant ∈ (program.lower limit).schema.constants,
      constant.value.depth < UInt32.size) :
    0 ∉ (program.lower limit).schema.dimensions := by
  rw [Schema.dimensions, List.mem_append, not_or, List.mem_flatMap, List.mem_flatMap]
  constructor
  · rintro ⟨type, htype, hzero⟩
    obtain ⟨decl, -, st, rfl⟩ := exists_of_mem_eachStep (mem_sortByName.mp htype)
    exact program.typeFields_dimensions limit decl _ hzero
  · rintro ⟨constant, hconstant, hzero⟩
    have hdepth := shallow constant hconstant
    obtain ⟨decl, -, st, rfl⟩ := exists_of_mem_eachStep (mem_sortByName.mp hconstant)
    exact program.constantType_dimensions decl hdepth hzero

end Program

end SchemaIR
