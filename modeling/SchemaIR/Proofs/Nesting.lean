import SchemaIR.Program.Builder
import SchemaIR.Proofs.Visits

/-!
# How deep answers nest

The limit is there to bound the nesting of values. It is enforced in two places: a
literal that opens a level needs one that is left, and a cached value has to fit where it
is wanted. A reference opens no level, since its target stands in its place. For a
constant that is right, as the target is checked itself. But a member of an enumeration
is a value at once, and nothing checks that there is a level left for it. So a value can
nest one level deeper than the limit, namely where a member is referred to when all
levels are open, and nowhere else.
-/

namespace SchemaIR

namespace Value

theorem entriesDepth_le {entries : List (String × Value)} {bound : Nat} :
    entriesDepth entries ≤ bound ↔ ∀ entry ∈ entries, entry.2.depth ≤ bound := by
  induction entries with
  | nil => simp [entriesDepth]
  | cons entry rest ih => rw [entriesDepth, Nat.max_le, ih, List.forall_mem_cons]

theorem itemsDepth_le {items : List Value} {bound : Nat} :
    itemsDepth items ≤ bound ↔ ∀ item ∈ items, item.depth ≤ bound := by
  induction items with
  | nil => simp [itemsDepth]
  | cons item rest ih => rw [itemsDepth, Nat.max_le, ih, List.forall_mem_cons]

variable {depth roof : Nat}

/-- An object needs a level of its own and room for its entries below it. -/
theorem object_under_iff {entries : List (String × Value)} :
    depth + (object entries).depth ≤ roof ↔
      depth < roof ∧ ∀ entry ∈ entries, depth + 1 + entry.2.depth ≤ roof := by
  have hentries : entriesDepth entries ≤ roof - (depth + 1) ↔
      ∀ entry ∈ entries, entry.2.depth ≤ roof - (depth + 1) := entriesDepth_le
  rw [Value.depth]
  constructor
  · intro h
    refine ⟨by omega, fun entry hentry => ?_⟩
    have := hentries.mp (by omega) entry hentry
    omega
  · rintro ⟨hroof, h⟩
    have := hentries.mpr fun entry hentry => by
      have := h entry hentry
      omega
    omega

/-- An array likewise. -/
theorem array_under_iff {items : List Value} :
    depth + (array items).depth ≤ roof ↔
      depth < roof ∧ ∀ item ∈ items, depth + 1 + item.depth ≤ roof := by
  have hitems : itemsDepth items ≤ roof - (depth + 1) ↔
      ∀ item ∈ items, item.depth ≤ roof - (depth + 1) := itemsDepth_le
  rw [Value.depth]
  constructor
  · intro h
    refine ⟨by omega, fun item hitem => ?_⟩
    have := hitems.mp (by omega) item hitem
    omega
  · rintro ⟨hroof, h⟩
    have := hitems.mpr fun item hitem => by
      have := h item hitem
      omega
    omega

end Value

/-- A literal without parts has a value without parts, and a float is finite. -/
theorem Literal.scalar?_value {literal : Literal} {value : Value} {events : Log}
    (plain : literal.scalar? = some (some value, events)) :
    (∃ text, value = .string text) ∨ (∃ n, value = .int n) ∨
      (∃ x : Float, x.isFinite = true ∧ value = .float x) ∨ ∃ flag, value = .bool flag := by
  cases literal with
  | reference | object | array => cases plain
  | string text =>
      cases plain
      exact .inl ⟨text, rfl⟩
  | bool flag =>
      cases plain
      exact .inr (.inr (.inr ⟨flag, rfl⟩))
  | int raw =>
      simp only [Literal.scalar?, Option.some.injEq] at plain
      split at plain <;> cases plain
      exact .inr (.inl ⟨_, rfl⟩)
  | float raw =>
      simp only [Literal.scalar?, Option.some.injEq] at plain
      split at plain
      · split at plain <;> cases plain
        next finite => exact .inr (.inr (.inl ⟨_, finite, rfl⟩))
      · cases plain

theorem Literal.scalar?_depth {literal : Literal} {value : Value} {events : Log}
    (plain : literal.scalar? = some (some value, events)) : value.depth = 1 := by
  obtain ⟨_, rfl⟩ | ⟨_, rfl⟩ | ⟨_, _, rfl⟩ | ⟨_, rfl⟩ := scalar?_value plain <;> rfl

theorem mem_spreadEntries {value? : Option Value} {entry : String × Value}
    (h : entry ∈ spreadEntries value?) :
    ∃ entries, value? = some (.object entries) ∧ entry ∈ entries := by
  match value?, h with
  | some (.object entries), h => exact ⟨entries, rfl, h⟩

theorem Program.memberValue?_value {program : Program} {limit : Nat}
    {enum member : String} {value : Value}
    (h : program.memberValue? limit enum member = some value) :
    (∃ text, value = .string text) ∨ ∃ n, value = .int n := by
  obtain ⟨decl, _, h⟩ := Option.bind_eq_some_iff.mp h
  obtain ⟨found, _, h⟩ := Option.bind_eq_some_iff.mp h
  cases hkind : decl.valueType with
  | string =>
      rw [hkind] at h
      cases h
      exact .inl ⟨_, rfl⟩
  | int =>
      rw [hkind] at h
      obtain ⟨n, _, rfl⟩ := Option.map_eq_some_iff.mp h
      exact .inr ⟨n, rfl⟩

theorem Program.memberValue?_depth {program : Program} {limit : Nat}
    {enum member : String} {value : Value}
    (h : program.memberValue? limit enum member = some value) : value.depth = 1 := by
  obtain ⟨_, rfl⟩ | ⟨_, rfl⟩ := memberValue?_value h <;> rfl

/-- The depth noted in the cache is the depth of the value. -/
def Resolver.Measured (st : Resolver) : Prop :=
  ∀ name known, st.cache.lookup name = some known → known.depth = known.value.depth

theorem Resolver.Measured.conclude {st : Resolver} (h : st.Measured) (name : String)
    (value? : Option Value) : (st.conclude name value?).Measured := by
  cases value? with
  | none => exact h
  | some value =>
      intro other known hlookup
      simp only [conclude_cache_some, List.lookup_cons] at hlookup
      split at hlookup
      · cases hlookup
        rfl
      · exact h other known hlookup

/-- What is answered at the given depth stays under `roof`. -/
def Query.Nests (roof depth : Nat) : (query : Query) → query.Answer → Prop
  | .constant _ => fun answer => ∀ value, answer = some value → depth + value.depth ≤ roof
  | .literal _ => fun answer => ∀ value, answer = some value → depth + value.depth ≤ roof
  | .elements _ => fun answer => ∀ item ∈ answer, depth + item.depth ≤ roof
  | .entries _ => fun answer => ∀ entry ∈ answer, depth + entry.2.depth ≤ roof

/-! ## The induction

The two statements about the limit, with and without the exception for members, differ
in nothing but how high the roof is. So there is one induction, under a roof that has
room for every member met on the way. -/

namespace Program

/-- Inside the answer to a query, every member of an enumeration that has a value is
referred to at a depth below `roof`. -/
def MembersBelow (program : Program) (limit roof : Nat) (asked : Query × Resolver) :
    Prop :=
  ∀ target member st, program.Inside limit asked (.literal (.reference target), st) →
    target.member = some member →
    (program.memberValue? limit target.name member).isSome → st.depth < roof

theorem MembersBelow.inner {program : Program} {limit roof : Nat}
    {asked inner : Query × Resolver} (h : program.MembersBelow limit roof asked)
    (asks : program.Asks limit asked inner) : program.MembersBelow limit roof inner :=
  fun target member st inside => h target member st (.head asks inside)

end Program

namespace Evaluates

variable {program : Program} {limit roof : Nat} {query : Query} {st st' : Resolver}
  {answer : query.Answer}

theorem measured (run : Evaluates program limit query st answer st')
    (h : st.Measured) : st'.Measured := by
  induction run with
  | cached | withheld | undeclared | circular | valueless | member | tooDeep | scalar
  | noElements | noEntries => exact h
  | visited _ _ _ _ _ ih => exact (ih h).conclude _ _
  | reference _ _ ih | memberSpread _ _ ih => exact ih h
  | object _ _ ih | array _ _ ih => exact ih h
  | element _ _ ih₁ ih₂ | field _ _ ih₁ ih₂ => exact ih₂ (ih₁ h)
  | spread _ _ _ ih₁ ih₂ => exact ih₂ (ih₁ h)

theorem nests (run : Evaluates program limit query st answer st') (h : st.Measured)
    (hroof : limit ≤ roof) (members : program.MembersBelow limit roof (query, st)) :
    query.Nests roof st.depth answer := by
  induction run with
  | cached hit fits =>
      rintro value ⟨⟩
      have hdepth := h _ _ hit
      omega
  | withheld | undeclared | circular | valueless | tooDeep => exact fun _ h => nomatch h
  | visited miss found idle body _ ih =>
      exact ih h (members.inner (.body miss found idle body))
  | reference plain _ ih => exact ih h (members.inner (.target plain))
  | member named =>
      -- The one rule that checks nothing: the room has to come from outside.
      intro value hvalue
      have hbelow := members _ _ _ .refl named (Option.isSome_of_eq_some hvalue)
      have hdepth := Program.memberValue?_depth hvalue
      omega
  | scalar room plain =>
      rintro value rfl
      have hdepth := Literal.scalar?_depth plain
      omega
  | object room _ ih =>
      rintro value ⟨⟩
      have hentries := ih h (members.inner (.entries room))
      exact Value.object_under_iff.mpr ⟨by omega, hentries⟩
  | array room _ ih =>
      rintro value ⟨⟩
      have hitems := ih h (members.inner (.elements room))
      exact Value.array_under_iff.mpr ⟨by omega, hitems⟩
  | noElements | noEntries => exact fun _ hmem => nomatch hmem
  | element first _ ih₁ ih₂ =>
      have hfirst := ih₁ h (members.inner .element)
      have hmore := ih₂ (first.measured h) (members.inner (.moreElements first))
      rw [first.frame.2] at hmore
      intro item hitem
      rcases List.mem_append.mp hitem with hitem | hitem
      · exact hfirst item (Option.mem_toList.mp hitem)
      · exact hmore item hitem
  | field first _ ih₁ ih₂ =>
      have hfirst := ih₁ h (members.inner .field)
      have hmore := ih₂ (first.measured h) (members.inner (.afterField first))
      rw [first.frame.2] at hmore
      intro entry hentry
      rcases List.mem_append.mp hentry with hentry | hentry
      · obtain ⟨value, hvalue, rfl⟩ := List.mem_map.mp hentry
        exact hfirst value (Option.mem_toList.mp hvalue)
      · exact hmore entry hentry
  | spread plain first _ ih₁ ih₂ =>
      have hfirst := ih₁ h (members.inner (.source plain))
      have hmore := ih₂ (first.measured h) (members.inner (.afterSpread plain first))
      simp only [Resolver.report_fields, first.frame.2] at hmore
      intro entry hentry
      rcases List.mem_append.mp hentry with hentry | hentry
      · -- Entries move up one level when their object is spread, so there is room to spare.
        obtain ⟨entries, hvalue, hentry⟩ := mem_spreadEntries hentry
        have hobject := hfirst _ hvalue
        have hunder := (Value.object_under_iff.mp hobject).2 entry hentry
        omega
      · exact hmore entry hentry
  | memberSpread named _ ih => exact ih h (members.inner (.afterMemberSpread named))

end Evaluates

/-! ## Everywhere inside a run -/

namespace Program

variable {program : Program} {limit : Nat} {st st' : Resolver} {query query' : Query}

theorem Asks.measured (asks : program.Asks limit (query, st) (query', st'))
    (h : st.Measured) (hdepth : st.depth ≤ limit) :
    st'.Measured ∧ st'.depth ≤ limit := by
  cases asks with
  | body | target | element | field | source | afterMemberSpread => exact ⟨h, hdepth⟩
  | entries room | elements room => exact ⟨h, room⟩
  | moreElements first | afterField first | afterSpread _ first =>
      exact ⟨first.measured h, Nat.le_trans (Nat.le_of_eq first.frame.2) hdepth⟩

theorem Inside.measured {asked inner : Query × Resolver}
    (inside : program.Inside limit asked inner) (h : asked.2.Measured)
    (hdepth : asked.2.depth ≤ limit) : inner.2.Measured ∧ inner.2.depth ≤ limit := by
  induction inside with
  | refl => exact ⟨h, hdepth⟩
  | tail _ asks ih => exact Asks.measured asks ih.1 ih.2

theorem Later.measured (later : program.Later limit {} st) : st.Measured := by
  induction later with
  | refl => exact fun _ _ h => nomatch h
  | tail _ move ih =>
      cases move with
      | report => exact ih
      | call call => exact (program.evaluates_call limit call _).measured ih

/-- One level above the limit is always enough. -/
theorem Inside.nests_succ {asked : Query × Resolver}
    (inside : program.Inside limit asked (query, st)) (h : asked.2.Measured)
    (hdepth : asked.2.depth ≤ limit) :
    query.Nests (limit + 1) st.depth (program.answer limit query st).1 := by
  obtain ⟨hinner, hopen⟩ := inside.measured h hdepth
  refine (program.evaluates_answer limit query st).nests hinner (Nat.le_succ limit) ?_
  intro target member deep hdeep _ _
  exact Nat.lt_succ_of_le (hdeep.measured hinner hopen).2

/-- The limit itself is kept everywhere inside the answer to a query if and only if no
member of an enumeration is referred to there when all levels are open. -/
theorem nests_iff_membersBelow {asked : Query × Resolver} (h : asked.2.Measured)
    (hdepth : asked.2.depth ≤ limit) :
    (∀ query st, program.Inside limit asked (query, st) →
        query.Nests limit st.depth (program.answer limit query st).1) ↔
      program.MembersBelow limit limit asked := by
  constructor
  · intro hnests target member deep inside named hsome
    obtain ⟨value, hvalue⟩ := Option.isSome_iff_exists.mp hsome
    have run : Evaluates program limit _ deep _ _ := .member named
    have hanswer := answer_eq_iff.mpr run
    have hunder := hnests _ deep inside value ((congrArg Prod.fst hanswer).trans hvalue)
    have hone := memberValue?_depth hvalue
    omega
  · intro members query deep inside
    have hinner := (inside.measured h hdepth).1
    refine (program.evaluates_answer limit query deep).nests hinner (Nat.le_refl limit) ?_
    intro target member deeper hdeeper
    exact members target member deeper (inside.trans hdeeper)

/-! ## Runs and schemas -/

/-- The answer to a call is at most one level above the limit, and not even that where no
member is referred to when all levels are open. -/
def Capped (program : Program) (limit : Nat) (call : Call) (st : Resolver)
    (value : Value) : Prop :=
  value.depth ≤ limit + 1 ∧
    (program.MembersBelow limit limit (.literal call.term, st) → value.depth ≤ limit)

/-- A value was answered, and capped, on the way from the start to `final`. -/
def EmitsCapped (program : Program) (limit : Nat) (value : Value) (final : Resolver) :
    Prop :=
  ∃ call st, program.Later limit {} st ∧ (program.call limit call st).1 = some value ∧
    program.Later limit (program.call limit call st).2 final ∧
    program.Capped limit call st value

/-- A constant that had no value when it was asked for. -/
def Unresolved (program : Program) (limit : Nat) (constant : ConstantDef) : Prop :=
  constant.value = .string "" ∧
    ∃ st, program.Later limit {} st ∧
      (program.call limit (.constant constant.name) st).1 = none

/-- Between calls nothing is open, so what holds under the open levels holds of the
answer alone. -/
theorem Later.capped {call : Call} {value : Value} (later : program.Later limit {} st)
    (answered : (program.call limit call st).1 = some value) :
    program.Capped limit call st value := by
  have hclosed : st.depth = 0 := later.frame.2.1
  have hopen : st.depth ≤ limit := hclosed ▸ Nat.zero_le limit
  rw [call_eq_answer] at answered
  constructor
  · have inside : program.Inside limit (.literal call.term, st) (.literal call.term, st) :=
      .refl
    have hunder := inside.nests_succ later.measured hopen value answered
    omega
  · intro members
    have hnests := (nests_iff_membersBelow later.measured hopen).mpr members
    have hunder := hnests _ st .refl value answered
    omega

theorem Emits.capped {value : Value} {final : Resolver}
    (h : program.Emits limit value {} final) : program.EmitsCapped limit value final := by
  obtain ⟨call, mid, hbefore, hanswer, hafter⟩ := h
  exact ⟨call, mid, hbefore, hanswer, hafter, hbefore.capped hanswer⟩

theorem Assigns.capped {constant : ConstantDef} {final : Resolver}
    (h : program.Assigns limit constant {} final) :
    program.Unresolved limit constant ∨
      program.EmitsCapped limit constant.value final := by
  obtain ⟨call, mid, hbefore, ⟨rfl, hvalue⟩, hafter⟩ := h
  cases hanswer : (program.call limit (.constant constant.name) mid).1 with
  | none =>
      rw [hanswer] at hvalue
      exact .inl ⟨hvalue, mid, hbefore, hanswer⟩
  | some value =>
      rw [hanswer] at hvalue
      have hemits : program.Emits limit constant.value {} final :=
        ⟨_, mid, hbefore, hvalue ▸ hanswer, hafter⟩
      exact .inr hemits.capped

/-- After whatever calls, an answer is at most one level above the limit, and so is what
is answered inside of it, together with the levels open there. The limit is kept
throughout a call if and only if no member of an enumeration is referred to in it when
all levels are open. The same bounds hold of the arguments of annotations and of the
constants in a lowered schema, but for constants without a value. -/
theorem nests_calls_lower (program : Program) (limit : Nat) :
    (∀ (calls : List Call) (call : Call),
      let st := (program.calls limit calls {}).2
      (∀ value, (program.call limit call st).1 = some value →
        program.Capped limit call st value) ∧
      (∀ query inner, program.Inside limit (.literal call.term, st) (query, inner) →
        query.Nests (limit + 1) inner.depth (program.answer limit query inner).1) ∧
      ((∀ query inner, program.Inside limit (.literal call.term, st) (query, inner) →
          query.Nests limit inner.depth (program.answer limit query inner).1) ↔
        program.MembersBelow limit limit (.literal call.term, st))) ∧
    (∀ value ∈ (program.lower limit).schema.arguments,
      program.EmitsCapped limit value (program.lowerAll limit {}).2.resolver) ∧
    (∀ constant ∈ (program.lower limit).schema.constants,
      program.Unresolved limit constant ∨
        program.EmitsCapped limit constant.value
          (program.lowerAll limit {}).2.resolver) := by
  refine ⟨fun calls call => ?_, fun value hvalue => ?_, fun constant hconstant => ?_⟩
  · have hlater := Later.calls program limit calls {}
    have hclosed : (program.calls limit calls {}).2.depth = 0 := hlater.frame.2.1
    have hopen := Nat.le_trans (Nat.le_of_eq hclosed) (Nat.zero_le limit)
    exact ⟨fun value answered => hlater.capped answered,
      fun query inner inside => inside.nests_succ hlater.measured hopen,
      nests_iff_membersBelow hlater.measured hopen⟩
  · exact ((lowerAll_visited program limit {}).1.emits value hvalue).capped
  · exact ((lowerAll_visited program limit {}).2 constant hconstant).capped

/-- A program whose one constant is an array of a member. -/
def memberInArray : Program :=
  ({} : Program).declareEnum ((EnumDecl.called "Status" .string).withName "Active")
    |>.declareConst (.called "statuses" (.array [.member "Status" "Active"]))

/-- With one level allowed, a text in an array is dropped, but a member is not, and the
array nests two levels deep. -/
theorem memberInArray_above_limit :
    (memberInArray.call 1 (.literal (.array [.string "Active"])) {}).1.map Value.depth =
        some 1 ∧
      (memberInArray.call 1 (.literal (.array [.member "Status" "Active"])) {}).1.map
        Value.depth = some 2 ∧
      (memberInArray.lower 1).schema.constants.map (·.value.depth) = [2] := by
  decide +kernel

end Program

end SchemaIR
