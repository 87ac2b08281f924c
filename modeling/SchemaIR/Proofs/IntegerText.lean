import Mathlib
import SchemaIR.Proofs.MemberReferences

/-!
# Integer texts

An integer is read digit by digit, and after each digit the number so far has to be in range.
Digits only ever take a number further from zero, so a number that leaves the range on the way
does not come back to it, and the check after the last digit is all that counts. Numbers below
zero are counted down instead of up, since the least one has no counterpart above zero; that is
counting up in the range turned round.

So a text is read if and only if it is an optional sign and digits, and the number they stand for
is in range. Leading zeros change neither.
-/

namespace SchemaIR

namespace Number

/-! ## What a text stands for -/

/-- The number that digits stand for in decimal. -/
def decimal (digits : List Char) : Nat :=
  Nat.ofDigits 10 (digits.reverse.map fun c => c.toNat - '0'.toNat)

/-- One or more digits and nothing else. -/
def Numeral (digits : List Char) : Prop := digits ≠ [] ∧ ∀ c ∈ digits, c.isDigit = true

/-- The text is a numeral with an optional sign in front, and `n` is what it stands for. -/
def Denotes (text : List Char) (n : Int) : Prop :=
  ∃ digits, Numeral digits ∧
    ((text = digits ∨ text = '+' :: digits) ∧ n = decimal digits ∨
      text = '-' :: digits ∧ n = -decimal digits)

theorem decimal_cons (c : Char) (rest : List Char) :
    decimal (c :: rest) = (c.toNat - '0'.toNat) * 10 ^ rest.length + decimal rest := by
  simp only [decimal, List.reverse_cons, List.map_append, List.map_singleton, Nat.ofDigits_append,
    Nat.ofDigits_singleton, List.length_map, List.length_reverse]
  ring

theorem decimal_eq_ofDigitChars (digits : List Char) :
    decimal digits = Nat.ofDigitChars 10 digits 0 := by
  induction digits with
  | nil => rfl
  | cons c rest ih =>
      have hshift := @Nat.ofDigitChars_eq_ofDigitChars_zero rest (c.toNat - '0'.toNat)
      rw [decimal_cons, ih, Nat.ofDigitChars_cons, Nat.mul_zero, Nat.zero_add, hshift, Nat.mul_comm]

theorem decimal_toDigits (n : Nat) : decimal (Nat.toDigits 10 n) = n := by
  rw [decimal_eq_ofDigitChars, Nat.ofDigitChars_toDigits (by decide) (by decide)]

theorem numeral_toDigits (n : Nat) : Numeral (Nat.toDigits 10 n) :=
  ⟨Nat.toDigits_ne_nil, fun _ hc => Nat.isDigit_of_mem_toDigits (by decide) (by decide) hc⟩

/-- The text of a number stands for it. -/
theorem denotes_toString (n : Int) : Denotes (toString n).toList n := by
  rw [Int.toString_eq_repr]
  cases n with
  | ofNat m =>
      refine ⟨Nat.toDigits 10 m, numeral_toDigits m, .inl ⟨.inl Nat.toList_repr, ?_⟩⟩
      rw [decimal_toDigits]
      rfl
  | negSucc m =>
      refine ⟨Nat.toDigits 10 (m + 1), numeral_toDigits (m + 1), .inr ⟨?_, ?_⟩⟩
      · simp [Int.repr, String.toList_append, Nat.toList_repr]
      · rw [decimal_toDigits]
        rfl

section Signs

variable {digits : List Char} {n : Int}

theorem not_numeral_cons {c : Char} (h : c.isDigit = false) : ¬ Numeral (c :: digits) := by
  intro hnumeral
  have hc := hnumeral.2 c List.mem_cons_self
  rw [h] at hc
  cases hc

theorem denotes_plus :
    Denotes ('+' :: digits) n ↔ Numeral digits ∧ n = decimal digits := by
  constructor
  · rintro ⟨others, hnumeral, ⟨rfl | h, hn⟩ | ⟨h, -⟩⟩
    · exact absurd hnumeral (not_numeral_cons (by decide))
    · cases h
      exact ⟨hnumeral, hn⟩
    · cases h
  · rintro ⟨hnumeral, hn⟩
    exact ⟨digits, hnumeral, .inl ⟨.inr rfl, hn⟩⟩

theorem denotes_minus :
    Denotes ('-' :: digits) n ↔ Numeral digits ∧ n = -decimal digits := by
  constructor
  · rintro ⟨others, hnumeral, ⟨rfl | h, -⟩ | ⟨h, hn⟩⟩
    · exact absurd hnumeral (not_numeral_cons (by decide))
    · cases h
    · cases h
      exact ⟨hnumeral, hn⟩
  · rintro ⟨hnumeral, hn⟩
    exact ⟨digits, hnumeral, .inr ⟨rfl, hn⟩⟩

theorem denotes_unsigned (plus : ∀ rest, digits ≠ '+' :: rest)
    (minus : ∀ rest, digits ≠ '-' :: rest) :
    Denotes digits n ↔ Numeral digits ∧ n = decimal digits := by
  constructor
  · rintro ⟨others, hnumeral, ⟨rfl | h, hn⟩ | ⟨h, -⟩⟩
    · exact ⟨hnumeral, hn⟩
    · exact absurd h (plus others)
    · exact absurd h (minus others)
  · rintro ⟨hnumeral, hn⟩
    exact ⟨digits, hnumeral, .inl ⟨.inl rfl, hn⟩⟩

end Signs

/-! ## Reading digits -/

theorem digit?_eq (c : Char) :
    digit? c = if c.isDigit = true then some (c.toNat - '0'.toNat) else none := by
  have hrange : c.isDigit = true ↔ '0' ≤ c ∧ c ≤ '9' := by
    simp only [Char.isDigit, Bool.and_eq_true, decide_eq_true_eq]
    rfl
  simp only [digit?, hrange]

variable {range : IntegerRange}

/-- The step from a number to the number with one more digit, seen from the last digit. -/
theorem decimal_step (acc : Int) (c : Char) (rest : List Char) :
    acc * 10 ^ (c :: rest).length + decimal (c :: rest) =
      (acc * 10 + (c.toNat - '0'.toNat : Nat)) * 10 ^ rest.length + decimal rest := by
  rw [decimal_cons, List.length_cons]
  push_cast
  ring

/-- Digits are read if they are digits, and if the number is in range after the last of them. -/
theorem appendDigits_eq_ok_iff {digits : List Char} {acc n : Int} (positive : 0 ≤ acc)
    (fits : acc ≤ range.greatest) :
    appendDigits range acc digits = .ok n ↔
      (∀ c ∈ digits, c.isDigit = true) ∧ n = acc * 10 ^ digits.length + decimal digits ∧
        n ≤ range.greatest := by
  induction digits generalizing acc with
  | nil =>
      simp only [appendDigits, Except.ok.injEq, decimal, List.reverse_nil, List.map_nil,
        Nat.ofDigits_nil, List.length_nil, pow_zero, mul_one, Nat.cast_zero, add_zero]
      constructor
      · rintro rfl
        exact ⟨List.forall_mem_nil _, rfl, fits⟩
      · rintro ⟨-, rfl, -⟩
        rfl
  | cons c rest ih =>
      rw [appendDigits, digit?_eq, decimal_step, List.forall_mem_cons]
      by_cases hc : c.isDigit = true
      · simp only [hc, if_true, true_and]
        generalize hnext : acc * 10 + ((c.toNat - '0'.toNat : Nat) : Int) = next
        have hpositive : 0 ≤ next := by omega
        split
        · next hfits => exact ih hpositive hfits
        · -- Further digits only make the number larger.
          next hlarge =>
            have hpower : (1 : Int) ≤ 10 ^ rest.length := one_le_pow₀ (by decide)
            have hgrows : next ≤ next * 10 ^ rest.length := le_mul_of_one_le_right hpositive hpower
            constructor
            · intro h
              cases h
            · rintro ⟨-, hn, hle⟩
              omega
      · simp [hc]

/-- The range turned round at zero. -/
def IntegerRange.mirror (range : IntegerRange) : IntegerRange := ⟨-range.greatest, -range.least⟩

/-- Counting down is counting up in the range turned round. -/
theorem appendNegativeDigits_eq_ok_iff {digits : List Char} {acc n : Int} :
    appendNegativeDigits range acc digits = .ok n ↔
      appendDigits range.mirror (-acc) digits = .ok (-n) := by
  induction digits generalizing acc with
  | nil => simp [appendNegativeDigits, appendDigits]
  | cons c rest ih =>
      rw [appendNegativeDigits, appendDigits]
      cases digit? c with
      | none => simp
      | some d =>
          have hnext : -(acc * 10 - (d : Int)) = -acc * 10 + d := by ring
          have hfits : range.least ≤ acc * 10 - d ↔ -acc * 10 + d ≤ range.mirror.greatest := by
            show _ ↔ -acc * 10 + d ≤ -range.least
            omega
          by_cases h : range.least ≤ acc * 10 - d
          · simp only [if_pos h, if_pos (hfits.mp h)]
            rw [ih, hnext]
          · simp only [if_neg h, if_neg (hfits.not.mp h)]
            simp

/-! ## Reading texts -/

theorem appendDigits_zero {digits : List Char} {n : Int} (nonempty : digits ≠ [])
    (room : 0 ≤ range.greatest) :
    appendDigits range 0 digits = .ok n ↔
      (Numeral digits ∧ n = decimal digits) ∧ n ≤ range.greatest := by
  rw [appendDigits_eq_ok_iff (Int.le_refl 0) room, zero_mul, zero_add, Numeral]
  tauto

theorem appendNegativeDigits_zero {digits : List Char} {n : Int} (nonempty : digits ≠ [])
    (room : range.least ≤ 0) :
    appendNegativeDigits range 0 digits = .ok n ↔
      (Numeral digits ∧ n = -decimal digits) ∧ range.least ≤ n := by
  have hroom : 0 ≤ range.mirror.greatest := Int.neg_nonneg_of_nonpos room
  rw [appendNegativeDigits_eq_ok_iff, neg_zero, appendDigits_zero nonempty hroom,
    IntegerRange.mirror, neg_le_neg_iff, neg_eq_iff_eq_neg]

/-- A text is read in a range around zero if it stands for a number in the range. -/
theorem readInteger_eq_ok_iff {text : List Char} {n : Int} (negative : range.least < 0)
    (positive : 0 ≤ range.greatest) :
    readInteger range text = .ok n ↔ Denotes text n ∧ range.least ≤ n ∧ n ≤ range.greatest := by
  fun_cases readInteger range text with
  | case1 =>
      rw [denotes_unsigned (by simp) (by simp)]
      simp [Numeral]
  | case2 => simp [denotes_plus, Numeral]
  | case3 => simp [denotes_minus, Numeral]
  | case4 digits nonempty =>
      rw [denotes_plus, appendDigits_zero nonempty positive, and_congr_right_iff]
      rintro ⟨-, rfl⟩
      omega
  | case5 digits nonempty =>
      rw [denotes_minus, appendNegativeDigits_zero nonempty negative.le, and_congr_right_iff]
      rintro ⟨-, rfl⟩
      omega
  | case6 digits nonempty unsigned => exact absurd negative unsigned
  | case7 _ nonempty _ _ plus minus =>
      rw [denotes_unsigned plus minus, appendDigits_zero nonempty positive, and_congr_right_iff]
      rintro ⟨-, rfl⟩
      omega

theorem readInt64_eq_ok_iff {text : String} {n : Int} :
    (∃ m, readInt64 text = .ok m ∧ m.toInt = n) ↔
      Denotes text.toList n ∧ -2 ^ 63 ≤ n ∧ n ≤ 2 ^ 63 - 1 := by
  have hread : ∀ n, readInteger signed64 text.toList = .ok n ↔
      Denotes text.toList n ∧ -2 ^ 63 ≤ n ∧ n ≤ 2 ^ 63 - 1 :=
    fun n => readInteger_eq_ok_iff (by decide) (by decide)
  rw [← hread]
  unfold readInt64
  cases hinteger : readInteger signed64 text.toList with
  | error fault => simp
  | ok k =>
      obtain ⟨-, hleast, hgreatest⟩ := (hread k).mp hinteger
      have hk : (Int64.ofInt k).toInt = k := Int64.toInt_ofInt_of_le hleast (by omega)
      simp [hk]

/-- The text of a 64-bit integer is read as that integer. -/
theorem readInt64_toString (n : Int64) : readInt64 (toString n.toInt) = .ok n := by
  have hleast := n.le_toInt
  have hgreatest := n.toInt_lt
  obtain ⟨m, hread, hm⟩ := readInt64_eq_ok_iff.mpr
    ⟨denotes_toString n.toInt, hleast, by omega⟩
  rw [hread, Int64.toInt_inj.mp hm]

end Number

open Number

/-! ## Integer literals and members -/

theorem Literal.evaluate_int {scope : Scope} {st : Resolver} (room : st.depth < scope.limit)
    (raw : String) :
    ((Literal.int raw).evaluate scope st).1 = (readInt64 raw).toOption.map .int := by
  rw [Literal.evaluate, Resolver.within, if_neg (Nat.not_le.mpr room)]
  unfold evaluateInt
  cases readInt64 raw <;> rfl

namespace Program

/-- Where a level is left, an integer literal has a value if and only if its text is an optional
sign and digits that stand for a signed 64-bit number, and then it has that number. The member of
an integer enumeration that has the same text has the same value, in every state. The literal of a
64-bit integer has that integer. -/
theorem int_text_read_exactly (program : Program) (limit : Nat) (raw : String) (st : Resolver)
    (room : st.depth < limit) :
    (∀ n : Int,
      (∃ m, (program.resolveLiteral limit (.int raw) st).1 = some (.int m) ∧ m.toInt = n) ↔
        Denotes raw.toList n ∧ -2 ^ 63 ≤ n ∧ n ≤ 2 ^ 63 - 1) ∧
      ((program.resolveLiteral limit (.int raw) st).1 = none ↔
        ¬ ∃ n : Int, Denotes raw.toList n ∧ -2 ^ 63 ≤ n ∧ n ≤ 2 ^ 63 - 1) ∧
      (∀ key decl name member, program.enums.find? key = some decl → decl.valueType = .int →
        (program.enumMembers limit decl).1.find? (·.name = name) = some member →
        member.value = raw → ∀ other : Resolver,
          (program.resolveLiteral limit (.member key name) other).1 =
            (program.resolveLiteral limit (.int raw) st).1) ∧
      ∀ n : Int64, (program.resolveLiteral limit (.ofInt n) st).1 = some (.int n) := by
  have hvalue : ∀ text, (program.resolveLiteral limit (.int text) st).1 =
      (readInt64 text).toOption.map .int := Literal.evaluate_int room
  refine ⟨fun n => ?_, ?_, ?_, fun n => ?_⟩
  · rw [← readInt64_eq_ok_iff, hvalue]
    cases readInt64 raw <;> simp [Except.toOption]
  · simp only [← readInt64_eq_ok_iff, hvalue]
    cases readInt64 raw <;> simp [Except.toOption]
  · rintro key decl name member found kind first rfl other
    rw [hvalue]
    show (program.resolveLiteral limit (.reference { name := key, member := name }) other).1 = _
    rw [resolve_member found name other, first, kind]
    rfl
  · rw [Literal.ofInt, hvalue, readInt64_toString]
    rfl

/-- An enumeration whose one member is the least number, with zeros in front. -/
def extremes : Program :=
  ({} : Program).declareEnum
    ((EnumDecl.called "Bound" .int).withMember "least" "-009223372036854775808")

theorem int_text_read_exactly_extremes :
    ({} : Resolver).depth < 1 ∧ Denotes "-009223372036854775808".toList (-2 ^ 63) ∧
      (extremes.resolveLiteral 1 (.int "-009223372036854775808") {}).1 =
        some (.int Int64.minValue) ∧
      (extremes.resolveLiteral 1 (.member "Bound" "least") {}).1 = some (.int Int64.minValue) ∧
      (extremes.resolveLiteral 1 (.ofInt Int64.maxValue) {}).1 = some (.int Int64.maxValue) := by
  obtain ⟨hexact, -, hmember, hown⟩ :=
    int_text_read_exactly extremes 1 "-009223372036854775808" {} Nat.one_pos
  have hdenotes : Denotes "-009223372036854775808".toList (-2 ^ 63) :=
    ⟨"009223372036854775808".toList, ⟨List.cons_ne_nil _ _, List.all_eq_true.mp rfl⟩,
      .inr ⟨rfl, by decide +kernel⟩⟩
  obtain ⟨m, hm, hvalue⟩ := (hexact (-2 ^ 63)).mpr ⟨hdenotes, by decide, by decide⟩
  have hleast : m = Int64.minValue := Int64.toInt_inj.mp hvalue
  rw [hleast] at hm
  refine ⟨Nat.one_pos, hdenotes, hm, ?_, hown Int64.maxValue⟩
  exact (hmember "Bound" _ "least" _ rfl rfl rfl rfl {}).trans hm

end Program

end SchemaIR
