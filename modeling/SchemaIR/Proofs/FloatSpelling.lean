import Mathlib
import SchemaIR.Proofs.JsonText

/-!
# The texts of floats are numbers

Whatever digits the shortest decimal of a float has, they are arranged in one of the ways in
which JSON spells numbers. What could go wrong is a superfluous zero in front, and none is
there because the decimal is not zero: a float that is not zero has an interval of reals
around it to which zero does not belong.

That the number which is read is the one that was written is not shown here.
-/

namespace SchemaIR

/-! ## The shortest decimal -/

namespace Number

theorem Interval.low_le_of_holds {i : Interval} {n : Nat} (h : i.holds n = true) :
    i.low ≤ n * i.denominator := by
  unfold Interval.holds at h
  split at h <;> simp at h <;> omega

theorem Interval.holds_of_nearest? {i : Interval} {n : Nat} (h : i.nearest? = some n) :
    i.holds n = true := by
  simp only [Interval.nearest?] at h
  split at h
  · next hbelow habove =>
      split at h
      · cases h
        exact hbelow
      · split at h
        · cases h
          exact habove
        · split at h <;> cases h
          · exact hbelow
          · exact habove
  · next hbelow _ =>
      cases h
      exact hbelow
  · next habove =>
      cases h
      exact habove
  · cases h

/-- Zero does not round to a float that is not zero. -/
theorem Binary.low_pos {b : Binary} (h : b.significand ≠ 0) (place : Int) :
    0 < (b.interval place).low := by
  have hscale : 0 < Nat.pow 2 (b.exponent - 2).toNat * Nat.pow 10 (-place).toNat :=
    Nat.mul_pos (Nat.pow_pos (by decide)) (Nat.pow_pos (by decide))
  refine Nat.mul_pos ?_ hscale
  split <;> omega

/-- Digits that are all zeros spell zero, so one of the others stays. -/
theorem Decimal.strip_coefficient_ne_zero {d : Decimal} (h : d.coefficient ≠ 0) :
    d.strip.coefficient ≠ 0 := by
  let digits := Nat.toDigits 10 d.coefficient
  let zeros := digits.reverse.takeWhile (· = '0')
  have hfewer : zeros.length < digits.length := by
    refine Nat.lt_of_le_of_ne ?_ fun hall => ?_
    · rw [← digits.length_reverse]
      exact (List.takeWhile_prefix _).length_le
    · have hreverse : zeros = digits.reverse :=
        (List.takeWhile_prefix _).eq_of_length (hall.trans digits.length_reverse.symm)
      have hzero : ∀ c ∈ digits, c = '0' := by
        intro c hc
        have hmem : c ∈ zeros := hreverse ▸ List.mem_reverse.mpr hc
        simpa using List.mem_takeWhile_imp hmem
      cases hdigits : digits with
      | nil => exact Nat.toDigits_ne_nil hdigits
      | cons c rest =>
          have hc := hzero c (hdigits ▸ List.mem_cons_self)
          have hhead : digits.head? = some '0' := by rw [hdigits, hc, List.head?_cons]
          exact Json.head?_toDigits (Nat.pos_of_ne_zero h) hhead
  have hbound : Nat.pow 10 zeros.length ≤ d.coefficient := by
    cases hzeros : zeros.length with
    | zero => exact Nat.pos_of_ne_zero h
    | succ n =>
        by_contra hsmall
        have hlength : digits.length ≤ n + 1 :=
          Nat.toDigits_length 10 d.coefficient (n + 1) (Nat.succ_pos n) (Nat.lt_of_not_le hsmall)
        omega
  exact Nat.ne_of_gt (Nat.div_pos hbound (Nat.pow_pos (by decide)))

theorem Binary.shortest_coefficient_ne_zero {b : Binary} (h : b.significand ≠ 0) :
    b.shortest.coefficient ≠ 0 := by
  unfold Binary.shortest
  simp only
  generalize hfound : List.findSome? _ _ = candidate?
  cases candidate? with
  | none => exact h
  | some candidate =>
      obtain ⟨extra, _, hcandidate⟩ := List.exists_of_findSome?_eq_some hfound
      obtain ⟨n, hn, rfl⟩ := Option.map_eq_some_iff.mp hcandidate
      refine Decimal.strip_coefficient_ne_zero ?_
      -- The interval that is searched ends above zero.
      rintro rfl
      have hlow := Interval.low_le_of_holds (Interval.holds_of_nearest? hn)
      have hpos := Binary.low_pos h (b.leadingPlace - extra)
      omega

end Number

/-! ## Spellings -/

namespace Json

/-- A text spells a number that is not an integer, without a sign. -/
def Spells (cs : List Char) : Prop :=
  ∃ whole afterWhole fraction afterFraction exponent,
    readDigits cs = some (whole, afterWhole) ∧
    ¬ (whole.head? = some '0' && whole.length > 1) ∧
    readFraction afterWhole = some (fraction, afterFraction) ∧
    readExponent afterFraction = some (exponent, []) ∧
    (fraction.isSome || exponent.isSome) = true

/-- Digits, a point and more digits. -/
theorem spells_point {whole fraction : List Char} (hwhole : Digits whole)
    (plain : ¬ (whole.head? = some '0' && whole.length > 1)) (hfraction : Digits fraction) :
    Spells (whole ++ '.' :: fraction) := by
  have hread : readDigits fraction = some (fraction, []) :=
    readDigits_eq_some_iff.mpr ⟨hfraction, .nil, (List.append_nil _).symm⟩
  refine ⟨whole, '.' :: fraction, some fraction, [], none, readDigits_digits hwhole ?_, plain, ?_,
    rfl, rfl⟩
  · rintro c ⟨⟩
    decide
  · simp only [readFraction, hread]
    rfl

theorem positional_spells {digits : List Char} (h : Digits digits)
    (plain : digits.head? ≠ some '0') (lead : Int) : Spells (Number.positional digits lead) := by
  have hzeros (n : Nat) : ∀ c ∈ List.replicate n '0', Number.isDigit c = true := by
    intro c hc
    rw [List.eq_of_mem_replicate hc]
    decide
  have hzero : Digits ['0'] := ⟨List.cons_ne_nil _ _, hzeros 1⟩
  simp only [Number.positional]
  split
  · have hfraction : Digits (List.replicate (lead.natAbs - 1) '0' ++ digits) := by
      refine ⟨by simp [h.1], fun c hc => ?_⟩
      rcases List.mem_append.mp hc with hc | hc
      · exact hzeros _ c hc
      · exact h.2 c hc
    exact spells_point hzero (by decide) hfraction
  · split
    · have hwhole : Digits (digits ++ List.replicate (lead.natAbs + 1 - digits.length) '0') := by
        refine ⟨by simp [h.1], fun c hc => ?_⟩
        rcases List.mem_append.mp hc with hc | hc
        · exact h.2 c hc
        · exact hzeros _ c hc
      refine spells_point hwhole ?_ hzero
      rw [List.head?_append_of_ne_nil _ h.1]
      simp [plain]
    · next hlong =>
        obtain ⟨c, rest, rfl⟩ := List.exists_cons_of_ne_nil h.1
        have hlength : lead.natAbs < rest.length := by simpa using hlong
        refine spells_point ⟨by simp, fun d hd => h.2 d (List.mem_of_mem_take hd)⟩ ?_ ⟨?_, ?_⟩
        · simpa using fun hc => absurd hc (by simpa using plain)
        · simpa using hlength
        · exact fun d hd => h.2 d (List.mem_of_mem_drop hd)

theorem readExponent_signed (lead : Int) :
    ∃ exponent, readExponent ('e' :: (if lead < 0 then '-' else '+') ::
      Nat.toDigits 10 lead.natAbs) = some (some exponent, []) := by
  have hread := readDigits_toDigits lead.natAbs
  have hsigned (negative : Bool) :
      ((readDigits (Nat.toDigits 10 lead.natAbs)).map fun read =>
        (some (negative, read.1), read.2)) =
          some (some (negative, Nat.toDigits 10 lead.natAbs), []) := by
    rw [hread]
    rfl
  split
  · exact ⟨_, hsigned true⟩
  · exact ⟨_, hsigned false⟩

theorem scientific_spells {digits : List Char} (h : Digits digits)
    (plain : digits.head? ≠ some '0') (lead : Int) : Spells (Number.scientific digits lead) := by
  obtain ⟨exponent, hexponent⟩ := readExponent_signed lead
  let power := 'e' :: (if lead < 0 then '-' else '+') :: Nat.toDigits 10 lead.natAbs
  have hstops : Stops power := by
    rintro c ⟨⟩
    decide
  -- A single digit is written without a point.
  match digits with
  | [] => exact absurd rfl h.1
  | [d] =>
      exact ⟨[d], power, none, power, some exponent, readDigits_digits h hstops, by simp,
        readFraction_of_ne (by decide), hexponent, rfl⟩
  | d :: next :: rest =>
      have hfirst : Digits [d] := ⟨List.cons_ne_nil _ _, by simpa using h.2 d List.mem_cons_self⟩
      have hothers : Digits (next :: rest) :=
        ⟨List.cons_ne_nil _ _, fun c hc => h.2 c (List.mem_cons_of_mem _ hc)⟩
      have hwhole : readDigits ([d] ++ '.' :: (next :: rest ++ power)) =
          some ([d], '.' :: (next :: rest ++ power)) :=
        readDigits_digits hfirst (by rintro c ⟨⟩; decide)
      have hfraction : readFraction ('.' :: (next :: rest ++ power)) =
          some (some (next :: rest), power) := by
        rw [readFraction, readDigits_digits hothers hstops]
        rfl
      exact ⟨[d], _, some (next :: rest), power, some exponent, hwhole, by simp, hfraction,
        hexponent, rfl⟩

theorem write_spells (format : Number.FloatFormat) {d : Number.Decimal} (h : d.coefficient ≠ 0) :
    Spells (format.write d) := by
  have hdigits := digits_toDigits d.coefficient
  have hplain := head?_toDigits (Nat.pos_of_ne_zero h)
  simp only [Number.FloatFormat.write]
  split
  · exact positional_spells hdigits hplain _
  · exact scientific_spells hdigits hplain _

/-- A number with a point or an exponent is read as a float, unless it is too large. -/
theorem NumberText.node_of_spelled {number : NumberText}
    (h : (number.fraction.isSome || number.exponent.isSome) = true) :
    number.node = .unreadable ∨ ∃ x, number.node = .float x := by
  obtain ⟨negative, whole, fraction, exponent⟩ := number
  cases exponent with
  | none =>
      cases fraction with
      | none => cases h
      | some digits =>
          simp only [NumberText.node]
          split <;> simp
  | some power =>
      simp only [NumberText.node]
      split
      · split <;> simp
      · split
        · exact .inl rfl
        · split <;> simp

theorem spells_floatText (x : Float) :
    Spells (Number.floatText x) ∨ ∃ cs, Number.floatText x = '-' :: cs ∧ Spells cs := by
  let b := Number.Binary.ofFloat x
  have hbody : Spells (if b.significand = 0 then ['0', '.', '0'] else
      Number.documentFloats.write b.shortest) := by
    split
    · exact ⟨['0'], ['.', '0'], some ['0'], [], none, rfl, by decide, rfl, rfl, rfl⟩
    · next hsome => exact write_spells _ (Number.Binary.shortest_coefficient_ne_zero hsome)
  simp only [Number.floatText]
  split
  · exact .inl hbody
  · exact .inr ⟨_, rfl, hbody⟩

/-- The text of a float is read as a number to its end. -/
theorem readNumber_floatText (x : Float) :
    ∃ node, readNumber (Number.floatText x) = some (node, []) ∧
      (node = .unreadable ∨ ∃ y, node = .float y) := by
  rcases spells_floatText x with hspells | ⟨cs, htext, hspells⟩
  · obtain ⟨whole, afterWhole, fraction, afterFraction, exponent, hwhole, hplain, hfraction,
      hexponent, hspelled⟩ := hspells
    have hunsigned : readMinus (Number.floatText x) = (false, Number.floatText x) := by
      obtain ⟨c, rest, hcons⟩ := List.exists_cons_of_ne_nil (readDigits_ne_nil hwhole)
      rw [hcons] at hwhole ⊢
      refine readMinus_of_ne ?_
      rintro rfl
      cases hwhole
    refine ⟨_, readNumber_eq_some_iff.mpr ⟨whole, afterWhole, fraction, afterFraction, exponent, ?_,
      hplain, hfraction, hexponent, rfl⟩, NumberText.node_of_spelled hspelled⟩
    rw [hunsigned]
    exact hwhole
  · obtain ⟨whole, afterWhole, fraction, afterFraction, exponent, hwhole, hplain, hfraction,
      hexponent, hspelled⟩ := hspells
    rw [htext]
    exact ⟨_, readNumber_eq_some_iff.mpr ⟨whole, afterWhole, fraction, afterFraction, exponent,
      hwhole, hplain, hfraction, hexponent, rfl⟩, NumberText.node_of_spelled hspelled⟩

end Json

end SchemaIR
