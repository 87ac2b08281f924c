import Mathlib
import SchemaIR.Json.Parser
import SchemaIR.Json.Printer

/-!
# JSON texts are read as what they were written for

Strings are read character by character: each escape is one piece for the reader, and the
pieces put together are the text again. Numbers are read up to the first character that
cannot belong to them, so a number is read the same in front of a comma or a bracket as it
is alone. Containers then follow the text in the two layouts, which differ only in white
space that the reader skips.
-/

namespace SchemaIR.Json

/-! ## Strings -/

theorem hex4?_control : ∀ code < 0x20,
    hex4? '0' '0' (hexDigit (code / 16)) (hexDigit (code % 16)) = some code := by
  decide

/-- An escaped character is read as one piece, and the piece stands for the character. -/
theorem exists_piece (c : Char) : ∃ piece,
    (∀ sofar cs, readPieces sofar (escape c ++ cs) = readPieces (piece :: sofar) cs) ∧
      ∀ sofar rest, joinPieces sofar (piece :: rest) = joinPieces (c :: sofar) rest := by
  by_cases special : c ∈ ['"', '\\', '\x08', '\t', '\n', '\x0c', '\r']
  · simp only [List.mem_cons, List.not_mem_nil, or_false] at special
    rcases special with rfl | rfl | rfl | rfl | rfl | rfl | rfl <;>
      exact ⟨.char _, fun _ _ => rfl, fun _ _ => rfl⟩
  · simp only [List.mem_cons, List.not_mem_nil, or_false, not_or] at special
    obtain ⟨hquote, hslash, hb, ht, hn, hf, hr⟩ := special
    by_cases control : c.toNat < 0x20
    · refine ⟨.unit c.toNat, fun sofar cs => ?_, fun sofar rest => ?_⟩
      · simp only [escape, hquote, hslash, hb, ht, hn, hf, hr, control, if_true, if_false,
          List.cons_append, List.nil_append]
        rw [readPieces, hex4?_control c.toNat control]
      · have hlow : ¬ (0xDC00 ≤ c.toNat ∧ c.toNat < 0xE000) := by omega
        have hhigh : ¬ (0xD800 ≤ c.toNat ∧ c.toNat < 0xDC00) := by omega
        rw [joinPieces.eq_def]
        simp only [if_neg hlow, if_neg hhigh, Char.ofNat_toNat]
    · refine ⟨.char c, fun sofar cs => ?_, fun sofar rest => rfl⟩
      simp only [escape, hquote, hslash, hb, ht, hn, hf, hr, control, if_false,
        List.cons_append, List.nil_append]
      rw [readPieces]
      · exact if_neg control
      · exact hquote
      · exact fun _ _ _ _ _ hc _ => hslash hc
      · exact fun _ _ hc _ => hslash hc

theorem readPieces_escaped (text : List Char) (sofar : List Piece) (rest : List Char) :
    ∃ pieces, readPieces sofar (text.flatMap escape ++ '"' :: rest) =
        some (sofar.reverse ++ pieces, rest) ∧
      ∀ before, joinPieces before pieces = some (before.reverse ++ text) := by
  induction text generalizing sofar with
  | nil => exact ⟨[], by rw [List.append_nil]; rfl, fun before => by rw [List.append_nil]; rfl⟩
  | cons c text ih =>
      obtain ⟨piece, hread, hjoin⟩ := exists_piece c
      obtain ⟨pieces, hpieces, htext⟩ := ih (piece :: sofar)
      refine ⟨piece :: pieces, ?_, fun before => ?_⟩
      · rw [List.flatMap_cons, List.append_assoc, hread, hpieces, List.reverse_cons,
          List.append_assoc, List.singleton_append]
      · rw [hjoin, htext, List.reverse_cons, List.append_assoc, List.singleton_append]

theorem readString_quoted (text : String) (rest : List Char) :
    readString (text.toList.flatMap escape ++ '"' :: rest) = some (.string text, rest) := by
  obtain ⟨pieces, hpieces, htext⟩ := readPieces_escaped text.toList [] rest
  have hjoined : joinPieces [] pieces = some text.toList := htext []
  simp only [readString, hpieces, List.reverse_nil, List.nil_append, hjoined, String.ofList_toList]

/-! ## Numbers -/

/-- Some digits and nothing else. -/
def Digits (cs : List Char) : Prop := cs ≠ [] ∧ ∀ c ∈ cs, Number.isDigit c = true

/-- What stands behind some digits does not go on with them. -/
def Stops (rest : List Char) : Prop := ∀ c ∈ rest.head?, Number.isDigit c = false

/-- What stands behind a number does not go on with it. -/
def Ends (rest : List Char) : Prop :=
  ∀ c ∈ rest.head?, Number.isDigit c = false ∧ c ≠ '.' ∧ c ≠ 'e' ∧ c ≠ 'E'

variable {cs rest more digits : List Char}

theorem Stops.nil : Stops [] := fun _ h => nomatch h

theorem Ends.nil : Ends [] := fun _ h => nomatch h

theorem Ends.stops (ends : Ends rest) : Stops rest := fun c hc => (ends c hc).1

theorem readDigits_digits (h : Digits digits) (stops : Stops rest) :
    readDigits (digits ++ rest) = some (digits, rest) := by
  have htake : (digits ++ rest).takeWhile Number.isDigit = digits := by
    rw [List.takeWhile_append_of_pos h.2]
    cases rest with
    | nil => exact List.append_nil _
    | cons c rest => rw [List.takeWhile_cons_of_neg (by simp [stops c rfl]), List.append_nil]
  have hdrop : (digits ++ rest).dropWhile Number.isDigit = rest := by
    rw [List.dropWhile_append_of_pos h.2]
    cases rest with
    | nil => rfl
    | cons c rest => exact List.dropWhile_cons_of_neg (by simp [stops c rfl])
  simp only [readDigits, htake, hdrop]
  exact if_neg (by simpa using h.1)

/-- Digits are read up to where there are none. -/
theorem readDigits_eq_some_iff :
    readDigits cs = some (digits, more) ↔ Digits digits ∧ Stops more ∧ cs = digits ++ more := by
  constructor
  · intro h
    simp only [readDigits] at h
    split at h
    · cases h
    · next hsome =>
        cases h
        refine ⟨⟨by simpa using hsome, fun c hc => List.mem_takeWhile_imp hc⟩, fun c hc => ?_,
          List.takeWhile_append_dropWhile.symm⟩
        simpa [Option.mem_def.mp hc] using List.head?_dropWhile_not Number.isDigit cs
  · rintro ⟨hdigits, hstops, rfl⟩
    exact readDigits_digits hdigits hstops

theorem readDigits_append (h : readDigits cs = some (digits, more)) (stops : Stops rest) :
    readDigits (cs ++ rest) = some (digits, more ++ rest) := by
  obtain ⟨hdigits, hstops, rfl⟩ := readDigits_eq_some_iff.mp h
  refine readDigits_eq_some_iff.mpr ⟨hdigits, ?_, List.append_assoc _ _ _⟩
  cases more with
  | nil => exact stops
  | cons c more => exact hstops

theorem readDigits_ne_nil (h : readDigits cs = some (digits, more)) :
    cs ≠ [] := by
  rintro rfl
  cases h

theorem readMinus_of_ne {c : Char} (h : c ≠ '-') : readMinus (c :: cs) = (false, c :: cs) := by
  rw [readMinus]
  exact fun _ heq => h (List.cons.inj heq).1

theorem readMinus_append (nonempty : cs ≠ []) :
    readMinus (cs ++ rest) = ((readMinus cs).1, (readMinus cs).2 ++ rest) := by
  cases cs with
  | nil => exact absurd rfl nonempty
  | cons c cs =>
      by_cases minus : c = '-'
      · subst minus
        rfl
      · rw [List.cons_append, readMinus_of_ne minus, readMinus_of_ne minus]
        rfl

theorem readExponentSign_append (nonempty : cs ≠ []) :
    readExponentSign (cs ++ rest) = ((readExponentSign cs).1, (readExponentSign cs).2 ++ rest) := by
  have hother {c : Char} {cs : List Char} (h : c ≠ '+') :
      readExponentSign (c :: cs) = readMinus (c :: cs) := by
    rw [readExponentSign]
    exact fun _ heq => h (List.cons.inj heq).1
  cases cs with
  | nil => exact absurd rfl nonempty
  | cons c cs =>
      by_cases plus : c = '+'
      · subst plus
        rfl
      · rw [List.cons_append, hother plus, hother plus]
        exact readMinus_append (List.cons_ne_nil c cs)

theorem readFraction_of_ne {c : Char} (h : c ≠ '.') :
    readFraction (c :: cs) = some (none, c :: cs) := by
  rw [readFraction]
  exact fun _ heq => h (List.cons.inj heq).1

theorem readFraction_append {fraction : Option (List Char)}
    (h : readFraction cs = some (fraction, more)) (ends : Ends rest) :
    readFraction (cs ++ rest) = some (fraction, more ++ rest) := by
  cases cs with
  | nil =>
      cases h
      cases rest with
      | nil => rfl
      | cons c rest => exact readFraction_of_ne (ends c rfl).2.1
  | cons c cs =>
      by_cases point : c = '.'
      · subst point
        obtain ⟨⟨digits, after⟩, hdigits, heq⟩ := Option.map_eq_some_iff.mp h
        cases heq
        exact Option.map_eq_some_iff.mpr ⟨_, readDigits_append hdigits ends.stops, rfl⟩
      · rw [readFraction_of_ne point] at h
        cases h
        exact readFraction_of_ne point

theorem readExponent_of_ne {c : Char} (h : c ≠ 'e') (h' : c ≠ 'E') :
    readExponent (c :: cs) = some (none, c :: cs) := by
  rw [readExponent]
  · exact fun _ heq => h (List.cons.inj heq).1
  · exact fun _ heq => h' (List.cons.inj heq).1

/-- What is read behind the mark of an exponent. -/
def readPower (cs : List Char) : Option (Option (Bool × List Char) × List Char) :=
  let (negative, rest) := readExponentSign cs
  (readDigits rest).map fun (digits, rest) => (some (negative, digits), rest)

theorem readPower_append {exponent : Option (Bool × List Char)}
    (h : readPower cs = some (exponent, more)) (ends : Ends rest) :
    readPower (cs ++ rest) = some (exponent, more ++ rest) := by
  obtain ⟨⟨digits, after⟩, hdigits, heq⟩ := Option.map_eq_some_iff.mp h
  cases heq
  have nonempty : cs ≠ [] := by
    rintro rfl
    exact readDigits_ne_nil hdigits rfl
  simp only [readPower, readExponentSign_append nonempty]
  exact Option.map_eq_some_iff.mpr ⟨_, readDigits_append hdigits ends.stops, rfl⟩

theorem readExponent_append {exponent : Option (Bool × List Char)}
    (h : readExponent cs = some (exponent, more)) (ends : Ends rest) :
    readExponent (cs ++ rest) = some (exponent, more ++ rest) := by
  cases cs with
  | nil =>
      cases h
      cases rest with
      | nil => rfl
      | cons c rest => exact readExponent_of_ne (ends c rfl).2.2.1 (ends c rfl).2.2.2
  | cons c cs =>
      by_cases small : c = 'e'
      · subst small
        exact readPower_append h ends
      · by_cases large : c = 'E'
        · subst large
          exact readPower_append h ends
        · rw [readExponent_of_ne small large] at h
          cases h
          exact readExponent_of_ne small large

/-- A number is read part by part, each from where the one before it ends. -/
theorem readNumber_eq_some_iff {node : Node} :
    readNumber cs = some (node, more) ↔ ∃ whole afterWhole fraction afterFraction exponent,
      readDigits (readMinus cs).2 = some (whole, afterWhole) ∧
      ¬ (whole.head? = some '0' && whole.length > 1) ∧
      readFraction afterWhole = some (fraction, afterFraction) ∧
      readExponent afterFraction = some (exponent, more) ∧
      NumberText.node ⟨(readMinus cs).1, whole, fraction, exponent⟩ = node := by
  simp only [readNumber, Option.bind_eq_bind, Option.bind_eq_some_iff, Prod.exists]
  constructor
  · rintro ⟨whole, afterWhole, hwhole, h⟩
    split at h
    · cases h
    · next hzero =>
        simp only [Option.bind_eq_some_iff, Prod.exists] at h
        obtain ⟨fraction, afterFraction, hfraction, exponent, after, hexponent, heq⟩ := h
        cases heq
        exact ⟨whole, afterWhole, fraction, afterFraction, exponent, hwhole, hzero, hfraction,
          hexponent, rfl⟩
  · rintro ⟨whole, afterWhole, fraction, afterFraction, exponent, hwhole, hzero, hfraction,
      hexponent, rfl⟩
    refine ⟨whole, afterWhole, hwhole, ?_⟩
    rw [if_neg hzero, hfraction, Option.bind_some, hexponent]
    rfl

theorem readNumber_append {node : Node} (h : readNumber cs = some (node, more))
    (ends : Ends rest) : readNumber (cs ++ rest) = some (node, more ++ rest) := by
  obtain ⟨whole, afterWhole, fraction, afterFraction, exponent, hwhole, hzero, hfraction,
    hexponent, hnode⟩ := readNumber_eq_some_iff.mp h
  have nonempty : cs ≠ [] := by
    rintro rfl
    exact readDigits_ne_nil hwhole rfl
  rw [readNumber_eq_some_iff, readMinus_append nonempty]
  exact ⟨whole, afterWhole ++ rest, fraction, afterFraction ++ rest, exponent,
    readDigits_append hwhole ends.stops, hzero, readFraction_append hfraction ends,
    readExponent_append hexponent ends, hnode⟩

/-- A number starts with a digit or with a minus sign. -/
theorem head_of_readNumber {node : Node} (h : readNumber cs = some (node, more)) :
    ∃ c tail, cs = c :: tail ∧ ∀ other, other ≠ '-' → Number.isDigit other = false → c ≠ other := by
  obtain ⟨whole, afterWhole, _, _, _, hwhole, _⟩ := readNumber_eq_some_iff.mp h
  cases cs with
  | nil => exact absurd rfl (readDigits_ne_nil hwhole)
  | cons c tail =>
      refine ⟨c, tail, rfl, ?_⟩
      rintro other hminus hdigit rfl
      rw [readMinus_of_ne hminus] at hwhole
      simp only [readDigits, List.takeWhile_cons_of_neg (Bool.not_eq_true _ ▸ hdigit)] at hwhole
      cases hwhole

/-! ### Integers -/

theorem isDigit_of_isDigit {c : Char} (h : c.isDigit = true) : Number.isDigit c = true := by
  simp only [Char.isDigit, Bool.and_eq_true, decide_eq_true_eq] at h
  have hrange : '0' ≤ c ∧ c ≤ '9' := h
  simp only [Number.isDigit, Number.digit?, if_pos hrange, Option.isSome_some]

theorem digitsValue_toDigits (n : Nat) : Number.digitsValue (Nat.toDigits 10 n) = n := by
  have hvalue : Nat.ofDigitChars 10 (Nat.toDigits 10 n) 0 = n :=
    Nat.ofDigitChars_toDigits (by decide) (by decide)
  simpa only [Number.digitsValue, Nat.ofDigitChars, Nat.mul_comm] using hvalue

theorem head?_toDigits {n : Nat} (positive : 0 < n) : (Nat.toDigits 10 n).head? ≠ some '0' := by
  induction n using Nat.strongRecOn with
  | ind n ih =>
      by_cases small : n < 10
      · rw [Nat.toDigits_of_lt_base small, List.head?_cons]
        intro hzero
        have hvalue := congrArg Char.toNat (Option.some.inj hzero)
        rw [Nat.toNat_digitChar_of_lt_ten small] at hvalue
        have : ('0' : Char).toNat = 48 := rfl
        omega
      · rw [Nat.toDigits_of_base_le (by decide) (by omega),
          List.head?_append_of_ne_nil _ Nat.toDigits_ne_nil]
        exact ih (n / 10) (by omega) (by omega)

/-- The digits of a number start with a zero only if there are no others. -/
theorem toDigits_plain (n : Nat) :
    ¬ ((Nat.toDigits 10 n).head? = some '0' && (Nat.toDigits 10 n).length > 1) := by
  cases n with
  | zero => decide
  | succ n => simp [head?_toDigits (Nat.succ_pos n)]

theorem digits_toDigits (n : Nat) : Digits (Nat.toDigits 10 n) :=
  ⟨Nat.toDigits_ne_nil, fun _ hc =>
    isDigit_of_isDigit (Nat.isDigit_of_mem_toDigits (by decide) (by decide) hc)⟩

theorem readDigits_toDigits (n : Nat) :
    readDigits (Nat.toDigits 10 n) = some (Nat.toDigits 10 n, []) :=
  readDigits_eq_some_iff.mpr ⟨digits_toDigits n, .nil, (List.append_nil _).symm⟩

/-- The integers that are read as integers. -/
def Fits64 (n : Int) : Prop := Number.signed64.least ≤ n ∧ n ≤ greatestSignificand

theorem readMinus_intText (n : Int) :
    readMinus (intText n) = (decide (n < 0), Nat.toDigits 10 n.natAbs) := by
  unfold intText
  split
  · next negative =>
      rw [decide_eq_true negative]
      rfl
  · next negative =>
      cases hdigits : Nat.toDigits 10 n.natAbs with
      | nil => exact absurd hdigits Nat.toDigits_ne_nil
      | cons c tail =>
          have hc : c.isDigit = true := Nat.isDigit_of_mem_toDigits (by decide) (by decide)
            (hdigits ▸ List.mem_cons_self)
          have hminus : c ≠ '-' := by
            rintro rfl
            exact absurd hc (by decide)
          rw [readMinus_of_ne hminus, decide_eq_false negative]

theorem readNumber_intText {n : Int} (fits : Fits64 n) :
    readNumber (intText n) = some (.int n, []) := by
  obtain ⟨hleast, hgreatest⟩ := fits
  rw [readNumber_eq_some_iff, readMinus_intText]
  refine ⟨Nat.toDigits 10 n.natAbs, [], none, [], none, readDigits_toDigits _, toDigits_plain _,
    rfl, rfl, ?_⟩
  simp only [NumberText.node, digitsValue_toDigits]
  -- Only what is below zero is bounded as a signed number; the rest may go up to 2⁶⁴ - 1.
  by_cases negative : n < 0
  · have hbound : n.natAbs ≤ Number.signed64.least.natAbs := by
      simp only [Number.signed64] at hleast ⊢
      omega
    have hvalue : -(n.natAbs : Int) = n := by omega
    have hnonzero : n.natAbs ≠ 0 := by omega
    simp only [negative, decide_true, Bool.not_true, Bool.false_and, Bool.false_eq_true, if_false,
      ne_eq, hnonzero, not_false_eq_true, hbound, Bool.and_self, if_true, hvalue]
  · have hbound : n.natAbs ≤ greatestSignificand := by omega
    have hvalue : (n.natAbs : Int) = n := by omega
    simp only [negative, decide_false, Bool.not_false, Bool.true_and, hbound, decide_true,
      if_true, hvalue]

/-! ## Values -/

/-- A float that its own text is read as. -/
def Rereads (x : Float) : Prop :=
  x.isFinite = true ∧ readNumber (Number.floatText x) = some (.float x, [])

mutual

/-- All numbers in a value are read from their texts as what they are. -/
def Readable : Json → Prop
  | .int number => Fits64 number
  | .float number => Rereads number
  | .array items => itemsReadable items
  | .object members => membersReadable members
  | .null | .bool _ | .string _ => True

/-- All numbers in some values are read as what they are. -/
def itemsReadable : List Json → Prop
  | [] => True
  | item :: rest => item.Readable ∧ itemsReadable rest

/-- All numbers in the values of some members are read as what they are. -/
def membersReadable : List (String × Json) → Prop
  | [] => True
  | (_, value) :: rest => value.Readable ∧ membersReadable rest

end

mutual

/-- The document that the text of a value is read as. A float comes back as whatever its text
says. -/
def readNode : Json → Node
  | .null => .null
  | .bool flag => .bool flag
  | .int number => .int number
  | .float number => (readNumber (Number.floatText number)).elim .unreadable Prod.fst
  | .string text => .string text
  | .array items => .seq (readItemNodes items)
  | .object members => .map (readMemberNodes members)

/-- What the texts of some values are read as. -/
def readItemNodes : List Json → List Node
  | [] => []
  | item :: rest => item.readNode :: readItemNodes rest

/-- What the texts of some members are read as. -/
def readMemberNodes : List (String × Json) → List (Node × Node)
  | [] => []
  | (key, value) :: rest => (.string key, value.readNode) :: readMemberNodes rest

end

mutual

/-- All numbers in a value are written as numbers that the reader takes. -/
def Legible : Json → Prop
  | .int number => Fits64 number
  | .float number =>
      number.isFinite = true ∧ ∃ node, readNumber (Number.floatText number) = some (node, [])
  | .array items => itemsLegible items
  | .object members => membersLegible members
  | .null | .bool _ | .string _ => True

/-- All numbers in some values are written as numbers. -/
def itemsLegible : List Json → Prop
  | [] => True
  | item :: rest => item.Legible ∧ itemsLegible rest

/-- All numbers in the values of some members are written as numbers. -/
def membersLegible : List (String × Json) → Prop
  | [] => True
  | (_, value) :: rest => value.Legible ∧ membersLegible rest

end

theorem readItemNodes_eq_map (items : List Json) : readItemNodes items = items.map readNode := by
  induction items with
  | nil => rfl
  | cons item rest ih => rw [readItemNodes, ih, List.map_cons]

theorem readMemberNodes_eq_map (members : List (String × Json)) :
    readMemberNodes members =
      members.map fun member => (Node.string member.1, member.2.readNode) := by
  induction members with
  | nil => rfl
  | cons member rest ih => rw [readMemberNodes, ih, List.map_cons]

theorem itemsLegible_iff {items : List Json} :
    itemsLegible items ↔ ∀ item ∈ items, item.Legible := by
  induction items with
  | nil => simp [itemsLegible]
  | cons item rest ih => rw [itemsLegible, ih, List.forall_mem_cons]

theorem membersLegible_iff {members : List (String × Json)} :
    membersLegible members ↔ ∀ member ∈ members, member.2.Legible := by
  induction members with
  | nil => simp [membersLegible]
  | cons member rest ih => rw [membersLegible, ih, List.forall_mem_cons]

mutual

/-- What is read as itself is legible, and its text says what it is. -/
theorem Readable.legible {json : Json} (readable : json.Readable) :
    json.Legible ∧ json.readNode = json.toNode := by
  match json with
  | .null | .bool _ | .string _ => exact ⟨trivial, rfl⟩
  | .int _ => exact ⟨readable, rfl⟩
  | .float number =>
      obtain ⟨finite, hread⟩ := readable
      refine ⟨⟨finite, _, hread⟩, ?_⟩
      rw [readNode, hread]
      rfl
  | .array items =>
      obtain ⟨hlegible, hnodes⟩ := itemsReadable_legible readable
      exact ⟨hlegible, congrArg Node.seq hnodes⟩
  | .object members =>
      obtain ⟨hlegible, hnodes⟩ := membersReadable_legible readable
      exact ⟨hlegible, congrArg Node.map hnodes⟩

theorem itemsReadable_legible {items : List Json} (readable : itemsReadable items) :
    itemsLegible items ∧ readItemNodes items = itemNodes items := by
  match items with
  | [] => exact ⟨trivial, rfl⟩
  | item :: rest =>
      obtain ⟨hitem, hnode⟩ := Readable.legible readable.1
      obtain ⟨hrest, hnodes⟩ := itemsReadable_legible readable.2
      exact ⟨⟨hitem, hrest⟩, by rw [readItemNodes, hnode, hnodes, itemNodes]⟩

theorem membersReadable_legible {members : List (String × Json)}
    (readable : membersReadable members) :
    membersLegible members ∧ readMemberNodes members = memberNodes members := by
  match members with
  | [] => exact ⟨trivial, rfl⟩
  | (key, value) :: rest =>
      obtain ⟨hvalue, hnode⟩ := Readable.legible readable.1
      obtain ⟨hrest, hnodes⟩ := membersReadable_legible readable.2
      exact ⟨⟨hvalue, hrest⟩, by rw [readMemberNodes, hnode, hnodes, memberNodes]⟩

end

variable {layout : Layout} {level fuel : Nat}

theorem skipSpace_newline (cs : List Char) :
    skipSpace (layout.newline level ++ cs) = skipSpace cs := by
  cases layout with
  | compact => rfl
  | indented =>
      have hspaces : ∀ n, skipSpace (List.replicate n ' ' ++ cs) = skipSpace cs := by
        intro n
        induction n with
        | zero => rfl
        | succ n ih => exact ih
      exact hspaces (2 * level)

theorem readValue_newline (cs : List Char) :
    readValue fuel (layout.newline level ++ cs) = readValue fuel cs := by
  cases fuel with
  | zero => rfl
  | succ fuel => simp only [readValue, skipSpace_newline]

theorem skipSpace_cons {c : Char} (h : isSpace c = false) : skipSpace (c :: cs) = c :: cs :=
  List.dropWhile_cons_of_neg (by simp [h])

/-- The first character of a text is no white space, and it does not close an array. -/
def Opens (text : List Char) : Prop :=
  ∃ c tail, text = c :: tail ∧ isSpace c = false ∧ c ≠ ']'

theorem opens_of_readNumber {node : Node} (h : readNumber cs = some (node, more)) : Opens cs := by
  obtain ⟨c, tail, rfl, hne⟩ := head_of_readNumber h
  refine ⟨c, tail, rfl, ?_, hne ']' (by decide) (by decide)⟩
  simp [isSpace, hne ' ' (by decide) (by decide), hne '\t' (by decide) (by decide),
    hne '\n' (by decide) (by decide), hne '\r' (by decide) (by decide)]

theorem write_float {x : Float} (finite : x.isFinite = true) :
    write layout level (.float x) = Number.floatText x := by
  rw [write, if_pos finite]

theorem write_opens (layout : Layout) (level : Nat) {json : Json} (legible : json.Legible) :
    Opens (json.write layout level) := by
  match json with
  | .null => exact ⟨'n', _, rfl, rfl, by decide⟩
  | .bool true => exact ⟨'t', _, rfl, rfl, by decide⟩
  | .bool false => exact ⟨'f', _, rfl, rfl, by decide⟩
  | .int number => exact opens_of_readNumber (readNumber_intText legible)
  | .float number =>
      obtain ⟨finite, _, hread⟩ := legible
      exact write_float finite ▸ opens_of_readNumber hread
  | .string text => exact ⟨'"', _, rfl, rfl, by decide⟩
  | .array [] | .array (_ :: _) => exact ⟨'[', _, rfl, rfl, by decide⟩
  | .object [] | .object (_ :: _) => exact ⟨'\x7b', _, rfl, rfl, by decide⟩

/-- What starts neither a string, a container nor a word is taken for a number. -/
theorem readValue_number {node : Node} (h : readNumber cs = some (node, more)) (ends : Ends rest) :
    readValue (fuel + 1) (cs ++ rest) = some (node, more ++ rest) := by
  have hnumber := readNumber_append h ends
  obtain ⟨_, _, heq, hspace, _⟩ := opens_of_readNumber h
  obtain ⟨c, tail, rfl, hne⟩ := head_of_readNumber h
  obtain ⟨rfl, rfl⟩ := List.cons.inj heq
  rw [readValue, List.cons_append, skipSpace_cons hspace]
  split
  · next heq => exact absurd (List.cons.inj heq).1 (hne '"' (by decide) (by decide))
  · next heq => exact absurd (List.cons.inj heq).1 (hne '[' (by decide) (by decide))
  · next heq => exact absurd (List.cons.inj heq).1 (hne '\x7b' (by decide) (by decide))
  · next heq => exact absurd (List.cons.inj heq).1 (hne 'n' (by decide) (by decide))
  · next heq => exact absurd (List.cons.inj heq).1 (hne 't' (by decide) (by decide))
  · next heq => exact absurd (List.cons.inj heq).1 (hne 'f' (by decide) (by decide))
  · exact hnumber

theorem readValue_quote (text : String) (rest : List Char) :
    readValue (fuel + 1) (quote text ++ rest) = some (.string text, rest) := by
  have hquote : quote text ++ rest = '"' :: (text.toList.flatMap escape ++ '"' :: rest) := by
    simp only [quote, List.cons_append, List.append_assoc, List.nil_append]
  rw [hquote, readValue, skipSpace_cons rfl]
  exact readString_quoted text rest

/-! ### Containers -/

/-- The items of an array, each on its line. -/
def itemsText (layout : Layout) (level : Nat) : List Json → List Char
  | [] => []
  | item :: rest => layout.newline level ++ item.write layout level ++ writeItems layout level rest

/-- The members of an object, each on its line. -/
def membersText (layout : Layout) (level : Nat) : List (String × Json) → List Char
  | [] => []
  | (key, value) :: rest =>
      layout.newline level ++ quote key ++ layout.colon ++ value.write layout level ++
        writeMembers layout level rest

theorem ends_newline {close : Char} (h : close = ']' ∨ close = '\x7d') :
    Ends (layout.newline level ++ close :: rest) := by
  intro c hc
  cases layout with
  | compact =>
      cases hc
      rcases h with rfl | rfl <;> decide
  | indented =>
      cases hc
      decide

theorem ends_comma : Ends (',' :: rest) := by
  intro c hc
  cases hc
  decide

theorem ends_writeItems {items : List Json} {outer : Nat} :
    Ends (writeItems layout level items ++ (layout.newline outer ++ ']' :: rest)) := by
  cases items with
  | nil => exact ends_newline (.inl rfl)
  | cons item items => exact ends_comma

theorem ends_writeMembers {members : List (String × Json)} {outer : Nat} :
    Ends (writeMembers layout level members ++ (layout.newline outer ++ '\x7d' :: rest)) := by
  cases members with
  | nil => exact ends_newline (.inr rfl)
  | cons member members => exact ends_comma

theorem length_pos_of_opens {text : List Char} (opens : Opens text) : 0 < text.length := by
  obtain ⟨c, tail, rfl, _⟩ := opens
  exact Nat.succ_pos _

theorem write_array (item : Json) (items : List Json) (rest : List Char) :
    write layout level (.array (item :: items)) ++ rest =
      '[' :: (itemsText layout (level + 1) (item :: items) ++
        (layout.newline level ++ ']' :: rest)) := by
  simp only [write, itemsText, List.cons_append, List.append_assoc, List.nil_append]

theorem write_object (member : String × Json) (members : List (String × Json)) (rest : List Char) :
    write layout level (.object (member :: members)) ++ rest =
      '\x7b' :: (membersText layout (level + 1) (member :: members) ++
        (layout.newline level ++ '\x7d' :: rest)) := by
  simp only [write, membersText, List.cons_append, List.append_assoc, List.nil_append]

theorem length_itemsText_lt (layout : Layout) (level : Nat) (item : Json) (items : List Json) :
    (itemsText layout (level + 1) (item :: items)).length + 1 <
      (write layout level (.array (item :: items))).length := by
  simp only [write, itemsText, List.length_cons, List.length_append, List.length_nil]
  omega

theorem length_membersText_lt (layout : Layout) (level : Nat) (member : String × Json)
    (members : List (String × Json)) :
    (membersText layout (level + 1) (member :: members)).length + 1 <
      (write layout level (.object (member :: members))).length := by
  simp only [write, membersText, List.length_cons, List.length_append, List.length_nil]
  omega

/-- Between a key and its value there is a colon, and the white space behind it is skipped. -/
theorem skipSpace_colon (layout : Layout) (cs : List Char) : ∃ gap,
    skipSpace (layout.colon ++ cs) = ':' :: (gap ++ cs) ∧
      ∀ fuel, readValue fuel (gap ++ cs) = readValue fuel cs := by
  cases layout with
  | compact => exact ⟨[], rfl, fun _ => rfl⟩
  | indented => exact ⟨[' '], rfl, fun fuel => by cases fuel <;> rfl⟩

theorem skipSpace_membersText (key : String) (value : Json) (members : List (String × Json))
    (rest : List Char) :
    skipSpace (membersText layout level ((key, value) :: members) ++ rest) =
      '"' :: (key.toList.flatMap escape ++ '"' :: (layout.colon ++ (value.write layout level ++
        (writeMembers layout level members ++ rest)))) := by
  simp only [membersText, quote, List.append_assoc, skipSpace_newline, List.cons_append,
    List.nil_append]
  exact skipSpace_cons rfl

mutual

/-- A written value is read as what its text says. The text is longer than the reader
goes deep, so its length is fuel enough. -/
theorem readValue_write (json : Json) (legible : json.Legible) {fuel level : Nat}
    {rest : List Char} (enough : (json.write layout level).length ≤ fuel) (ends : Ends rest) :
    readValue fuel (json.write layout level ++ rest) = some (json.readNode, rest) := by
  have hlength := length_pos_of_opens (write_opens layout level legible)
  obtain ⟨fuel, rfl⟩ : ∃ n, fuel = n + 1 := ⟨fuel - 1, by omega⟩
  match json with
  | .null | .bool true | .bool false => rfl
  | .int number => exact readValue_number (readNumber_intText legible) ends
  | .float number =>
      obtain ⟨finite, node, hread⟩ := legible
      have hnode : readNode (.float number) = node := by rw [readNode, hread]; rfl
      rw [write_float finite, hnode]
      exact readValue_number hread ends
  | .string text => exact readValue_quote text rest
  | .array [] => rfl
  | .array (item :: items) =>
      have hshorter := length_itemsText_lt layout level item items
      have hitems : readItems fuel (itemsText layout (level + 1) (item :: items) ++
          (layout.newline level ++ ']' :: rest)) = some (readItemNodes (item :: items), rest) :=
        readItems_write (item :: items) (List.cons_ne_nil _ _) legible (by omega)
      -- The reader looks for the bracket of an empty array first.
      obtain ⟨c, tail, hopen, hspace, hclose⟩ := write_opens layout (level + 1) legible.1
      have hfirst : skipSpace (itemsText layout (level + 1) (item :: items) ++
          (layout.newline level ++ ']' :: rest)) = c :: (tail ++
            (writeItems layout (level + 1) items ++ (layout.newline level ++ ']' :: rest))) := by
        simp only [itemsText, List.append_assoc, skipSpace_newline, hopen, List.cons_append]
        exact skipSpace_cons hspace
      rw [write_array, readValue, skipSpace_cons rfl]
      simp only [hfirst]
      split
      · next heq => exact absurd (List.cons.inj heq).1 hclose
      · rw [hitems]
        rfl
  | .object [] => rfl
  | .object ((key, value) :: members) =>
      have hshorter := length_membersText_lt layout level (key, value) members
      have hmembers : readMembers fuel (membersText layout (level + 1) ((key, value) :: members) ++
          (layout.newline level ++ '\x7d' :: rest)) =
          some (readMemberNodes ((key, value) :: members), rest) :=
        readMembers_write ((key, value) :: members) (List.cons_ne_nil _ _) legible (by omega)
      rw [write_object, readValue, skipSpace_cons rfl]
      simp only [skipSpace_membersText, hmembers]
      rfl

theorem readItems_write (items : List Json) (nonempty : items ≠ []) (legible : itemsLegible items)
    {fuel level outer : Nat} {rest : List Char}
    (enough : (itemsText layout level items).length + 1 ≤ fuel) :
    readItems fuel (itemsText layout level items ++ (layout.newline outer ++ ']' :: rest)) =
      some (readItemNodes items, rest) := by
  obtain ⟨fuel, rfl⟩ : ∃ n, fuel = n + 1 := ⟨fuel - 1, by omega⟩
  match items with
  | [] => exact absurd rfl nonempty
  | item :: items =>
      simp only [itemsText, List.length_append] at enough
      have hitem : readValue fuel (itemsText layout level (item :: items) ++
          (layout.newline outer ++ ']' :: rest)) =
          some (item.readNode, writeItems layout level items ++
            (layout.newline outer ++ ']' :: rest)) := by
        simp only [itemsText, List.append_assoc]
        rw [readValue_newline]
        exact readValue_write item legible.1 (by omega) ends_writeItems
      rw [readItems, hitem]
      -- A comma is written before each further item, and the bracket stands on the outer level.
      match items with
      | [] =>
          have hclose : skipSpace (']' :: rest) = ']' :: rest := skipSpace_cons rfl
          simp only [writeItems, List.nil_append, skipSpace_newline, hclose]
          rfl
      | next :: items =>
          have hcomma : skipSpace (writeItems layout level (next :: items) ++
              (layout.newline outer ++ ']' :: rest)) =
              ',' :: (itemsText layout level (next :: items) ++
                (layout.newline outer ++ ']' :: rest)) := skipSpace_cons rfl
          have hrest : readItems fuel (itemsText layout level (next :: items) ++
              (layout.newline outer ++ ']' :: rest)) =
              some (readItemNodes (next :: items), rest) := by
            refine readItems_write (next :: items) (List.cons_ne_nil _ _) legible.2 ?_
            simp only [writeItems, List.length_cons, List.length_append, itemsText] at enough ⊢
            omega
          simp only [hcomma, hrest]
          rfl

theorem readMembers_write (members : List (String × Json)) (nonempty : members ≠ [])
    (legible : membersLegible members) {fuel level outer : Nat} {rest : List Char}
    (enough : (membersText layout level members).length + 1 ≤ fuel) :
    readMembers fuel (membersText layout level members ++
      (layout.newline outer ++ '\x7d' :: rest)) = some (readMemberNodes members, rest) := by
  obtain ⟨fuel, rfl⟩ : ∃ n, fuel = n + 1 := ⟨fuel - 1, by omega⟩
  match members with
  | [] => exact absurd rfl nonempty
  | (key, value) :: members =>
      simp only [membersText, List.length_append] at enough
      obtain ⟨gap, hcolon, hgap⟩ := skipSpace_colon layout (value.write layout level ++
        (writeMembers layout level members ++ (layout.newline outer ++ '\x7d' :: rest)))
      have hvalue : readValue fuel (gap ++ (value.write layout level ++
          (writeMembers layout level members ++ (layout.newline outer ++ '\x7d' :: rest)))) =
          some (value.readNode, writeMembers layout level members ++
            (layout.newline outer ++ '\x7d' :: rest)) := by
        rw [hgap]
        exact readValue_write value legible.1 (by omega) ends_writeMembers
      rw [readMembers, skipSpace_membersText]
      simp only [readString_quoted, hcolon, hvalue]
      match members with
      | [] =>
          have hclose : skipSpace ('\x7d' :: rest) = '\x7d' :: rest := skipSpace_cons rfl
          simp only [writeMembers, List.nil_append, skipSpace_newline, hclose]
          rfl
      | (next, other) :: members =>
          have hcomma : skipSpace (writeMembers layout level ((next, other) :: members) ++
              (layout.newline outer ++ '\x7d' :: rest)) =
              ',' :: (membersText layout level ((next, other) :: members) ++
                (layout.newline outer ++ '\x7d' :: rest)) := skipSpace_cons rfl
          have hrest : readMembers fuel (membersText layout level ((next, other) :: members) ++
              (layout.newline outer ++ '\x7d' :: rest)) =
              some (readMemberNodes ((next, other) :: members), rest) := by
            refine readMembers_write ((next, other) :: members) (List.cons_ne_nil _ _) legible.2 ?_
            simp only [writeMembers, List.length_cons, List.length_append, membersText] at enough ⊢
            omega
          simp only [hcomma, hrest]
          rfl

end

/-- What is written is read, in either layout. -/
theorem parse?_render_legible (layout : Layout) {json : Json} (legible : json.Legible) :
    parse? (json.render layout) = some json.readNode := by
  have hread : readValue (2 * (json.write layout 0).length + 2) (json.write layout 0 ++ []) =
      some (json.readNode, []) := readValue_write json legible (by omega) Ends.nil
  rw [List.append_nil] at hread
  simp only [parse?, render, String.toList_ofList, hread]
  rfl

/-- Reading undoes writing, in either layout. -/
theorem parse?_render (layout : Layout) {json : Json} (readable : json.Readable) :
    parse? (json.render layout) = some json.toNode := by
  obtain ⟨legible, hnode⟩ := readable.legible
  rw [parse?_render_legible layout legible, hnode]

end SchemaIR.Json
