/-!
# Signed 64-bit integer texts

An integer text is an optional sign and one or more ASCII digits. Digits are
taken from left to right, so of two faults the one met first is the one that is
reported: an overflow hides whatever stands behind it.
-/

namespace SchemaIR.Number

/-- Why a text is not an integer. -/
inductive IntegerFault where
  | empty
  | invalidDigit
  | tooLarge
  | tooSmall
deriving DecidableEq, Repr

/-- The wording of a fault. -/
def IntegerFault.message : IntegerFault → String
  | .empty => "cannot parse integer from empty string"
  | .invalidDigit => "invalid digit found in string"
  | .tooLarge => "number too large to fit in target type"
  | .tooSmall => "number too small to fit in target type"

/-- A range of integers that a text may denote. -/
structure IntegerRange where
  least : Int
  greatest : Int

/-- Two's complement with 64 bits. -/
def signed64 : IntegerRange := ⟨-0x8000000000000000, 0x7FFFFFFFFFFFFFFF⟩

/-- Unsigned with 64 bits. -/
def unsigned64 : IntegerRange := ⟨0, 0xFFFFFFFFFFFFFFFF⟩

/-- The value of an ASCII digit. -/
def digit? (c : Char) : Option Nat :=
  if '0' ≤ c ∧ c ≤ '9' then some (c.toNat - '0'.toNat) else none

/-- Appends digits to a number that is zero or positive. -/
def appendDigits (range : IntegerRange) : Int → List Char → Except IntegerFault Int
  | acc, [] => .ok acc
  | acc, c :: rest =>
    match digit? c with
    | none => .error .invalidDigit
    | some d =>
      let next := acc * 10 + d
      if next ≤ range.greatest then appendDigits range next rest else .error .tooLarge

/-- Appends digits to a number that is zero or negative. -/
def appendNegativeDigits (range : IntegerRange) : Int → List Char → Except IntegerFault Int
  | acc, [] => .ok acc
  | acc, c :: rest =>
    match digit? c with
    | none => .error .invalidDigit
    | some d =>
      let next := acc * 10 - d
      if range.least ≤ next then appendNegativeDigits range next rest else .error .tooSmall

/-- Reads an integer text of the given range. A range without negative numbers
has no minus sign either. -/
def readInteger (range : IntegerRange) : List Char → Except IntegerFault Int
  | [] => .error .empty
  | ['+'] => .error .invalidDigit
  | ['-'] => .error .invalidDigit
  | '+' :: digits => appendDigits range 0 digits
  | '-' :: digits =>
    if range.least < 0 then appendNegativeDigits range 0 digits else .error .invalidDigit
  | digits => appendDigits range 0 digits

/-- Reads a signed 64-bit integer. -/
def readInt64 (text : String) : Except IntegerFault Int64 :=
  match readInteger signed64 text.toList with
  | .ok n => .ok (Int64.ofInt n)
  | .error fault => .error fault

end SchemaIR.Number
