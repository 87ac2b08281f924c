/-!
# Digits in other bases

Digits in bases up to sixteen, in capitals or not, and the characters that are named by
their hexadecimal code points.
-/

namespace SchemaIR.Number

/-- The value of a digit in bases up to sixteen. -/
def baseDigit? (c : Char) : Option Nat :=
  if '0' ≤ c ∧ c ≤ '9' then some (c.toNat - '0'.toNat)
  else if 'a' ≤ c ∧ c ≤ 'f' then some (c.toNat - 'a'.toNat + 10)
  else if 'A' ≤ c ∧ c ≤ 'F' then some (c.toNat - 'A'.toNat + 10)
  else none

/-- Whether a character is a digit in a base. -/
def isBaseDigit (base : Nat) (c : Char) : Bool :=
  match baseDigit? c with
  | some d => d < base
  | none => false

/-- The number that a run of digits spells in a base. -/
def baseDigits? (base : Nat) (digits : List Char) : Option Nat :=
  if digits.isEmpty then none
  else digits.foldlM (fun acc c => do
    let d ← baseDigit? c
    if d < base then some (acc * base + d) else none) 0

/-- The character whose code point is given by so many hexadecimal digits. -/
def codePoint? (digits : List Char) (width : Nat) : Option Char := do
  if digits.length ≠ width then none
  let code ← baseDigits? 16 digits
  if code.isValidChar then some (Char.ofNat code) else none

end SchemaIR.Number
