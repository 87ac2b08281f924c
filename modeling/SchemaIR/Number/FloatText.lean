import SchemaIR.Number.Shortest

/-!
# How floats are written

A finite float is written with the fewest digits that read back to it. Numbers of
moderate size are written positionally and always show a point; the others carry
a signed exponent without padding.
-/

namespace SchemaIR.Number

/-- The choices that turn digits into a text. -/
structure FloatFormat where
  /-- The least exponent of the first digit that is written positionally. -/
  leastPositional : Int
  /-- The greatest exponent of the first digit that is written positionally. -/
  greatestPositional : Int

/-- Positional from `0.00001` up to, but not including, `10 ^ 16`. -/
def documentFloats : FloatFormat := ⟨-5, 15⟩

/-- Digits with the point behind the digit of place zero, given the place of the first. -/
def positional (digits : List Char) (lead : Int) : List Char :=
  if lead < 0 then
    '0' :: '.' :: List.replicate (lead.natAbs - 1) '0' ++ digits
  else
    let whole := lead.natAbs + 1
    if digits.length ≤ whole then
      digits ++ List.replicate (whole - digits.length) '0' ++ ['.', '0']
    else digits.take whole ++ '.' :: digits.drop whole

/-- One digit, the others behind a point, and the exponent with its sign. -/
def scientific (digits : List Char) (lead : Int) : List Char :=
  let mantissa :=
    match digits with
    | [] => ['0']
    | [d] => [d]
    | d :: rest => d :: '.' :: rest
  mantissa ++ 'e' :: (if lead < 0 then '-' else '+') :: Nat.toDigits 10 lead.natAbs

/-- The text of a nonzero decimal that has no trailing zeros. -/
def FloatFormat.write (format : FloatFormat) (d : Decimal) : List Char :=
  let digits := Nat.toDigits 10 d.coefficient
  let lead := d.exponent + digits.length - 1
  if format.leastPositional ≤ lead ∧ lead ≤ format.greatestPositional then positional digits lead
  else scientific digits lead

/-- The text of a finite float. -/
def floatText (x : Float) : List Char :=
  let sign := if x.toBits.toNat < 0x8000000000000000 then [] else ['-']
  let b := Binary.ofFloat x
  sign ++ if b.significand = 0 then ['0', '.', '0'] else documentFloats.write b.shortest

end SchemaIR.Number
