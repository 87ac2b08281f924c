import SchemaIR.Number.Integer

/-!
# Decimal texts of floating-point numbers

A float text is an optional sign followed by digits with at most one point among
them and an optional exponent, or by the name of an infinity or of not-a-number
in any case. It denotes the double nearest to the decimal it spells, which may
be infinite.
-/

namespace SchemaIR.Number

/-- Why a text is not a float. -/
inductive FloatFault where
  | empty
  | invalid
deriving DecidableEq, Repr

/-- The wording of a fault. -/
def FloatFault.message : FloatFault → String
  | .empty => "cannot parse float from empty string"
  | .invalid => "invalid float literal"

/-- The number `coefficient * 10 ^ exponent`. -/
structure Decimal where
  coefficient : Nat
  exponent : Int
deriving DecidableEq, Repr

/-- Whether a character is an ASCII digit. -/
def isDigit (c : Char) : Bool := (digit? c).isSome

/-- The number that a run of digits spells. -/
def digitsValue (digits : List Char) : Nat :=
  digits.foldl (fun acc c => acc * 10 + (c.toNat - '0'.toNat)) 0

/-- How many digits a number has. -/
def digitCount (n : Nat) : Nat := (Nat.toDigits 10 n).length

/-- The signed number behind an exponent mark: an optional sign and at least one
digit, up to the end of the text. -/
def readExponent : List Char → Option Int
  | '+' :: digits => unsigned digits
  | '-' :: digits => (unsigned digits).map (- ·)
  | digits => unsigned digits
where
  unsigned (digits : List Char) : Option Int :=
    if digits.isEmpty || !digits.all isDigit then none else some (digitsValue digits)

/-- Reads an unsigned decimal: digits with at most one point among them, at least
one digit in all, and an optional exponent. -/
def readDecimal (text : List Char) : Option Decimal :=
  let whole := text.takeWhile isDigit
  let afterWhole := text.dropWhile isDigit
  let (fraction, afterFraction) :=
    match afterWhole with
    | '.' :: rest => (rest.takeWhile isDigit, rest.dropWhile isDigit)
    | rest => ([], rest)
  if whole.isEmpty && fraction.isEmpty then none
  else
    let exponent? :=
      match afterFraction with
      | [] => some 0
      | c :: rest => if c = 'e' || c = 'E' then readExponent rest else none
    exponent?.map fun exponent =>
      ⟨digitsValue (whole ++ fraction), exponent - fraction.length⟩

/-- The double nearest to a decimal. Decimals far outside the range of doubles
are settled by their magnitude alone. -/
def Decimal.toFloat (d : Decimal) : Float :=
  let magnitude : Int := d.exponent + digitCount d.coefficient
  if d.coefficient = 0 || magnitude < -330 then 0
  else if magnitude > 310 then 1 / 0
  else if d.exponent < 0 then Float.ofScientific d.coefficient true d.exponent.natAbs
  else Float.ofScientific d.coefficient false d.exponent.natAbs

/-- Reads a float text without its sign. -/
def readMagnitude (text : List Char) : Except FloatFault Float :=
  let name := text.map Char.toLower
  if name = "inf".toList || name = "infinity".toList then .ok (1 / 0)
  else if name = "nan".toList then .ok (0 / 0)
  else
    match readDecimal text with
    | some d => .ok d.toFloat
    | none => .error .invalid

/-- Reads a float text. -/
def readFloat (text : String) : Except FloatFault Float :=
  match text.toList with
  | [] => .error .empty
  | '+' :: rest => readMagnitude rest
  | '-' :: rest => (readMagnitude rest).map fun x => -x
  | rest => readMagnitude rest

end SchemaIR.Number
