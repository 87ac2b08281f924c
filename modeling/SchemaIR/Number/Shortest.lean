import SchemaIR.Number.Decimal

/-!
# The shortest decimal of a double

A finite double stands for all reals that round to it. Among the decimals in
that interval one with the fewest digits is wanted, and among those the one
nearest to the double. For each number of digits in turn only the two decimals
around the double need testing: if any decimal of that length lies in the
interval, one of these two does. All comparisons are made in natural numbers.
-/

namespace SchemaIR.Number

/-- A finite positive double as `significand * 2 ^ exponent`. `wideBelow` says that the
next smaller double is as far away as the next larger one. -/
structure Binary where
  significand : Nat
  exponent : Int
  wideBelow : Bool
deriving DecidableEq, Repr

/-- The parts of a double, whose sign is left out. -/
def Binary.ofFloat (x : Float) : Binary :=
  let bits := x.toBits.toNat % 0x8000000000000000
  let field : Nat := bits / 0x10000000000000
  let fraction := bits % 0x10000000000000
  if field = 0 then ⟨fraction, -1074, true⟩
  else ⟨fraction + 0x10000000000000, (field : Int) - 1075, fraction ≠ 0 || field = 1⟩

/-- A rounding interval over a common denominator: the double itself and the two
ends, which belong to the interval when `closed` holds. -/
structure Interval where
  value : Nat
  low : Nat
  high : Nat
  denominator : Nat
  closed : Bool

/-- The reals that round to a double, measured in units of `10 ^ place`. -/
def Binary.interval (b : Binary) (place : Int) : Interval :=
  -- A quarter of the last binary place is the unit in which both ends are whole.
  let quarter := b.exponent - 2
  let scale := Nat.pow 2 quarter.toNat * Nat.pow 10 (-place).toNat
  { value := 4 * b.significand * scale
    low := (4 * b.significand - if b.wideBelow then 2 else 1) * scale
    high := (4 * b.significand + 2) * scale
    denominator := Nat.pow 2 (-quarter).toNat * Nat.pow 10 place.toNat
    closed := b.significand % 2 = 0 }

/-- Whether the whole number `n` lies in the interval. -/
def Interval.holds (i : Interval) (n : Nat) : Bool :=
  let x := n * i.denominator
  if i.closed then i.low ≤ x && x ≤ i.high else i.low < x && x < i.high

/-- The whole number of the interval that is nearest to its value; of two at the
same distance, the even one. -/
def Interval.nearest? (i : Interval) : Option Nat :=
  let below := i.value / i.denominator
  let above := below + 1
  let toBelow := i.value - below * i.denominator
  let toAbove := above * i.denominator - i.value
  match i.holds below, i.holds above with
  | true, true =>
    if toBelow < toAbove then some below
    else if toAbove < toBelow then some above
    else if below % 2 = 0 then some below else some above
  | true, false => some below
  | false, true => some above
  | false, false => none

/-- The place of the first digit: the greatest `e` with `10 ^ e` at most the value. -/
def Binary.leadingPlace (b : Binary) : Int :=
  let i := b.interval 0
  let guess : Int := digitCount i.value - digitCount i.denominator
  if i.denominator * Nat.pow 10 guess.toNat ≤ i.value * Nat.pow 10 (-guess).toNat then guess
  else guess - 1

/-- A decimal without trailing zeros that is equal to the given one. -/
def Decimal.strip (d : Decimal) : Decimal :=
  let digits := Nat.toDigits 10 d.coefficient
  let zeros := (digits.reverse.takeWhile (· = '0')).length
  ⟨d.coefficient / Nat.pow 10 zeros, d.exponent + zeros⟩

/-- The shortest decimal that rounds to a positive double, the nearest to it of those.
Seventeen digits always suffice. -/
def Binary.shortest (b : Binary) : Decimal :=
  let lead := b.leadingPlace
  let candidate? := (List.range 17).findSome? fun (extra : Nat) =>
    let place := lead - extra
    (b.interval place).nearest?.map fun n => (Decimal.mk n place).strip
  candidate?.getD ⟨b.significand, 0⟩

end SchemaIR.Number
