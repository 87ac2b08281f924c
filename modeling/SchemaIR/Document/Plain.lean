import SchemaIR.Number.Base
import SchemaIR.Number.Decimal

/-!
# Plain scalars

A scalar written without quotes may be a null, a truth value, a number or a text. Which
it is follows from its spelling alone. Integers may be hexadecimal, octal or binary; a
run of digits that starts with a superfluous zero is a text.
-/

namespace SchemaIR.Plain

/-- What a plain scalar stands for. -/
inductive Meaning where
  | null
  | bool (flag : Bool)
  | int (number : Int)
  /-- An integer beyond 64 bits. -/
  | hugeInt
  | float (number : Float)
  | text

/-- Whether a spelling stands for the absence of a value. -/
def isNull (text : String) : Bool :=
  text ∈ ["", "null", "Null", "NULL", "~"]

/-- The truth value that a spelling stands for. -/
def bool? (text : String) : Option Bool :=
  if text ∈ ["true", "True", "TRUE"] then some true
  else if text ∈ ["false", "False", "FALSE"] then some false
  else none

/-- The number behind a base mark such as `0x`. -/
def marked? : List Char → Option Nat
  | '0' :: 'x' :: rest => Number.baseDigits? 16 rest
  | '0' :: 'o' :: rest => Number.baseDigits? 8 rest
  | '0' :: 'b' :: rest => Number.baseDigits? 2 rest
  | _ => none

/-- Drops one sign. -/
def dropSign : List Char → List Char
  | '+' :: rest => rest
  | '-' :: rest => rest
  | text => text

/-- Whether a spelling has a superfluous leading zero. -/
def hasLeadingZero (text : List Char) : Bool :=
  match dropSign text with
  | '0' :: c :: rest => (c :: rest).all Number.isDigit
  | _ => false

/-- The number that a spelling without a minus sign stands for. -/
def unsigned? (text : List Char) : Option Nat :=
  let body :=
    match text with
    | '+' :: rest => rest
    | _ => text
  (marked? body).orElse fun _ => if hasLeadingZero text then none else Number.baseDigits? 10 body

/-- The absolute value of the number that a spelling with a minus sign stands for. -/
def negative? : List Char → Option Nat
  | '-' :: rest => (marked? rest).orElse fun _ =>
    if hasLeadingZero rest then none else Number.baseDigits? 10 rest
  | _ => none

/-- The float that a spelling stands for. -/
def float? (text : List Char) : Option Float :=
  let body? :=
    match text with
    | '+' :: '+' :: _ => none
    | '+' :: '-' :: _ => none
    | '+' :: rest => some rest
    | _ => some text
  match body?.map String.ofList with
  | none => none
  | some body =>
    if body ∈ [".inf", ".Inf", ".INF"] then some (1 / 0)
    else if body ∈ ["-.inf", "-.Inf", "-.INF"] then some (-1 / 0)
    else if String.ofList text ∈ [".nan", ".NaN", ".NAN"] then some (0 / 0)
    else
      match Number.readFloat body with
      | .ok x => if x.isFinite then some x else none
      | .error _ => none

/-- What a plain scalar stands for. -/
def classify (text : String) : Meaning :=
  let chars := text.toList
  if isNull text then .null
  else
    match bool? text with
    | some flag => .bool flag
    | none =>
      match unsigned? chars, negative? chars with
      | some n, _ =>
        if n < UInt64.size then .int n
        else hugeUpTo (UInt64.size * UInt64.size - 1) n chars
      | none, some n =>
        if n ≤ UInt64.size / 2 then .int (-n)
        else hugeUpTo (UInt64.size * UInt64.size / 2) n chars
      | none, none => floatOrText chars
where
  floatOrText (chars : List Char) : Meaning :=
    if hasLeadingZero chars then .text
    else
      match float? chars with
      | some x => .float x
      | none => .text
  hugeUpTo (bound n : Nat) (chars : List Char) : Meaning :=
    if n ≤ bound then .hugeInt else floatOrText chars

end SchemaIR.Plain
