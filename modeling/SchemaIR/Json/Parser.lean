import SchemaIR.Document.Node

/-!
# Reading JSON

Strict JSON: nothing but one value with white space around it. The result is a document
in which every part has been checked for its form. Strings with half a surrogate pair and
numbers beyond every float are well formed but have no value, so they come out as
unreadable nodes.

An integer that fits into 64 bits, signed or unsigned, is an integer. Every other number
is a float, also minus zero. Floats are computed from at most the first nineteen or so
digits by a single multiplication or division, which is not always correctly rounded.
-/

namespace SchemaIR.Json

/-- Whether a character may stand between tokens. -/
def isSpace (c : Char) : Bool :=
  c = ' ' || c = '\t' || c = '\n' || c = '\r'

/-- Drops the white space in front of the next token. -/
def skipSpace (cs : List Char) : List Char := cs.dropWhile isSpace

/-! ## Strings -/

/-- A piece of a string: a character, or an escaped unit of UTF-16. -/
inductive Piece where
  | char (c : Char)
  | unit (code : Nat)

/-- The number that four hexadecimal digits spell. -/
def hex4? (a b c d : Char) : Option Nat := do
  let a ← Number.baseDigit? a
  let b ← Number.baseDigit? b
  let c ← Number.baseDigit? c
  let d ← Number.baseDigit? d
  return ((a * 16 + b) * 16 + c) * 16 + d

/-- The character that an escape of one letter stands for. -/
def unescape? (c : Char) : Option Char :=
  if c = '"' then some '"'
  else if c = '\\' then some '\\'
  else if c = '/' then some '/'
  else if c = 'b' then some '\x08'
  else if c = 'f' then some '\x0c'
  else if c = 'n' then some '\n'
  else if c = 'r' then some '\r'
  else if c = 't' then some '\t'
  else none

/-- Reads a string from behind its opening quote; also what stands behind the closing
one. The pieces read so far come last first. -/
def readPieces (sofar : List Piece) : List Char → Option (List Piece × List Char)
  | [] => none
  | '"' :: rest => some (sofar.reverse, rest)
  | '\\' :: 'u' :: a :: b :: c :: d :: rest =>
    match hex4? a b c d with
    | some code => readPieces (.unit code :: sofar) rest
    | none => none
  | '\\' :: c :: rest =>
    match unescape? c with
    | some c => readPieces (.char c :: sofar) rest
    | none => none
  | c :: rest => if c.toNat < 0x20 then none else readPieces (.char c :: sofar) rest

/-- Puts the pieces of a string together. Two halves of a surrogate pair make one
character; one half alone makes none. The characters so far come last first. -/
def joinPieces (sofar : List Char) : List Piece → Option (List Char)
  | [] => some sofar.reverse
  | .char c :: rest => joinPieces (c :: sofar) rest
  | .unit code :: rest =>
    if 0xDC00 ≤ code ∧ code < 0xE000 then none
    else if 0xD800 ≤ code ∧ code < 0xDC00 then
      match rest with
      | .unit low :: rest =>
        if 0xDC00 ≤ low ∧ low < 0xE000 then
          joinPieces (Char.ofNat (0x10000 + (code - 0xD800) * 0x400 + (low - 0xDC00)) :: sofar) rest
        else none
      | _ => none
    else joinPieces (Char.ofNat code :: sofar) rest

/-- Reads a string from behind its opening quote. -/
def readString (cs : List Char) : Option (Node × List Char) :=
  match readPieces [] cs with
  | none => none
  | some (pieces, rest) =>
    match joinPieces [] pieces with
    | some text => some (.string (String.ofList text), rest)
    | none => some (.unreadable, rest)

/-! ## Numbers -/

/-- The greatest number that digits are gathered into. -/
def greatestSignificand : Nat := UInt64.size - 1

/-- Digits gathered into a number, and the power of ten that it is to be multiplied by. -/
structure Gathered where
  significand : Nat
  exponent : Int

/-- Gathers the digits in front of the point. From the first digit that does not fit, each
only counts as a place. -/
def gatherWhole (significand : Nat) : List Char → Gathered
  | [] => ⟨significand, 0⟩
  | c :: rest =>
    let next := significand * 10 + (c.toNat - '0'.toNat)
    if next ≤ greatestSignificand then gatherWhole next rest
    else ⟨significand, (c :: rest).length⟩

/-- Gathers the digits behind the point, up to the first one that does not fit. -/
def gatherFraction (sofar : Gathered) : List Char → Gathered
  | [] => sofar
  | c :: rest =>
    let next := sofar.significand * 10 + (c.toNat - '0'.toNat)
    if next ≤ greatestSignificand then gatherFraction ⟨next, sofar.exponent - 1⟩ rest
    else sofar

/-- The power of ten as a float. -/
def power10 (exponent : Nat) : Float := Float.ofScientific 1 false exponent

/-- Multiplies by a power of ten. Powers below `10 ^ -308` are reached in several
divisions, of which two take everything to zero; nothing if the result is too large. -/
def scale (x : Float) (exponent : Int) : Nat → Option Float
  | 0 => some x
  | steps + 1 =>
    if exponent.natAbs ≤ 308 then
      if 0 ≤ exponent then
        let y := x * power10 exponent.natAbs
        if y.isInf then none else some y
      else some (x / power10 exponent.natAbs)
    else if x == 0 then some x
    else if 0 ≤ exponent then none
    else scale (x / power10 308) (exponent + 308) steps

/-- The float of gathered digits. -/
def Gathered.toFloat? (g : Gathered) (negative : Bool) : Option Float :=
  let x := scale g.significand.toUInt64.toFloat g.exponent 4
  if negative then x.map (- ·) else x

/-- A number as it is spelled. -/
structure NumberText where
  negative : Bool
  whole : List Char
  fraction : Option (List Char)
  /-- Whether the exponent is negative, and its digits. -/
  exponent : Option (Bool × List Char)

/-- The greatest exponent that is looked at. -/
def greatestExponent : Nat := 0x7FFFFFFF

/-- The node that a spelled number stands for. -/
def NumberText.node (number : NumberText) : Node :=
  let value := Number.digitsValue number.whole
  let gathered := gatherFraction (gatherWhole 0 number.whole) (number.fraction.getD [])
  let ofFloat? : Option Float → Node := fun
    | some x => .float x
    | none => .unreadable
  match number.fraction, number.exponent with
  | none, none =>
    if !number.negative && value ≤ greatestSignificand then .int value
    else if number.negative && value ≠ 0 && value ≤ Number.signed64.least.natAbs then .int (-value)
    else ofFloat? (gathered.toFloat? number.negative)
  | _, none => ofFloat? (gathered.toFloat? number.negative)
  | _, some (negativeExponent, digits) =>
    let exponent := Number.digitsValue digits
    if exponent ≤ greatestExponent then
      let total := gathered.exponent + if negativeExponent then -(exponent : Int) else exponent
      ofFloat? (Gathered.toFloat? ⟨gathered.significand, total⟩ number.negative)
    else if gathered.significand ≠ 0 && !negativeExponent then .unreadable
    else ofFloat? (Gathered.toFloat? ⟨0, 0⟩ number.negative)

/-- The digits in front of the next other character, if there is any digit. -/
def readDigits (cs : List Char) : Option (List Char × List Char) :=
  let digits := cs.takeWhile Number.isDigit
  if digits.isEmpty then none else some (digits, cs.dropWhile Number.isDigit)

/-- Whether there is a minus sign, and what stands behind it. -/
def readMinus : List Char → Bool × List Char
  | '-' :: rest => (true, rest)
  | cs => (false, cs)

/-- Whether the sign of an exponent is a minus, and what stands behind the sign. -/
def readExponentSign : List Char → Bool × List Char
  | '+' :: rest => (false, rest)
  | cs => readMinus cs

/-- Reads the digits behind a point, if there is a point. -/
def readFraction : List Char → Option (Option (List Char) × List Char)
  | '.' :: rest => (readDigits rest).map fun (digits, rest) => (some digits, rest)
  | cs => some (none, cs)

/-- Reads an exponent, if there is a mark for it. -/
def readExponent : List Char → Option (Option (Bool × List Char) × List Char)
  | 'e' :: rest | 'E' :: rest =>
    let (negative, rest) := readExponentSign rest
    (readDigits rest).map fun (digits, rest) => (some (negative, digits), rest)
  | cs => some (none, cs)

/-- Reads a number. -/
def readNumber (cs : List Char) : Option (Node × List Char) := do
  let (negative, cs) := readMinus cs
  let (whole, cs) ← readDigits cs
  if whole.head? = some '0' && whole.length > 1 then none
  let (fraction, cs) ← readFraction cs
  let (exponent, cs) ← readExponent cs
  return (NumberText.node ⟨negative, whole, fraction, exponent⟩, cs)

/-! ## Values -/

mutual

/-- Reads a value; also what stands behind it. -/
def readValue : Nat → List Char → Option (Node × List Char)
  | 0, _ => none
  | fuel + 1, cs =>
    match skipSpace cs with
    | '"' :: rest => readString rest
    | '[' :: rest =>
      match skipSpace rest with
      | ']' :: rest => some (.seq [], rest)
      | _ => (readItems fuel rest).map fun (items, rest) => (.seq items, rest)
    | '{' :: rest =>
      match skipSpace rest with
      | '}' :: rest => some (.map [], rest)
      | _ => (readMembers fuel rest).map fun (members, rest) => (.map members, rest)
    | 'n' :: 'u' :: 'l' :: 'l' :: rest => some (.null, rest)
    | 't' :: 'r' :: 'u' :: 'e' :: rest => some (.bool true, rest)
    | 'f' :: 'a' :: 'l' :: 's' :: 'e' :: rest => some (.bool false, rest)
    | cs => readNumber cs

/-- Reads one or more items up to the closing bracket. -/
def readItems : Nat → List Char → Option (List Node × List Char)
  | 0, _ => none
  | fuel + 1, cs =>
    match readValue fuel cs with
    | none => none
    | some (item, rest) =>
      match skipSpace rest with
      | ',' :: rest => (readItems fuel rest).map fun (items, rest) => (item :: items, rest)
      | ']' :: rest => some ([item], rest)
      | _ => none

/-- Reads one or more members up to the closing brace. -/
def readMembers : Nat → List Char → Option (List (Node × Node) × List Char)
  | 0, _ => none
  | fuel + 1, cs =>
    match skipSpace cs with
    | '"' :: rest =>
      match readString rest with
      | none => none
      | some (key, rest) =>
        match skipSpace rest with
        | ':' :: rest =>
          match readValue fuel rest with
          | none => none
          | some (value, rest) =>
            match skipSpace rest with
            | ',' :: rest =>
              (readMembers fuel rest).map fun (members, rest) => ((key, value) :: members, rest)
            | '}' :: rest => some ([(key, value)], rest)
            | _ => none
        | _ => none
    | _ => none

end

/-- Reads a text that is one JSON value. Every step of the reader that does not consume a
character is followed by one that does, which bounds the steps by the length. -/
def parse? (text : String) : Option Node :=
  let cs := text.toList
  match readValue (2 * cs.length + 2) cs with
  | some (node, rest) => if (skipSpace rest).isEmpty then some node else none
  | none => none

end SchemaIR.Json
