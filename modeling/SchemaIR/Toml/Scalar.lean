import SchemaIR.Document.Node

/-!
# TOML scalars

Texts in four forms, numbers, truth values and points in time. A number may have an
underscore between any two of its digits. Integers have 64 bits, and only decimal ones
have a sign. Points in time are recognised but nobody reads them, so they come out as a
mapping without entries.
-/

namespace SchemaIR.Toml

/-- Reads something from the front of a text; also what stands behind it. -/
abbrev Reader (α : Type) := List Char → Option (α × List Char)

/-- Whether a character is a space or a tab. -/
def isSpace (c : Char) : Bool := c = ' ' || c = '\t'

/-- Drops spaces and tabs. -/
def skipSpace (text : List Char) : List Char := text.dropWhile isSpace

/-- Whether a character may occur in a comment or in a text of one line. -/
def isAllowed (c : Char) : Bool := c = '\t' || (0x20 ≤ c.toNat && c.toNat ≠ 0x7F)

/-- What stands behind a line break at the front of a text. -/
def lineBreak? : List Char → Option (List Char)
  | '\n' :: rest => some rest
  | '\r' :: '\n' :: rest => some rest
  | _ => none

/-- Drops spaces, tabs and line breaks. -/
def skipLines : List Char → List Char
  | ' ' :: rest => skipLines rest
  | '\t' :: rest => skipLines rest
  | '\n' :: rest => skipLines rest
  | '\r' :: '\n' :: rest => skipLines rest
  | text => text

/-! ## Texts -/

/-- The character that an escape of one letter stands for. -/
def escaped? (c : Char) : Option Char :=
  match c with
  | 'b' => some '\x08'
  | 't' => some '\t'
  | 'n' => some '\n'
  | 'f' => some '\x0c'
  | 'r' => some '\r'
  | '"' => some '"'
  | '\\' => some '\\'
  | _ => none

/-- How many hexadecimal digits follow an escape letter. -/
def escapeWidth? (c : Char) : Option Nat :=
  match c with
  | 'u' => some 4
  | 'U' => some 8
  | _ => none

/-- The character that an escape stands for, from behind the backslash. -/
def escape : Reader Char
  | [] => none
  | c :: rest =>
    match escaped? c, escapeWidth? c with
    | some e, _ => some (e, rest)
    | none, some width =>
      (Number.codePoint? (rest.take width) width).map (·, rest.drop width)
    | none, none => none

/-- Reads a text of one line from behind its opening quote, the characters so far last
first. Only double quotes have escapes. -/
def lineText (quote : Char) : Nat → List Char → Reader (List Char)
  | 0, _, _ => none
  | _ + 1, _, [] => none
  | fuel + 1, sofar, c :: rest =>
    if c = quote then some (sofar.reverse, rest)
    else if quote = '"' ∧ c = '\\' then
      match escape rest with
      | some (e, rest) => lineText quote fuel (e :: sofar) rest
      | none => none
    else if isAllowed c then lineText quote fuel (c :: sofar) rest
    else none

/-- Reads a text of several lines from behind its opening quotes, the characters so far
last first. One or two quotes are part of the text, also directly in front of the closing
three. A backslash at the end of a line takes away all white space up to the next
character. -/
def linesText (quote : Char) : Nat → List Char → Reader (List Char)
  | 0, _, _ => none
  | _ + 1, _, [] => none
  | fuel + 1, sofar, c :: rest =>
    if c = quote then
      let quotes := (c :: rest).takeWhile (· = quote)
      let rest := (c :: rest).drop quotes.length
      if quotes.length < 3 then linesText quote fuel (quotes ++ sofar) rest
      else if quotes.length ≤ 5 then some ((quotes.drop 3 ++ sofar).reverse, rest)
      else none
    else if quote = '"' ∧ c = '\\' then
      match escape rest, lineBreak? (skipSpace rest) with
      | some (e, rest), _ => linesText quote fuel (e :: sofar) rest
      | none, some rest => linesText quote fuel sofar (skipLines rest)
      | none, none => none
    else
      match lineBreak? (c :: rest) with
      | some rest => linesText quote fuel ('\n' :: sofar) rest
      | none => if isAllowed c then linesText quote fuel (c :: sofar) rest else none

/-- Whether a character opens a text. -/
def isQuote (c : Char) : Bool := c = '"' || c = '\''

/-- Reads a text of one line. -/
def lineString : Reader String
  | [] => none
  | quote :: rest =>
    if isQuote quote then
      (lineText quote (rest.length + 1) [] rest).map fun (cs, rest) => (String.ofList cs, rest)
    else none

/-- Reads a text in any form. A line break directly behind three opening quotes is not
part of the text. -/
def string : Reader String := fun text =>
  match text with
  | a :: b :: c :: rest =>
    if isQuote a && b = a && c = a then
      let rest := (lineBreak? rest).getD rest
      (linesText a (rest.length + 1) [] rest).map fun (cs, rest) => (String.ofList cs, rest)
    else lineString text
  | _ => lineString text

/-! ## Numbers -/

/-- The digits in front of a text, with single underscores between them left out. -/
def moreDigits (base : Nat) : List Char → List Char × List Char
  | [] => ([], [])
  | '_' :: c :: rest =>
    if Number.isBaseDigit base c then
      let (digits, rest) := moreDigits base rest
      (c :: digits, rest)
    else ([], '_' :: c :: rest)
  | c :: rest =>
    if Number.isBaseDigit base c then
      let (digits, rest) := moreDigits base rest
      (c :: digits, rest)
    else ([], c :: rest)

/-- One or more digits in a base. -/
def digits (base : Nat) : Reader (List Char)
  | [] => none
  | c :: rest =>
    if Number.isBaseDigit base c then
      let (more, rest) := moreDigits base rest
      some (c :: more, rest)
    else none

/-- A sign, if there is one. -/
def sign : List Char → List Char × List Char
  | '+' :: rest => (['+'], rest)
  | '-' :: rest => (['-'], rest)
  | text => ([], text)

/-- A decimal integer without superfluous zeros in front, as its sign and digits. -/
def decimal : Reader (List Char) := fun text =>
  let (mark, rest) := sign text
  match rest with
  | '0' :: rest => some (mark ++ ['0'], rest)
  | _ => (digits 10 rest).map fun (ds, rest) => (mark ++ ds, rest)

/-- An integer of 64 bits. -/
def integer : Reader Node := fun text =>
  let based (base : Nat) (rest : List Char) : Option (Node × List Char) := do
    let (ds, rest) ← digits base rest
    let n ← Number.baseDigits? base ds
    if n ≤ Number.signed64.greatest then some (.int n, rest) else none
  match text with
  | '0' :: 'x' :: rest => based 16 rest
  | '0' :: 'o' :: rest => based 8 rest
  | '0' :: 'b' :: rest => based 2 rest
  | _ => do
    let (ds, rest) ← decimal text
    match Number.readInteger Number.signed64 ds with
    | .ok n => some (.int n, rest)
    | .error _ => none

/-- An exponent, as it is written. -/
def exponent : Reader (List Char)
  | e :: rest =>
    if e = 'e' || e = 'E' then
      let (mark, rest) := sign rest
      (digits 10 rest).map fun (ds, rest) => ('e' :: mark ++ ds, rest)
    else none
  | [] => none

/-- A fraction, as it is written. -/
def fraction : Reader (List Char)
  | '.' :: rest => (digits 10 rest).map fun (ds, rest) => ('.' :: ds, rest)
  | _ => none

/-- A float with a fraction, an exponent or both. One that is too large is refused, one
that is too small is infinite. -/
def float : Reader Node := fun text => do
  let (whole, rest) ← decimal text
  let (part, rest) := (fraction rest).getD ([], rest)
  let (power, rest) := (exponent rest).getD ([], rest)
  if part.isEmpty && power.isEmpty then none
  match Number.readFloat (String.ofList (whole ++ part ++ power)) with
  | .ok x => if x.isInf && x > 0 then none else some (.float x, rest)
  | .error _ => none

/-- Infinity or the value that is no number. -/
def specialFloat : Reader Node := fun text =>
  match sign text with
  | (mark, 'i' :: 'n' :: 'f' :: rest) =>
    some (.float (if mark = ['-'] then -1 / 0 else 1 / 0), rest)
  | (_, 'n' :: 'a' :: 'n' :: rest) => some (.float (0 / 0), rest)
  | _ => none

/-! ## Points in time -/

/-- A number of exactly so many decimal digits. -/
def fixedDigits (width : Nat) : Reader Nat := fun text =>
  let ds := text.take width
  if ds.length = width && ds.all Number.isDigit then
    some (Number.digitsValue ds, text.drop width)
  else none

/-- A given character. -/
def mark (c : Char) : Reader Unit
  | [] => none
  | d :: rest => if d = c then some ((), rest) else none

/-- How many days a month has. -/
def daysIn (year month : Nat) : Nat :=
  if month = 2 then
    if year % 4 = 0 ∧ (year % 100 ≠ 0 ∨ year % 400 = 0) then 29 else 28
  else if month ∈ [4, 6, 9, 11] then 30
  else 31

/-- A date. -/
def date : Reader Unit := fun text => do
  let (year, text) ← fixedDigits 4 text
  let (_, text) ← mark '-' text
  let (month, text) ← fixedDigits 2 text
  let (_, text) ← mark '-' text
  let (day, text) ← fixedDigits 2 text
  if 1 ≤ month ∧ month ≤ 12 ∧ 1 ≤ day ∧ day ≤ daysIn year month then some ((), text) else none

/-- Hours and minutes. -/
def minutes : Reader Unit := fun text => do
  let (hour, text) ← fixedDigits 2 text
  let (_, text) ← mark ':' text
  let (minute, text) ← fixedDigits 2 text
  if hour ≤ 23 ∧ minute ≤ 59 then some ((), text) else none

/-- A time of day. -/
def time : Reader Unit := fun text => do
  let (_, text) ← minutes text
  let (_, text) ← mark ':' text
  let (second, text) ← fixedDigits 2 text
  if second > 60 then none
  match text with
  | '.' :: rest =>
    if (rest.takeWhile Number.isDigit).isEmpty then none
    else some ((), rest.dropWhile Number.isDigit)
  | _ => some ((), text)

/-- The distance from universal time, if it is given. -/
def offset (text : List Char) : Option (List Char) :=
  match text with
  | 'Z' :: rest => some rest
  | 'z' :: rest => some rest
  | '+' :: rest => (minutes rest).map Prod.snd
  | '-' :: rest => (minutes rest).map Prod.snd
  | _ => some text

/-- What stands behind a time that follows a date. -/
def timeBehind (text : List Char) : Option (List Char) :=
  match text with
  | c :: rest =>
    if c = 'T' || c = 't' || c = ' ' then
      match time rest with
      | some (_, rest) => offset rest
      | none => some text
    else some text
  | [] => some text

/-- A date, a time, or both. -/
def dateTime : Reader Node := fun text =>
  match date text with
  | some (_, rest) => (timeBehind rest).map (.map [], ·)
  | none => (time text).map fun (_, rest) => (.map [], rest)

/-- A scalar. -/
def scalar : Reader Node := fun text =>
  match text with
  | 't' :: 'r' :: 'u' :: 'e' :: rest => some (.bool true, rest)
  | 'f' :: 'a' :: 'l' :: 's' :: 'e' :: rest => some (.bool false, rest)
  | c :: _ =>
    if isQuote c then (string text).map fun (s, rest) => (.string s, rest)
    else (dateTime text).or ((float text).or ((specialFloat text).or (integer text)))
  | [] => none

end SchemaIR.Toml
